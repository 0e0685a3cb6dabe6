import BusMonitor.Lib.Probe
import BusMonitor.PC.Clock
import BusMonitor.PC.Function
/-!
# The handler of the PC frames

`gPCProtoHandle` of `app_PCProto.c`, with `nSet_DataInfo` and the dispatch
of `nTxDataInfo`. The frame is decoded into a buffer of `usHexLen` bytes
from the heap, and the handler reads that buffer as a `Probe`: past the
bytes `ASCII2HEX` wrote it finds whatever the heap holds.
-/


namespace BusMonitor

open Probe

/-! ## The received string -/

def pcRxLen : Nat := 1024

/-- `MessageType`: the string received, and what the memory from
`Rx_Buffer` on holds after it. -/
structure MessageType where
  rxBuffer : List UInt8
  stale : Nat → UInt8
  fits : rxBuffer.length ≤ pcRxLen

namespace MessageType

def rxLen (msg : MessageType) : UInt16 := UInt16.ofNat msg.rxBuffer.length

/-- `pRxData[i]`. -/
def byte (msg : MessageType) (i : Nat) : UInt8 :=
  if i < msg.rxBuffer.length then msg.rxBuffer.getD i 0 else msg.stale i

/-- `pRxData[len - 1]`. Before `Rx_Buffer` stands the high byte of
`Rx_Len`, which is 0 for an empty string. -/
def lastByte (msg : MessageType) : UInt8 :=
  if msg.rxBuffer.length = 0 then 0 else msg.byte (msg.rxBuffer.length - 1)

end MessageType

def framFrmSOI : UInt8 := 0x7E
def framFrmVER : UInt8 := 0x31
def framFrmCID1 : UInt8 := 0x2C
def framFrmEOI : UInt8 := 0x0D

namespace MessageType

variable (msg : MessageType)

/-- `usHexLen = (len - 2) / 2`, computed as an `int` and stored in 16
bits. -/
def usHexLen : UInt16 :=
  UInt16.ofNat ((((msg.rxBuffer.length : Int) - 2).tdiv 2) % 65536).toNat

/-- The bytes `ASCII2HEX` writes for a string. -/
def hex : List UInt8 := ascii2hex (fun i => msg.byte (1 + i)) msg.usHexLen.toNat

/-- `ucRxHexBuf`: the decoded bytes, and the heap around them. -/
def ucRxHexBuf (heap : Int → UInt8) (i : Int) : UInt8 :=
  if 0 ≤ i ∧ i < msg.usHexLen.toNat then msg.hex.getD i.toNat 0 else heap i

end MessageType

/-! ## Commands and replies -/

def ePutAnalog : UInt8 := 0x41
def ePutIO : UInt8 := 0x43
def ePutAlarm : UInt8 := 0x44
def ePutOptimset : UInt8 := 0x47
def eSetOptimset : UInt8 := 0x49
def ePutPTEnergy : UInt8 := 0x4B
def ePutPTAlarm : UInt8 := 0x4C
def ePutTime : UInt8 := 0x4D
def eSetTime : UInt8 := 0x4E
def ePutVersion : UInt8 := 0x4F
def ePutAddress : UInt8 := 0x50
def ePutBrands : UInt8 := 0x51
def ePutDevice : UInt8 := 0x80

/-- `RTNTypeDef`. -/
inductive RTN where
  | eNormal
  | eVERError
  | eCHKError
  | eLCHKError
  | eCID2Void
  | eOFError
  | eVoidData
  deriving DecidableEq, Repr

/-- What a set request can change: `Optimset_st`, the FRAM and the
clock. -/
structure Station where
  optimset : Optimset
  fram : Mem
  rtc : Rtc

/-- A station with the factory settings. -/
def factory : Station where
  optimset := optDefault
  fram := fun _ => 0
  rtc := default

/-- What a reading of the decoded buffer computes. -/
abbrev Decoded := Probe Int UInt8

/-- `Opt_Save`. -/
def optSave (s : Station) : Station :=
  { s with fram := s.fram.write (fmAddrOptimSet + fmOptDevInfo) s.optimset.toBytes }

/-! ## Set requests -/

/-- The settings a command type addresses. -/
inductive Setting where
  | clock
  | comAddr
  | comBaud
  | ovThr
  | uvThr
  | ocThrFst
  | ocThrSec
  | opThrA
  | opThrB
  | ofThr
  | ufThr
  deriving DecidableEq, Repr

/-- The `case` labels of `nSet_DataInfo`. -/
def commandType (c : UInt8) : Option Setting :=
  if c = 0x00 then some .clock
  else if c = 0xD0 then some .comAddr
  else if c = 0xD1 then some .comBaud
  else if c = 0xE0 then some .ovThr
  else if c = 0xE1 then some .uvThr
  else if c = 0xE2 then some .ocThrFst
  else if c = 0xE3 then some .ocThrSec
  else if c = 0xE4 then some .opThrA
  else if c = 0xE5 then some .opThrB
  else if c = 0xE6 then some .ofThr
  else if c = 0xE7 then some .ufThr
  else none

/-- The rates the `0xD1` case takes. -/
def IsBaud (temp : UInt16) : Prop :=
  temp = 1200 ∨ temp = 2400 ∨ temp = 4800 ∨ temp = 9600 ∨ temp = 19200 ∨ temp = 38400

instance : DecidablePred IsBaud := fun _ => inferInstanceAs (Decidable (_ ∨ _))

/-- The word at `data + i`, its bytes swapped by `__REV16`. -/
def revWord (i : Int) : Decoded UInt16 := do
  let hi ← entry i
  let lo ← entry (i + 1)
  return rev16 hi lo

/-- The `0x00` case. -/
def setClock (len : UInt16) (s : Station) : Decoded (RTN × Station) := do
  if len = 7 then
    let temp ← revWord 6
    if temp ≤ 2099 ∧ 2000 ≤ temp then
      let month ← entry 8
      let date ← entry 9
      let hours ← entry 10
      let minutes ← entry 11
      let seconds ← entry 12
      let sDate := s.rtc.setDate (temp - 2000).toUInt8 month date
      return (.eNormal, { s with rtc := sDate.setTime hours minutes seconds })
    else return (.eVoidData, s)
  else return (.eOFError, s)

/-- The cases that store a byte. The two current thresholds test `data[0]`
first, the version byte of the frame. -/
def setByte (tested : Bool) (put : Optimset → UInt8 → Optimset) (len : UInt16) (s : Station) :
    Decoded (RTN × Station) := do
  if len = 1 then
    if tested then
      if (← entry 0) ≤ 100 then
        return (.eNormal, optSave { s with optimset := put s.optimset (← entry 7) })
      else return (.eVoidData, s)
    else return (.eNormal, optSave { s with optimset := put s.optimset (← entry 7) })
  else return (.eOFError, s)

/-- The cases that store a word. -/
def setWord (put : Optimset → UInt16 → Optimset) (len : UInt16) (s : Station) :
    Decoded (RTN × Station) := do
  if len = 2 then
    return (.eNormal, optSave { s with optimset := put s.optimset (← revWord 7) })
  else return (.eOFError, s)

/-- The `0xD1` case. -/
def setBaud (len : UInt16) (s : Station) : Decoded (RTN × Station) := do
  if len = 2 then
    let temp ← revWord 7
    if IsBaud temp then
      return (.eNormal, optSave { s with optimset := { s.optimset with usComBaud := temp } })
    else return (.eVoidData, s)
  else return (.eOFError, s)

/-- The `switch` of `nSet_DataInfo`. -/
def nSetSwitch (len : UInt16) (s : Station) : Option Setting → Decoded (RTN × Station)
  | some .clock => setClock len s
  | some .comAddr => setByte false (fun o v => { o with ucComAddr := v }) len s
  | some .comBaud => setBaud len s
  | some .ovThr => setWord (fun o v => { o with usOVThr := v }) len s
  | some .uvThr => setWord (fun o v => { o with usUVThr := v }) len s
  | some .ocThrFst => setByte true (fun o v => { o with ucOCThrFst := v }) len s
  | some .ocThrSec => setByte true (fun o v => { o with ucOCThrSec := v }) len s
  | some .opThrA => setWord (fun o v => o.setOPThr 0 v) len s
  | some .opThrB => setWord (fun o v => o.setOPThr 1 v) len s
  | some .ofThr => setWord (fun o v => { o with usOFThr := v }) len s
  | some .ufThr => setWord (fun o v => { o with usUFThr := v }) len s
  | none => pure (.eNormal, s)

/-- `nSet_DataInfo`, entered with `eNormal` as the reply code. -/
def nSetDataInfo (command : UInt8) (len : UInt16) (s : Station) : Decoded (RTN × Station) := do
  if command = eSetTime then nSetSwitch len s (commandType 0x00)
  else nSetSwitch len s (commandType (← entry 6))

/-! ## Put requests -/

/-- The reply `nTxDataInfo` builds, with the group or command byte its
builder is given. -/
inductive Request where
  | analog (group : UInt8)
  | io (group : UInt8)
  | time
  | optimset (group : UInt8)
  | alarm (group : UInt8)
  | ptAlarm (command : UInt8)
  | ptEnergy (command : UInt8)
  | device
  | brands
  | header
  | unknown
  deriving DecidableEq, Repr

/-- `nTxDataInfo`. -/
def nTxDataInfo (cid2 : UInt8) : Decoded Request := do
  if cid2 = ePutAddress ∨ cid2 = ePutVersion then return .header
  else if cid2 = ePutAnalog then return .analog (← entry 6)
  else if cid2 = ePutIO then return .io (← entry 6)
  else if cid2 = ePutTime then return .time
  else if cid2 = ePutOptimset then return .optimset (← entry 6)
  else if cid2 = ePutAlarm then return .alarm (← entry 6)
  else if cid2 = ePutPTAlarm then return .ptAlarm (← entry 6)
  else if cid2 = ePutPTEnergy then return .ptEnergy (← entry 6)
  else if cid2 = ePutDevice then return .device
  else if cid2 = ePutBrands then return .brands
  else return .unknown

/-! ## The handler -/

/-- What the handler does with a string: nothing, a reply without data,
a set request with its reply code and the state after it, or a put
request. Every reply carries a version and an address. -/
inductive Reaction where
  | ignored
  | answered (ver adr : UInt8) (rtn : RTN)
  | set (ver adr : UInt8) (rtn : RTN) (s : Station)
  | put (ver adr : UInt8) (request : Request)

/-- Command execution: `nSet_DataInfo` or `nTxDataInfo` was called. -/
def Reaction.Executes : Reaction → Prop
  | ignored => False
  | answered .. => False
  | set .. => True
  | put .. => True

variable (msg : MessageType) (s : Station)

/-- `CHKSUM` as received, from the last two decoded bytes. -/
def rxCHKsum : Decoded UInt16 := do
  let hi ← entry ((msg.usHexLen.toNat : Int) - 2)
  let lo ← entry ((msg.usHexLen.toNat : Int) - 1)
  return rev16 hi lo

/-- `CHKSUM` as computed over the characters. -/
def calCHKsum : UInt16 := chksum msg.byte (msg.rxLen - 5)

/-- Command execution, with the address the frame came for. -/
def execute (ucCommand : UInt8) : Decoded Reaction := do
  if ucCommand = eSetOptimset ∨ ucCommand = eSetTime then
    let done ← nSetDataInfo ucCommand (msg.usHexLen - 9) s
    return .set framFrmVER s.optimset.ucComAddr done.1 done.2
  else return .put framFrmVER s.optimset.ucComAddr (← nTxDataInfo ucCommand)

/-- The case `eVEROK`. -/
def atVEROK (ucCommand : UInt8) : Decoded Reaction := do
  if (← revWord 4) = lchksum ((msg.usHexLen - 8) * 2) then execute msg s ucCommand
  else return .answered framFrmVER s.optimset.ucComAddr .eLCHKError

/-- The case `eCHKOK`. -/
def atCHKOK (ucCommand : UInt8) : Decoded Reaction := do
  if ucCommand = ePutVersion then return .answered framFrmVER s.optimset.ucComAddr .eNormal
  else if (← entry 0) = framFrmVER then atVEROK msg s ucCommand
  else return .answered framFrmVER s.optimset.ucComAddr .eVERError

/-- The case `eADROK`. -/
def atADROK (ucCommand : UInt8) : Decoded Reaction := do
  if calCHKsum msg = (← rxCHKsum msg) then atCHKOK msg s ucCommand
  else return .answered framFrmVER s.optimset.ucComAddr .eCHKError

/-- The query for the address, in the case `eCID1OK`. -/
def putAddress : Decoded Reaction := do
  if calCHKsum msg = (← rxCHKsum msg) then
    return .answered (← entry 0) s.optimset.ucComAddr .eNormal
  else
    let ver ← entry 0
    let adr ← entry 1
    return .answered ver adr .eCHKError

/-- The case `eCID1OK`. -/
def atCID1OK : Decoded Reaction := do
  let ucCommand ← entry 3
  if ucCommand = ePutAddress then putAddress msg s
  else if (← entry 1) = s.optimset.ucComAddr then atADROK msg s ucCommand
  else return .ignored

/-- `gPCProtoHandle`: one case of the `switch` falls into the next. -/
def gPCProtoHandle : Decoded Reaction := do
  if msg.byte 0 = framFrmSOI ∧ msg.lastByte = framFrmEOI then
    if (← entry 2) = framFrmCID1 then atCID1OK msg s
    else return .ignored
  else return .ignored

end BusMonitor
