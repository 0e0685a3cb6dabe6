import BusMonitor.Lib.Mem
import BusMonitor.Lib.Single
import Mathlib.Algebra.GroupWithZero.Nat
/-!
# The monitor's settings, samples and FRAM

The settings record `Optimset_st`, the busbar samples and switch states
the alarm code reads, and the areas of the FRAM. The C structures are
packed and little endian, and an `enum` takes one byte.
-/


namespace BusMonitor

open LittleEndian

/-! ## Areas of the FRAM -/

def fmAddrEPRealTime : Nat := 0x0100
def fmAddrOptimSet : Nat := 0x0200
def fmAddrPastAlm : Nat := 0x0500
def fmAddrEPPastTime : Nat := 0x3000

/-- Where the settings stand in their area. -/
def fmOptDevInfo : Nat := 4

/-- The marker an initialised area starts with. -/
def initMark : Nat := 0x55AA

/-- A 16-bit word of the FRAM. -/
def readWord (m : Mem) (a : Nat) : Nat := decode (m.read a 2)

/-! ## The clock -/

/-- A time as the alarm records keep it. -/
structure Stamp where
  year : UInt8
  month : UInt8
  date : UInt8
  hour : UInt8
  minute : UInt8
  second : UInt8
  deriving DecidableEq, Repr, Inhabited

/-- The time has a date: the calendar of the clock has no month 0 and no
day 0. -/
def Stamp.Dated (t : Stamp) : Prop := t.month ≠ 0 ∨ t.date ≠ 0

instance (t : Stamp) : Decidable t.Dated := inferInstanceAs (Decidable (_ ∨ _))

/-- The six bytes of a time. -/
def Stamp.toBytes (t : Stamp) : List UInt8 :=
  [t.year, t.month, t.date, t.hour, t.minute, t.second]

/-! ## Settings -/

/-- There are two busbars. -/
instance neZeroTwo : NeZero 2 := ⟨by decide⟩

/-- The number of branches. -/
def maxBranchNum : Nat := 144

def busModeS : UInt8 := 1
def busModeD : UInt8 := 2
def busModeH : UInt8 := 4
def busModeY : UInt8 := 8

/-- The setup byte: the bus mode in the low four bits, then the monitoring
bits of the branches and of the arresters. -/
structure Setup where
  ucSetup : UInt8
  deriving DecidableEq, Repr, Inhabited

def Setup.bBusMode (c : Setup) : UInt8 := c.ucSetup &&& 0x0F
def Setup.bQF (c : Setup) : UInt8 := (c.ucSetup >>> 4) &&& 1
def Setup.bSPD (c : Setup) : UInt8 := (c.ucSetup >>> 5) &&& 1

/-- `Optimset_TypeDef`. -/
structure Optimset where
  ucComAddr : UInt8
  usComBaud : UInt16
  ucDHCPEn : UInt8
  ucIPAddr : Vector UInt8 4
  ucIPGateway : Vector UInt8 4
  ucIPMask : Vector UInt8 4
  usDstIPAddr : Vector UInt8 4
  usDstIPPort : UInt16
  setup : Setup
  usRateI : Vector UInt16 2
  usCTR : Vector UInt16 2
  ucBranchN : Vector UInt8 2
  usOVThr : UInt16
  usUVThr : UInt16
  ucOCThrFst : UInt8
  ucOCThrSec : UInt8
  usOPThr : Vector UInt16 2
  usOFThr : UInt16
  usUFThr : UInt16
  deriving DecidableEq, Repr

/-- `usOPThr[num] = v`. -/
def Optimset.setOPThr (o : Optimset) (num : Fin 2) (v : UInt16) : Optimset :=
  { o with usOPThr := o.usOPThr.set num v }

/-- The two bytes of a word. -/
def wordBytes (w : UInt16) : List UInt8 := encode 2 w.toNat

/-- The 47 bytes of `Optimset_st`. -/
def Optimset.toBytes (o : Optimset) : List UInt8 :=
  [o.ucComAddr] ++ wordBytes o.usComBaud ++ [o.ucDHCPEn] ++ o.ucIPAddr.toList ++
  o.ucIPGateway.toList ++ o.ucIPMask.toList ++ o.usDstIPAddr.toList ++ wordBytes o.usDstIPPort ++
  [o.setup.ucSetup] ++ wordBytes o.usRateI[0] ++ wordBytes o.usRateI[1] ++
  wordBytes o.usCTR[0] ++ wordBytes o.usCTR[1] ++ o.ucBranchN.toList ++
  wordBytes o.usOVThr ++ wordBytes o.usUVThr ++ [o.ucOCThrFst, o.ucOCThrSec] ++
  wordBytes o.usOPThr[0] ++ wordBytes o.usOPThr[1] ++ wordBytes o.usOFThr ++ wordBytes o.usUFThr

/-- The factory settings, `Optimset_Default`. -/
def optDefault : Optimset where
  ucComAddr := 1
  usComBaud := 0x9600
  ucDHCPEn := 1
  ucIPAddr := #v[192, 168, 20, 100]
  ucIPGateway := #v[192, 168, 20, 254]
  ucIPMask := #v[255, 255, 255, 0]
  usDstIPAddr := #v[192, 168, 20, 84]
  usDstIPPort := 4196
  setup := ⟨0x31⟩
  usRateI := #v[200, 200]
  usCTR := #v[200, 200]
  ucBranchN := #v[72, 72]
  usOVThr := 242
  usUVThr := 187
  ucOCThrFst := 80
  ucOCThrSec := 100
  usOPThr := #v[132, 132]
  usOFThr := 52
  usUFThr := 48

/-! ## Samples -/

/-- The fields of `Acq_BusVariableTypeDef` the alarm code reads. -/
structure BusVariable where
  fUa : Single
  fUb : Single
  fUc : Single
  fIa : Single
  fIb : Single
  fIc : Single
  fPt : Single
  fF : Single
  deriving DecidableEq, Repr, Inhabited

/-- The status byte of a busbar: its switch in bit 0, its arrester in
bit 4. -/
structure BusStatus where
  ucBusStatus : UInt8
  deriving DecidableEq, Repr, Inhabited

def BusStatus.bQF (x : BusStatus) : UInt8 := x.ucBusStatus &&& 1
def BusStatus.bSPD (x : BusStatus) : UInt8 := (x.ucBusStatus >>> 4) &&& 1

/-- What one pass of the alarm handler looks at: the settings, the busbar
samples, the busbar status bytes and the branch states. -/
structure Sample where
  optimset : Optimset
  acqBusVar : Vector BusVariable 2
  busStatus : Vector BusStatus 2
  ucBranchState : Vector UInt8 144

/-- A busbar with every value inside the factory limits. -/
def quietBus : BusVariable where
  fUa := .ofByte 220
  fUb := .ofByte 220
  fUc := .ofByte 220
  fIa := .ofByte 10
  fIb := .ofByte 10
  fIc := .ofByte 10
  fPt := .ofByte 10
  fF := .ofByte 50

/-- A sample with nothing in alarm, under the factory settings and a given
setup byte. -/
def quietSample (setup : UInt8) : Sample where
  optimset := { optDefault with setup := ⟨setup⟩ }
  acqBusVar := #v[quietBus, quietBus]
  busStatus := #v[⟨0⟩, ⟨0⟩]
  ucBranchState := Vector.replicate 144 0

/-- The power of busbar A over its factory limit. -/
def overPowerSample (setup : UInt8) : Sample where
  optimset := { optDefault with setup := ⟨setup⟩ }
  acqBusVar := #v[{ quietBus with fPt := .ofByte 200 }, quietBus]
  busStatus := #v[⟨0⟩, ⟨0⟩]
  ucBranchState := Vector.replicate 144 0

/-- A one-bit field is 0 or 1. -/
theorem bit_cases (b : UInt8) : b &&& 1 = 0 ∨ b &&& 1 = 1 := by
  have hb : (b &&& 1).toNat = b.toNat % 2 := by simp [Nat.and_one_is_mod]
  rcases Nat.mod_two_eq_zero_or_one b.toNat with h | h
  · exact .inl (UInt8.toNat_inj.1 (hb.trans h))
  · exact .inr (UInt8.toNat_inj.1 (hb.trans h))

theorem Setup.bQF_cases (c : Setup) : c.bQF = 0 ∨ c.bQF = 1 := bit_cases _

theorem Setup.bSPD_cases (c : Setup) : c.bSPD = 0 ∨ c.bSPD = 1 := bit_cases _

theorem BusStatus.bQF_cases (x : BusStatus) : x.bQF = 0 ∨ x.bQF = 1 := bit_cases _

theorem BusStatus.bSPD_cases (x : BusStatus) : x.bSPD = 0 ∨ x.bSPD = 1 := bit_cases _

example : optDefault.toBytes.length = 47 := by decide +kernel

end BusMonitor
