import BusMonitor.PC.AlarmWalk
import BusMonitor.PC.EnergyWalk
import BusMonitor.PC.Transmit
/-!
# The data of the replies

The builders behind `nTxDataInfo` of `app_PCProto.c`. Each computes a
length, allocates that many bytes at `DataInfo` and stores into them,
branch by branch; two of them go on storing behind their `switch`.
`builtRight_iff` says for which requests the length is the one allocated,
every byte of it is stored and no other one is.
-/


namespace BusMonitor

open Mem

/-! ## What the builders read -/

def sizeofAcqBusVariable : Nat := 144
def sizeofAnaBusVariable : Nat := 68

/-- The variables the builders read. The two arrays of measurements are
taken as the bytes they are sent as. -/
structure Panel where
  optimset : Optimset
  ucPCProtoDataFlag : UInt8
  acqBusVar : Vector UInt8 (2 * sizeofAcqBusVariable)
  anaBusVar : Vector UInt8 (2 * sizeofAnaBusVariable)
  busStatus : Vector BusStatus 2
  ucBranchState : Vector UInt8 144
  gAlmMessage : Vector UInt8 164
  gPTAlmRelate : PTAlmRelate
  ptAlm : PTAlmStatics
  store : EnergyStore
  ptEnergyIndex : Nat
  rtc : Rtc
  now : Clock

/-- What a builder leaves: the reply code, the length it returns, the bytes
it allocated, none while `DataInfo` is null, and its stores through
`DataInfo`. -/
structure DataInfo where
  rtn : RTN
  halfLenid : UInt16
  allocated : Option Nat
  stores : List Store

namespace DataInfo

/-- `HalfLenid` bytes allocated and stored into. -/
def filled (halfLenid : Nat) (stores : List Store) : DataInfo where
  rtn := .eNormal
  halfLenid := UInt16.ofNat halfLenid
  allocated := some halfLenid
  stores := stores

/-- Nothing allocated, and what is stored nevertheless. -/
def void (stores : List Store) : DataInfo where
  rtn := .eVoidData
  halfLenid := 0
  allocated := none
  stores := stores

end DataInfo

def ucSYSName : List UInt8 := [0x44, 0x50, 0x4A, 0x5F, 0x47, 0x31, 0x4B, 0x20, 0x20, 0x20]
def ucSoftVer : UInt16 := 0x030B
def ucBrands : List UInt8 :=
  [0x48, 0x41, 0x49, 0x48, 0x4F, 0x4E, 0x47, 0x54, 0x4F, 0x4E, 0x47, 0x58, 0x49, 0x4E,
    0x20, 0x20, 0x20, 0x20, 0x20, 0x20]

/-- `temp = __REV16(w)` copied from memory. -/
def revBytes (w : UInt16) : List UInt8 := littleEndian (swap16 w)

namespace Panel

variable (p : Panel)

/-! ## Measurements, switches, alarms -/

/-- The first byte of the replies that carry it. -/
def flagStore : Store := ⟨0, [p.ucPCProtoDataFlag]⟩

/-- `nAnolog_DataInfo`. -/
def nAnologDataInfo (command : UInt8) : DataInfo :=
  if command = 0x00 then
    .filled (2 * sizeofAcqBusVariable + 1) [p.flagStore, ⟨1, p.acqBusVar.toList⟩]
  else if command = 0x01 then
    .filled (2 * sizeofAnaBusVariable + 1) [p.flagStore, ⟨1, p.anaBusVar.toList⟩]
  else .void []

/-- The byte of an arrester, blank while the arresters are not
monitored. -/
def arresterByte (num : Fin 2) : UInt8 :=
  if p.optimset.setup.bSPD = 1 then (p.busStatus.get num).bSPD else 0x20

/-- The four bytes of the busbars, from `DataInfo[1]` on. -/
def busStores : List Store :=
  [⟨1, [(p.busStatus.get 0).bQF]⟩, ⟨2, [p.arresterByte 0]⟩] ++
  let mode := p.optimset.setup.bBusMode
  if mode = busModeS then [⟨3, [(p.busStatus.get 1).bQF]⟩, ⟨4, [p.arresterByte 1]⟩]
  else if mode = busModeD then [⟨3, [0x20]⟩, ⟨4, [0x20]⟩]
  else if mode = busModeH then [⟨3, [(p.busStatus.get 1).bQF]⟩, ⟨4, [0x20]⟩]
  else if mode = busModeY then [⟨3, [(p.busStatus.get 1).bQF]⟩, ⟨4, [p.arresterByte 1]⟩]
  else []

/-- `ucPCProto_DataFlag &= mask`. -/
def maskFlag (mask : UInt8) : Panel :=
  { p with ucPCProtoDataFlag := p.ucPCProtoDataFlag &&& mask }

/-- `nIO_DataInfo`. -/
def nIODataInfo (command : UInt8) : Panel × DataInfo :=
  if command = 0xFF then
    (p.maskFlag 0xEF, .filled (4 + maxBranchNum + 1)
      (p.flagStore :: p.busStores ++ [⟨5, p.ucBranchState.toList⟩]))
  else if command = 0x01 then
    (p.maskFlag 0xEF, .filled (4 + 1) (p.flagStore :: p.busStores))
  else if command = 0x02 then
    (p.maskFlag 0xEF, .filled (maxBranchNum + 1) [p.flagStore, ⟨1, p.ucBranchState.toList⟩])
  else (p, .void [])

/-- `gAlmMessage.BusAlm`. -/
def busAlm : List UInt8 := p.gAlmMessage.toList.take 20

/-- `gAlmMessage.BranchAlm`. -/
def branchAlm : List UInt8 := p.gAlmMessage.toList.drop 20

/-- `nRTAlm_DataInfo`. -/
def nRTAlmDataInfo (command : UInt8) : Panel × DataInfo :=
  if command = 0xFF then
    (p.maskFlag 0xFE, .filled (maxBranchNum + 20 + 1) [p.flagStore, ⟨1, p.gAlmMessage.toList⟩])
  else if command = 0x01 then
    (p.maskFlag 0xFE, .filled (20 + 1) [p.flagStore, ⟨1, p.busAlm⟩])
  else if command = 0x02 then
    (p.maskFlag 0xFE, .filled (maxBranchNum + 1) [p.flagStore, ⟨1, p.branchAlm⟩])
  else (p, .void [])

/-! ## Settings, device, time, brand -/

/-- `nPutOpt_DataInfo`. -/
def nPutOptDataInfo (command : UInt8) : DataInfo :=
  let o := p.optimset
  if command = 0xD0 then .filled 3 [⟨0, [o.ucComAddr]⟩, ⟨1, revBytes o.usComBaud⟩]
  else if command = 0xE0 then
    .filled 14 [⟨0, revBytes o.usOVThr⟩, ⟨2, revBytes o.usUVThr⟩, ⟨4, [o.ucOCThrFst]⟩,
      ⟨5, [o.ucOCThrSec]⟩, ⟨6, revBytes (o.usOPThr.get 0)⟩, ⟨8, revBytes (o.usOPThr.get 1)⟩,
      ⟨10, revBytes o.usOFThr⟩, ⟨12, revBytes o.usUFThr⟩]
  else .void []

/-- `nDevice_DataInfo`. -/
def nDeviceDataInfo : DataInfo :=
  let o := p.optimset
  .filled 7 [⟨0, [o.setup.ucSetup]⟩, ⟨1, revBytes (o.usRateI.get 0)⟩,
    ⟨3, revBytes (o.usRateI.get 1)⟩, ⟨5, o.ucBranchN.toList⟩]

/-- `nPutTime_DataInfo`. -/
def nPutTimeDataInfo : DataInfo :=
  let t := p.rtc.now
  .filled 7 [⟨0, revBytes (t.year.toUInt16 + 2000)⟩, ⟨2, [t.month]⟩, ⟨3, [t.date]⟩,
    ⟨4, [t.hour]⟩, ⟨5, [t.minute]⟩, ⟨6, [t.second]⟩]

/-- `nBrand_DataInfo`. -/
def nBrandDataInfo : DataInfo :=
  .filled 32 [⟨0, ucSYSName⟩, ⟨10, revBytes ucSoftVer⟩, ⟨12, ucBrands⟩]

/-! ## The monthly energies -/

/-- `SendIndex` moved to the month before, in 16 bits. -/
def olderMonth : Nat :=
  let base : Int := p.store.usPTEBaseTime
  let i := p.ptEnergyIndex
  if base - 1 < i then
    if i % 256 = 1 then ((((i - i % 256 : Nat) : Int) - 0x0100 + 0x0C) % 65536).toNat
    else (((i : Int) - 1) % 65536).toNat
  else i

/-- The counters by the bus mode: two busbars, or one and blanks. -/
def counterStores (ep : Vector UInt32 8) : List Store :=
  let mode := p.optimset.setup.bBusMode
  if mode = busModeS ∨ mode = busModeY then
    (List.finRange 8).map fun i => ⟨7 + i.val * 4, rev16Bytes (ep.get i)⟩
  else if mode = busModeD ∨ mode = busModeH then
    ((List.finRange 8).take 4).map (fun i => ⟨7 + i.val * 4, rev16Bytes (ep.get i)⟩) ++
      [⟨23, List.replicate 16 0x20⟩]
  else []

/-- What `nPTEnergy_DataInfo` stores behind its `switch`. -/
def energyStores : List Store :=
  let base := p.store.usPTEBaseTime
  let i := p.ptEnergyIndex
  let r := if base < i then gPTEQuery p.store p.now base i
    else gPTEQuery p.store p.now base ((base + 1) % 65536)
  [⟨0, [if i ≤ base + 1 then 0x01 else 0x00]⟩, ⟨1, [p.ucPCProtoDataFlag]⟩, ⟨2, [r.time.toUInt8]⟩,
    ⟨3, [0x01]⟩, ⟨4, [0x00]⟩, ⟨5, [0x00]⟩, ⟨6, [0x00]⟩] ++ p.counterStores r.ep

/-- `SendIndex` as the `switch` of `nPTEnergy_DataInfo` leaves it. -/
def seekMonth (command : UInt8) : Panel :=
  if command = 0x00 then { p with ptEnergyIndex := gPTEFTime p.now }
  else if command = 0x01 then { p with ptEnergyIndex := p.olderMonth }
  else p

/-- `nPTEnergy_DataInfo`. -/
def nPTEnergyDataInfo (command : UInt8) : Panel × DataInfo :=
  let p := p.seekMonth command
  if command = 0x00 ∨ command = 0x01 ∨ command = 0x02 then (p, .filled 39 p.energyStores)
  else (p, .void p.energyStores)

/-! ## The alarm history -/

/-- The time of a record from the month on, its event and its type. -/
def partStores (r : AlmRecord) (t : Stamp) : List Store :=
  [⟨2, [t.month, t.date, t.hour, t.minute, t.second]⟩, ⟨7, [r.almEvent]⟩, ⟨8, [r.almType]⟩]

/-- Load the record under `sendIndex` and send its generation. -/
def sendGenerate (w : PTAlmStatics) : PTAlmStatics × List Store :=
  let r := slot p.store.fram w.sendIndex
  ({ w with fPTAlmRecord := r }, partStores r r.generate)

/-- The cursor put on the newest record, or the flags of an empty
history. -/
def toNewest (w : PTAlmStatics) : PTAlmStatics :=
  if 0 < p.gPTAlmRelate.almIndex then { w with sendIndex := p.gPTAlmRelate.almIndex - 1 }
  else if p.gPTAlmRelate.fullFlag = 1 then { w with sendIndex := ptAlmItem - 1 }
  else { w with lastFlag := 1, noneFlag := 1 }

/-- The cursor moved to the next older record, with the flag of the last
one. -/
def toOlder (w : PTAlmStatics) : PTAlmStatics :=
  if 0 < w.sendIndex then
    { w with
      sendIndex := w.sendIndex - 1
      lastFlag := if (p.gPTAlmRelate.fullFlag = 0 ∧ w.sendIndex - 1 = 0) ∨
          w.sendIndex - 1 = p.gPTAlmRelate.almIndex then 1 else w.lastFlag }
  else if p.gPTAlmRelate.fullFlag = 1 then { w with sendIndex := ptAlmItem - 1 }
  else w

/-- Command `0x02`, and `0x00` once the cursor is on the newest record. -/
def resend (w : PTAlmStatics) : PTAlmStatics × List Store :=
  if w.noneFlag = 1 then (w, [⟨2, List.replicate 7 0⟩]) else p.sendGenerate w

/-- Command `0x01`. -/
def sendNext (w : PTAlmStatics) : PTAlmStatics × List Store :=
  if w.fPTAlmRecord.flag = terminateFlag then
    ({ w with fPTAlmRecord := { w.fPTAlmRecord with flag := 0 } },
      partStores w.fPTAlmRecord w.fPTAlmRecord.terminate)
  else p.sendGenerate (p.toOlder w)

/-- What `nPTAlarm_DataInfo` stores behind its `switch`. -/
def tailStores (w : PTAlmStatics) : List Store :=
  [⟨0, [w.lastFlag]⟩, ⟨1, [p.ucPCProtoDataFlag]⟩]

/-- `nPTAlarm_DataInfo`. -/
def nPTAlarmDataInfo (command : UInt8) : Panel × DataInfo :=
  let sent (r : PTAlmStatics × List Store) : Panel × DataInfo :=
    ({ p with ptAlm := r.1 }, .filled 9 (r.2 ++ p.tailStores r.1))
  if command = 0x00 then sent (p.resend (p.toNewest p.ptAlm))
  else if command = 0x01 then sent (p.sendNext p.ptAlm)
  else if command = 0x02 then sent (p.resend p.ptAlm)
  else (p, .void (p.tailStores p.ptAlm))

end Panel

/-! ## The dispatch -/

/-- `nTxDataInfo` once it has chosen a builder. An unknown CID2 returns
`halfLenid` as it stands on the stack. -/
def Request.build (p : Panel) (stack : UInt16) : Request → Panel × DataInfo
  | .header => (p, ⟨.eNormal, 0, none, []⟩)
  | .analog group => (p, p.nAnologDataInfo group)
  | .io group => p.nIODataInfo group
  | .time => (p, p.nPutTimeDataInfo)
  | .optimset group => (p, p.nPutOptDataInfo group)
  | .alarm group => p.nRTAlmDataInfo group
  | .ptAlarm command => p.nPTAlarmDataInfo command
  | .ptEnergy command => p.nPTEnergyDataInfo command
  | .device => (p, p.nDeviceDataInfo)
  | .brands => (p, Panel.nBrandDataInfo)
  | .unknown => (p, ⟨.eNormal, stack, none, []⟩)

/-- `nTxDataInfo` on a decoded request. -/
def nTxReply (cid2 : UInt8) (pRxData : Int → UInt8) (p : Panel) (stack : UInt16) :
    Panel × DataInfo :=
  ((nTxDataInfo cid2).eval pRxData).build p stack

/-! ## What a reply has to be -/

/-- The length returned is the one allocated, every byte of it is stored
and no other one is. -/
structure DataInfo.WellBuilt (d : DataInfo) : Prop where
  length : d.halfLenid.toNat = d.allocated.getD 0
  inside : ∀ w ∈ d.stores, ∃ n, d.allocated = some n ∧ w.Within 0 n
  written : ∀ i < d.halfLenid.toNat, ∃ w ∈ d.stores, w.addr ≤ i ∧ i < w.addr + w.bytes.length

/-- The requests `nTxDataInfo` has a `case` for. -/
def Cid2Supported (cid2 : UInt8) : Prop :=
  cid2 ∈ [ePutAddress, ePutVersion, ePutAnalog, ePutIO, ePutTime, ePutOptimset, ePutAlarm,
    ePutPTAlarm, ePutPTEnergy, ePutDevice, ePutBrands]

instance : DecidablePred Cid2Supported := fun _ => inferInstanceAs (Decidable (_ ∈ _))

/-- The command types their builders know. -/
def CommandSupported (cid2 command : UInt8) : Prop :=
  (cid2 = ePutAnalog → command ∈ [0x00, 0x01]) ∧
  (cid2 = ePutIO ∨ cid2 = ePutAlarm → command ∈ [0xFF, 0x01, 0x02]) ∧
  (cid2 = ePutOptimset → command ∈ [0xD0, 0xE0]) ∧
  (cid2 = ePutPTAlarm ∨ cid2 = ePutPTEnergy → command ∈ [0x00, 0x01, 0x02])

/-- **A right reply.** What is not supported is answered by its code and
without data. -/
structure BuiltRight (cid2 command : UInt8) (d : DataInfo) : Prop where
  wellBuilt : d.WellBuilt
  voidData : ¬ CommandSupported cid2 command → d.rtn = .eVoidData ∧ d.halfLenid = 0
  cid2Void : ¬ Cid2Supported cid2 → d.rtn = .eCID2Void ∧ d.halfLenid = 0

/-- The four modes the setup byte is documented with. -/
def Setup.KnownMode (c : Setup) : Prop :=
  c.bBusMode = busModeS ∨ c.bBusMode = busModeD ∨ c.bBusMode = busModeH ∨ c.bBusMode = busModeY

instance (c : Setup) : Decidable c.KnownMode := inferInstanceAs (Decidable (_ ∨ _))

/-- The requests that are served: the CID2 is supported, a request for the
history has a known command type, and one that sends the busbars or the
energies finds a known bus mode. -/
def Served (cid2 command : UInt8) (c : Setup) : Prop :=
  Cid2Supported cid2 ∧
  (cid2 = ePutPTAlarm ∨ cid2 = ePutPTEnergy → command ∈ [0x00, 0x01, 0x02]) ∧
  ((cid2 = ePutIO ∧ command ∈ [0xFF, 0x01]) ∨ cid2 = ePutPTEnergy → c.KnownMode)

namespace DataInfo

variable {n : Nat} {ws ws' : List Store}

/-- Stores that follow one another through the allocation, in whatever
order they are made. -/
theorem wellBuilt_filled (hn : n < 65536) (hp : ws.Perm ws') (hf : Fills 0 n ws') :
    (filled n ws).WellBuilt := by
  have hlen : (filled n ws).halfLenid.toNat = n := by
    simp only [filled, UInt16.toNat_ofNat']
    omega
  refine ⟨hlen, fun w hw => ⟨n, rfl, hf.within w (hp.mem_iff.1 hw)⟩, fun i hi => ?_⟩
  rw [hlen] at hi
  obtain ⟨w, hw, hcov⟩ := hf.covered (Nat.zero_le i) hi
  exact ⟨w, hp.mem_iff.2 hw, hcov⟩

/-- A byte that is left out. -/
theorem not_wellBuilt_filled {i : Nat} (hn : n < 65536) (hi : i < n)
    (hw : ∀ w ∈ ws, i < w.addr ∨ w.addr + w.bytes.length ≤ i) : ¬ (filled n ws).WellBuilt := by
  intro h
  have hlen : (filled n ws).halfLenid.toNat = n := by
    simp only [filled, UInt16.toNat_ofNat']
    omega
  obtain ⟨w, hmem, hlo, hhi⟩ := h.written i (by rw [hlen]; exact hi)
  rcases hw w hmem with hlt | hge <;> omega

/-- Without an allocation nothing may be stored. -/
theorem wellBuilt_void : (void ws).WellBuilt ↔ ws = [] := by
  constructor
  · intro h
    by_contra hne
    obtain ⟨w, hw⟩ := List.exists_mem_of_ne_nil _ hne
    obtain ⟨n, hn, -⟩ := h.inside w hw
    exact absurd hn (by simp [void])
  · rintro rfl
    exact ⟨rfl, by simp [void], by simp [void]⟩

theorem voidData_of_eq {d : DataInfo} (h : d = void ws) : d.rtn = .eVoidData ∧ d.halfLenid = 0 := by
  rw [h]
  exact ⟨rfl, rfl⟩

end DataInfo

namespace Panel

variable {p : Panel} {command : UInt8}

open DataInfo

/-- The data flag and then as many bytes as were announced. -/
theorem fills_flag {n : Nat} {bs : List UInt8} (h : bs.length = n) :
    Fills 0 (n + 1) [p.flagStore, ⟨1, bs⟩] := by
  refine ⟨rfl, rfl, ?_⟩
  simp only [flagStore, List.length_singleton, Fills]
  omega

theorem wellBuilt_flag {n : Nat} {bs : List UInt8} (h : bs.length = n) (hn : n < 65535) :
    (filled (n + 1) [p.flagStore, ⟨1, bs⟩]).WellBuilt :=
  wellBuilt_filled (by omega) (.refl _) (fills_flag h)

theorem nAnolog_wellBuilt : (p.nAnologDataInfo command).WellBuilt := by
  unfold nAnologDataInfo
  split
  · exact wellBuilt_flag Vector.length_toList (by decide)
  · split
    · exact wellBuilt_flag Vector.length_toList (by decide)
    · exact wellBuilt_void.2 rfl

theorem length_busAlm : p.busAlm.length = 20 := by simp [busAlm]

theorem length_branchAlm : p.branchAlm.length = maxBranchNum := by simp [branchAlm, maxBranchNum]

theorem nRTAlm_wellBuilt : (p.nRTAlmDataInfo command).2.WellBuilt := by
  unfold nRTAlmDataInfo
  split
  · exact wellBuilt_flag Vector.length_toList (by decide)
  · split
    · exact wellBuilt_flag length_busAlm (by decide)
    · split
      · exact wellBuilt_flag length_branchAlm (by decide)
      · exact wellBuilt_void.2 rfl

/-- The busbars fill their four bytes in the four modes. -/
theorem fills_busStores (h : p.optimset.setup.KnownMode) : Fills 1 5 p.busStores := by
  unfold busStores
  rcases h with hm | hm | hm | hm <;> rw [hm] <;> exact ⟨rfl, rfl, rfl, rfl, rfl⟩

/-- In any other mode the bytes of the second busbar are left out. -/
theorem busStores_of_not (h : ¬ p.optimset.setup.KnownMode) :
    p.busStores = [⟨1, [(p.busStatus.get 0).bQF]⟩, ⟨2, [p.arresterByte 0]⟩] := by
  unfold Setup.KnownMode at h
  simp only [not_or] at h
  obtain ⟨hS, hD, hH, hY⟩ := h
  simp [busStores, hS, hD, hH, hY]

theorem nIO_wellBuilt_iff : (p.nIODataInfo command).2.WellBuilt ↔
    (command ∈ [0xFF, 0x01] → p.optimset.setup.KnownMode) := by
  by_cases hmode : p.optimset.setup.KnownMode
  · refine iff_of_true ?_ fun _ => hmode
    have hbus : Fills 0 5 (p.flagStore :: p.busStores) := ⟨rfl, fills_busStores hmode⟩
    unfold nIODataInfo
    split
    · refine wellBuilt_filled (by decide) (.refl _) (hbus.append ⟨rfl, ?_⟩)
      simp [Fills, maxBranchNum]
    · split
      · exact wellBuilt_filled (by decide) (.refl _) hbus
      · split
        · exact wellBuilt_flag Vector.length_toList (by decide)
        · exact wellBuilt_void.2 rfl
  · -- in another mode the third byte is not stored
    have hbus := busStores_of_not hmode
    unfold nIODataInfo
    split
    · next hc =>
      refine iff_of_false (not_wellBuilt_filled (i := 3) (by decide) (by decide) ?_) ?_
      · simp [hbus, flagStore]
      · simp [hc, hmode]
    · split
      · next hc =>
        refine iff_of_false (not_wellBuilt_filled (i := 3) (by decide) (by decide) ?_) ?_
        · simp [hbus, flagStore]
        · simp [hc, hmode]
      · next hFF h01 =>
        refine iff_of_true ?_ (by simp [hFF, h01])
        split
        · exact wellBuilt_flag Vector.length_toList (by decide)
        · exact wellBuilt_void.2 rfl

theorem nPutOpt_wellBuilt : (p.nPutOptDataInfo command).WellBuilt := by
  unfold nPutOptDataInfo
  split
  · exact wellBuilt_filled (by decide) (.refl _) ⟨rfl, rfl, rfl⟩
  · split
    · exact wellBuilt_filled (by decide) (.refl _)
        ⟨rfl, rfl, rfl, rfl, rfl, rfl, rfl, rfl, rfl⟩
    · exact wellBuilt_void.2 rfl

theorem nDevice_wellBuilt : p.nDeviceDataInfo.WellBuilt := by
  refine wellBuilt_filled (by decide) (.refl _) ⟨rfl, rfl, rfl, rfl, ?_⟩
  simp [Fills, revBytes, littleEndian]

theorem nPutTime_wellBuilt : p.nPutTimeDataInfo.WellBuilt :=
  wellBuilt_filled (by decide) (.refl _) ⟨rfl, rfl, rfl, rfl, rfl, rfl, rfl⟩

theorem nBrand_wellBuilt : nBrandDataInfo.WellBuilt :=
  wellBuilt_filled (by decide) (.refl _) ⟨rfl, rfl, rfl, rfl⟩

/-- The counters fill their 32 bytes in the four modes. -/
theorem fills_counterStores (h : p.optimset.setup.KnownMode) (ep : Vector UInt32 8) :
    Fills 7 39 (p.counterStores ep) := by
  unfold counterStores
  rcases h with hm | hm | hm | hm <;> rw [hm]
  · exact ⟨rfl, rfl, rfl, rfl, rfl, rfl, rfl, rfl, rfl⟩
  · exact ⟨rfl, rfl, rfl, rfl, rfl, rfl⟩
  · exact ⟨rfl, rfl, rfl, rfl, rfl, rfl⟩
  · exact ⟨rfl, rfl, rfl, rfl, rfl, rfl, rfl, rfl, rfl⟩

theorem counterStores_of_not (h : ¬ p.optimset.setup.KnownMode) (ep : Vector UInt32 8) :
    p.counterStores ep = [] := by
  unfold Setup.KnownMode at h
  simp only [not_or] at h
  obtain ⟨hS, hD, hH, hY⟩ := h
  simp [counterStores, hS, hD, hH, hY]

theorem fills_energyStores (h : p.optimset.setup.KnownMode) : Fills 0 39 p.energyStores :=
  ⟨rfl, rfl, rfl, rfl, rfl, rfl, rfl, fills_counterStores h _⟩

theorem seekMonth_optimset : (p.seekMonth command).optimset = p.optimset := by
  unfold seekMonth
  split
  · rfl
  · split <;> rfl

theorem nPTEnergy_wellBuilt_iff : (p.nPTEnergyDataInfo command).2.WellBuilt ↔
    command ∈ [0x00, 0x01, 0x02] ∧ p.optimset.setup.KnownMode := by
  have hmem : command ∈ [0x00, 0x01, 0x02] ↔ command = 0x00 ∨ command = 0x01 ∨ command = 0x02 := by
    simp
  unfold nPTEnergyDataInfo
  -- the month a command asks for does not matter to the layout
  have hopt : (p.seekMonth command).optimset = p.optimset := seekMonth_optimset
  rw [hmem, ← hopt]
  generalize p.seekMonth command = p
  dsimp only
  split
  · next hc =>
    rw [and_iff_right hc]
    by_cases hmode : p.optimset.setup.KnownMode
    · exact iff_of_true (wellBuilt_filled (by decide) (.refl _) (fills_energyStores hmode)) hmode
    · -- no counter is stored, the first of them would stand at 7
      refine iff_of_false (not_wellBuilt_filled (i := 7) (by decide) (by decide) ?_) hmode
      simp [energyStores, counterStores_of_not hmode]
  · -- the stores behind the switch are made without an allocation
    next hc =>
    exact iff_of_false (fun h => List.cons_ne_nil _ _ (wellBuilt_void.1 h)) fun h => hc h.1

theorem fills_partStores (r : AlmRecord) (t : Stamp) : Fills 2 9 (partStores r t) :=
  ⟨rfl, rfl, rfl, rfl⟩

theorem fills_resend (w : PTAlmStatics) : Fills 2 9 (p.resend w).2 := by
  unfold resend
  split
  · exact ⟨rfl, rfl⟩
  · exact fills_partStores _ _

theorem fills_sendNext (w : PTAlmStatics) : Fills 2 9 (p.sendNext w).2 := by
  unfold sendNext
  split
  · exact fills_partStores _ _
  · exact fills_partStores _ _

/-- The nine bytes, the first two of them last. -/
theorem wellBuilt_tail {ws : List Store} (h : Fills 2 9 ws) (w : PTAlmStatics) :
    (filled 9 (ws ++ p.tailStores w)).WellBuilt :=
  wellBuilt_filled (by decide) List.perm_append_comm (Fills.append (b := 2) ⟨rfl, rfl, rfl⟩ h)

theorem nPTAlarm_wellBuilt_iff :
    (p.nPTAlarmDataInfo command).2.WellBuilt ↔ command ∈ [0x00, 0x01, 0x02] := by
  unfold nPTAlarmDataInfo
  dsimp only
  split
  · next hc => exact iff_of_true (wellBuilt_tail (fills_resend _) _) (by simp [hc])
  · split
    · next hc => exact iff_of_true (wellBuilt_tail (fills_sendNext _) _) (by simp [hc])
    · split
      · next hc => exact iff_of_true (wellBuilt_tail (fills_resend _) _) (by simp [hc])
      · next h0 h1 h2 =>
        exact iff_of_false (fun h => List.cons_ne_nil _ _ (wellBuilt_void.1 h))
          (by simp [h0, h1, h2])

/-! ## Unknown command types -/

theorem nAnolog_void (h : command ∉ [0x00, 0x01]) : p.nAnologDataInfo command = .void [] := by
  simp only [List.mem_cons, List.not_mem_nil, or_false, not_or] at h
  rw [nAnologDataInfo, if_neg h.1, if_neg h.2]

theorem nIO_void (h : command ∉ [0xFF, 0x01, 0x02]) : p.nIODataInfo command = (p, .void []) := by
  simp only [List.mem_cons, List.not_mem_nil, or_false, not_or] at h
  rw [nIODataInfo, if_neg h.1, if_neg h.2.1, if_neg h.2.2]

theorem nRTAlm_void (h : command ∉ [0xFF, 0x01, 0x02]) :
    p.nRTAlmDataInfo command = (p, .void []) := by
  simp only [List.mem_cons, List.not_mem_nil, or_false, not_or] at h
  rw [nRTAlmDataInfo, if_neg h.1, if_neg h.2.1, if_neg h.2.2]

theorem nPutOpt_void (h : command ∉ [0xD0, 0xE0]) : p.nPutOptDataInfo command = .void [] := by
  simp only [List.mem_cons, List.not_mem_nil, or_false, not_or] at h
  simp only [nPutOptDataInfo, if_neg h.1, if_neg h.2]

/-- The history builders answer it by the code, but go on storing. -/
theorem nPTEnergy_voidData (h : command ∉ [0x00, 0x01, 0x02]) :
    (p.nPTEnergyDataInfo command).2.rtn = .eVoidData ∧
      (p.nPTEnergyDataInfo command).2.halfLenid = 0 := by
  simp only [List.mem_cons, List.not_mem_nil, or_false] at h
  unfold nPTEnergyDataInfo
  rw [if_neg h]
  exact ⟨rfl, rfl⟩

theorem nPTAlarm_voidData (h : command ∉ [0x00, 0x01, 0x02]) :
    (p.nPTAlarmDataInfo command).2.rtn = .eVoidData ∧
      (p.nPTAlarmDataInfo command).2.halfLenid = 0 := by
  simp only [List.mem_cons, List.not_mem_nil, or_false, not_or] at h
  simp only [nPTAlarmDataInfo, if_neg h.1, if_neg h.2.1, if_neg h.2.2]
  exact ⟨rfl, rfl⟩

end Panel

/-! ## Which requests are served -/

section dispatch

variable {cid2 : UInt8} {buf : Int → UInt8} {p : Panel} {stack : UInt16}

theorem nTxReply_unknown (h : ¬ Cid2Supported cid2) :
    nTxReply cid2 buf p stack = (p, ⟨.eNormal, stack, none, []⟩) := by
  simp only [Cid2Supported, List.mem_cons, List.not_mem_nil, or_false, not_or] at h
  obtain ⟨hadr, hver, hana, hio, htime, hopt, halm, hpta, hpte, hdev, hbrand⟩ := h
  simp only [nTxReply, nTxDataInfo, hadr, hver, hana, hio, htime, hopt, halm, hpta, hpte, hdev,
    hbrand, or_self, if_false]
  rfl

/-- A supported request whose builder is right. -/
theorem builtRight_of_supported {command : UInt8} {d : DataInfo} (hcid : Cid2Supported cid2)
    (hvoid : ¬ CommandSupported cid2 command → d.rtn = .eVoidData ∧ d.halfLenid = 0) :
    BuiltRight cid2 command d ↔ d.WellBuilt :=
  ⟨fun h => h.wellBuilt, fun h => ⟨h, hvoid, fun hc => absurd hcid hc⟩⟩

/-- The requests that need no more than their CID2. -/
theorem served_of_mem {command : UInt8} {c : Setup}
    (h : cid2 ∈ [ePutAddress, ePutVersion, ePutAnalog, ePutTime, ePutOptimset, ePutAlarm,
      ePutDevice, ePutBrands]) : Served cid2 command c := by
  simp only [List.mem_cons, List.not_mem_nil, or_false] at h
  rcases h with rfl | rfl | rfl | rfl | rfl | rfl | rfl | rfl <;>
    refine ⟨by decide, fun hc => absurd hc (by decide), fun hc => ?_⟩ <;>
    exact absurd (hc.imp_left And.left) (by decide)

/-- The requests that have no command type. -/
theorem commandSupported_of_mem {command : UInt8}
    (h : cid2 ∈ [ePutAddress, ePutVersion, ePutTime, ePutDevice, ePutBrands]) :
    CommandSupported cid2 command := by
  simp only [List.mem_cons, List.not_mem_nil, or_false] at h
  rcases h with rfl | rfl | rfl | rfl | rfl <;>
    exact ⟨fun hc => absurd hc (by decide), fun hc => absurd hc (by decide),
      fun hc => absurd hc (by decide), fun hc => absurd hc (by decide)⟩

theorem commandSupported_analog {command : UInt8} :
    CommandSupported ePutAnalog command ↔ command ∈ [0x00, 0x01] := by
  simp [CommandSupported, ePutAnalog, ePutIO, ePutAlarm, ePutOptimset, ePutPTAlarm, ePutPTEnergy]

theorem commandSupported_io {command : UInt8} :
    CommandSupported ePutIO command ↔ command ∈ [0xFF, 0x01, 0x02] := by
  simp [CommandSupported, ePutAnalog, ePutIO, ePutAlarm, ePutOptimset, ePutPTAlarm, ePutPTEnergy]

theorem commandSupported_alarm {command : UInt8} :
    CommandSupported ePutAlarm command ↔ command ∈ [0xFF, 0x01, 0x02] := by
  simp [CommandSupported, ePutAnalog, ePutIO, ePutAlarm, ePutOptimset, ePutPTAlarm, ePutPTEnergy]

theorem commandSupported_optimset {command : UInt8} :
    CommandSupported ePutOptimset command ↔ command ∈ [0xD0, 0xE0] := by
  simp [CommandSupported, ePutAnalog, ePutIO, ePutAlarm, ePutOptimset, ePutPTAlarm, ePutPTEnergy]

theorem commandSupported_history {command : UInt8} (h : cid2 = ePutPTAlarm ∨ cid2 = ePutPTEnergy) :
    CommandSupported cid2 command ↔ command ∈ [0x00, 0x01, 0x02] := by
  rcases h with rfl | rfl <;>
    simp [CommandSupported, ePutAnalog, ePutIO, ePutAlarm, ePutOptimset, ePutPTAlarm, ePutPTEnergy]

theorem served_io {command : UInt8} {c : Setup} :
    Served ePutIO command c ↔ (command ∈ [0xFF, 0x01] → c.KnownMode) := by
  simp [Served, Cid2Supported, ePutIO, ePutPTAlarm, ePutPTEnergy]

theorem served_ptAlarm {command : UInt8} {c : Setup} :
    Served ePutPTAlarm command c ↔ command ∈ [0x00, 0x01, 0x02] := by
  simp [Served, Cid2Supported, ePutIO, ePutPTAlarm, ePutPTEnergy]

theorem served_ptEnergy {command : UInt8} {c : Setup} :
    Served ePutPTEnergy command c ↔ command ∈ [0x00, 0x01, 0x02] ∧ c.KnownMode := by
  simp [Served, Cid2Supported, ePutIO, ePutPTAlarm, ePutPTEnergy]

theorem wellBuilt_nothing : (⟨.eNormal, 0, none, []⟩ : DataInfo).WellBuilt :=
  ⟨rfl, by simp, by simp⟩

/-- A request that is always served, and right. -/
theorem builtRight_served {command : UInt8} {c : Setup} {d : DataInfo}
    (h : cid2 ∈ [ePutAddress, ePutVersion, ePutAnalog, ePutTime, ePutOptimset, ePutAlarm,
      ePutDevice, ePutBrands]) (hd : d.WellBuilt)
    (hvoid : ¬ CommandSupported cid2 command → d.rtn = .eVoidData ∧ d.halfLenid = 0) :
    BuiltRight cid2 command d ↔ Served cid2 command c := by
  have hserved : Served cid2 command c := served_of_mem h
  exact iff_of_true ((builtRight_of_supported hserved.1 hvoid).2 hd) hserved

/-- **Which requests are served.** The length is right, the bytes are all
stored and what is not supported is answered so, exactly for the requests
that meet the condition. -/
theorem builtRight_iff (cid2 : UInt8) (pRxData : Int → UInt8) (p : Panel) (stack : UInt16) :
    BuiltRight cid2 (pRxData 6) (nTxReply cid2 pRxData p stack).2 ↔
      Served cid2 (pRxData 6) p.optimset.setup := by
  by_cases hcid : Cid2Supported cid2
  · have hnone {cid2 : UInt8} {d : DataInfo}
        (h : cid2 ∈ [ePutAddress, ePutVersion, ePutTime, ePutDevice, ePutBrands]) :
        ¬ CommandSupported cid2 (pRxData 6) → d.rtn = .eVoidData ∧ d.halfLenid = 0 :=
      fun hc => absurd (commandSupported_of_mem h) hc
    have hcid' := hcid
    simp only [Cid2Supported, List.mem_cons, List.not_mem_nil, or_false] at hcid'
    rcases hcid' with rfl | rfl | rfl | rfl | rfl | rfl | rfl | rfl | rfl | rfl | rfl
    · exact builtRight_served (by decide) wellBuilt_nothing (hnone (by decide))
    · exact builtRight_served (by decide) wellBuilt_nothing (hnone (by decide))
    · refine builtRight_served (by decide) Panel.nAnolog_wellBuilt fun hc => ?_
      rw [commandSupported_analog] at hc
      exact DataInfo.voidData_of_eq (Panel.nAnolog_void hc)
    · rw [builtRight_of_supported hcid fun hc => ?_, served_io]
      · exact Panel.nIO_wellBuilt_iff
      · rw [commandSupported_io] at hc
        exact DataInfo.voidData_of_eq (congrArg Prod.snd (Panel.nIO_void hc))
    · exact builtRight_served (by decide) Panel.nPutTime_wellBuilt (hnone (by decide))
    · refine builtRight_served (by decide) Panel.nPutOpt_wellBuilt fun hc => ?_
      rw [commandSupported_optimset] at hc
      exact DataInfo.voidData_of_eq (Panel.nPutOpt_void hc)
    · refine builtRight_served (by decide) Panel.nRTAlm_wellBuilt fun hc => ?_
      rw [commandSupported_alarm] at hc
      exact DataInfo.voidData_of_eq (congrArg Prod.snd (Panel.nRTAlm_void hc))
    · rw [builtRight_of_supported hcid fun hc => ?_, served_ptAlarm]
      · exact Panel.nPTAlarm_wellBuilt_iff
      · rw [commandSupported_history (.inl rfl)] at hc
        exact Panel.nPTAlarm_voidData hc
    · rw [builtRight_of_supported hcid fun hc => ?_, served_ptEnergy]
      · exact Panel.nPTEnergy_wellBuilt_iff
      · rw [commandSupported_history (.inr rfl)] at hc
        exact Panel.nPTEnergy_voidData hc
    · exact builtRight_served (by decide) Panel.nDevice_wellBuilt (hnone (by decide))
    · exact builtRight_served (by decide) Panel.nBrand_wellBuilt (hnone (by decide))
  · -- an unknown CID2 is answered as normal, with a length nobody set
    rw [nTxReply_unknown hcid]
    refine iff_of_false (fun h => ?_) fun h => hcid h.1
    have hrtn : RTN.eNormal = .eCID2Void := (h.cid2Void hcid).1
    exact absurd hrtn (by decide)

/-- A panel that has seen nothing, under a setup byte. -/
def blankPanel (setup : UInt8) : Panel where
  optimset := { optDefault with setup := ⟨setup⟩ }
  ucPCProtoDataFlag := 0
  acqBusVar := .replicate _ 0
  anaBusVar := .replicate _ 0
  busStatus := .replicate _ default
  ucBranchState := .replicate _ 0
  gAlmMessage := .replicate _ 0
  gPTAlmRelate := ⟨0, 0⟩
  ptAlm := ⟨default, 0, 0, 0⟩
  store := ⟨fun _ => 0, 0, 0⟩
  ptEnergyIndex := 0
  rtc := default
  now := unsetClock

/-- An unknown CID2 returns what stands on the stack, with the code of a
normal reply. An unknown command type of the history is stored through the
null pointer. In a bus mode of no name the busbars are not stored. -/
theorem badly_built :
    ¬ BuiltRight 0x99 0 (nTxReply 0x99 (fun _ => 0) (blankPanel 0x31) 7).2 ∧
    ¬ BuiltRight ePutPTAlarm 3 (nTxReply ePutPTAlarm (fun _ => 3) (blankPanel 0x31) 0).2 ∧
    ¬ BuiltRight ePutIO 1 (nTxReply ePutIO (fun _ => 1) (blankPanel 0x33) 0).2 := by
  refine ⟨fun h => ?_, fun h => ?_, fun h => ?_⟩
  · exact absurd h.wellBuilt.length (by decide)
  · exact absurd (Panel.nPTAlarm_wellBuilt_iff.1 h.wellBuilt) (by decide)
  · exact absurd (Panel.nIO_wellBuilt_iff.1 h.wellBuilt) (by decide)

end dispatch

/-! ## What the history replies say -/

/-- The bytes that are sent, of an allocation over the heap. -/
def DataInfo.bytes (d : DataInfo) (heap : Mem) : List UInt8 :=
  (heap.writeAll d.stores).read 0 d.halfLenid.toNat

namespace Panel

open DataInfo

variable {p : Panel} {command : UInt8} {heap : Mem}

theorem bytes_tail {ws : List Store} (h : Fills 2 9 ws) (w : PTAlmStatics) :
    (filled 9 (ws ++ p.tailStores w)).bytes heap =
      [w.lastFlag, p.ucPCProtoDataFlag] ++ ws.flatMap (·.bytes) := by
  have htail : Fills 0 2 (p.tailStores w) := ⟨rfl, rfl, rfl⟩
  have hlast : ((heap.writeAll ws).writeAll (p.tailStores w)).read 2 7 =
      (heap.writeAll ws).read 2 7 :=
    Mem.read_congr fun i _ => Mem.writeAll_of_within htail.within (.inr (by omega))
  calc ((heap.writeAll (ws ++ p.tailStores w)).read 0 (2 + 7))
      = ((heap.writeAll ws).writeAll (p.tailStores w)).read 0 2 ++
        ((heap.writeAll ws).writeAll (p.tailStores w)).read 2 7 := by
        rw [Mem.writeAll_append, Mem.read_add]
    _ = _ := by
        rw [hlast]
        exact congrArg₂ _ htail.read h.read

/-- What the walk sends, as the stores of the builder. -/
def sent (p : Panel) (heap : Mem) (r : PTAlmStatics × List Store) : PTAlmStatics × List UInt8 :=
  (r.1, (filled 9 (r.2 ++ p.tailStores r.1)).bytes heap)

theorem sent_eq {r : PTAlmStatics × List Store} (h : Fills 2 9 r.2) :
    p.sent heap r = almInfo p.ucPCProtoDataFlag r.1 (r.2.flatMap (·.bytes)) := by
  rw [sent, bytes_tail h]
  rfl

section walk

variable {h : HistoryRing}

theorem sendGenerate_sent (hfram : p.store.fram = h.fram) (heap : Mem) (w : PTAlmStatics) :
    BusMonitor.sendGenerate h p.ucPCProtoDataFlag w = p.sent heap (p.sendGenerate w) := by
  have hfill : Fills 2 9 (p.sendGenerate w).2 := fills_partStores _ _
  rw [sent_eq hfill, BusMonitor.sendGenerate, sendGenerate, hfram]
  rfl

theorem resend_sent (hfram : p.store.fram = h.fram) (heap : Mem) (w : PTAlmStatics) :
    BusMonitor.resend h p.ucPCProtoDataFlag w = p.sent heap (p.resend w) := by
  have hfill := fills_resend (p := p) w
  rw [sent_eq hfill]
  unfold BusMonitor.resend resend
  split
  · rfl
  · rw [sendGenerate_sent hfram heap, sent_eq (fills_partStores _ _)]

theorem sendNext_sent (hfram : p.store.fram = h.fram) (hrelate : p.gPTAlmRelate = h.relate)
    (heap : Mem) (w : PTAlmStatics) :
    BusMonitor.sendNext h p.ucPCProtoDataFlag w = p.sent heap (p.sendNext w) := by
  have holder : BusMonitor.toOlder h w = p.toOlder w := by
    unfold BusMonitor.toOlder toOlder arrive
    rw [hrelate]
  have hfill := fills_sendNext (p := p) w
  rw [sent_eq hfill]
  unfold BusMonitor.sendNext sendNext
  split
  · rfl
  · rw [holder, sendGenerate_sent hfram heap, sent_eq (fills_partStores _ _)]

/-- **The replies of the alarm walk** are what the builder leaves at
`DataInfo`. -/
theorem nPTAlarm_reply (hfram : p.store.fram = h.fram) (hrelate : p.gPTAlmRelate = h.relate)
    (hc : command ∈ [0x00, 0x01, 0x02]) (heap : Mem) :
    BusMonitor.nPTAlarmDataInfo h p.ucPCProtoDataFlag command p.ptAlm =
      ((p.nPTAlarmDataInfo command).1.ptAlm, some ((p.nPTAlarmDataInfo command).2.bytes heap)) := by
  have hnewest : BusMonitor.toNewest h p.ptAlm = p.toNewest p.ptAlm := by
    unfold BusMonitor.toNewest toNewest
    rw [hrelate]
  simp only [List.mem_cons, List.not_mem_nil, or_false] at hc
  rcases hc with rfl | rfl | rfl
  · have hsent : BusMonitor.sendNewest h p.ucPCProtoDataFlag p.ptAlm =
        p.sent heap (p.resend (p.toNewest p.ptAlm)) := by
      rw [BusMonitor.sendNewest, hnewest]
      exact resend_sent hfram heap _
    exact congrArg (Prod.map id some) hsent
  · exact congrArg (Prod.map id some) (sendNext_sent hfram hrelate heap p.ptAlm)
  · exact congrArg (Prod.map id some) (resend_sent hfram heap p.ptAlm)

end walk

section months

variable {h : EnergyHistory}

theorem flatMap_counterStores (hmode : p.optimset.setup.bBusMode = h.bBusMode)
    (hknown : p.optimset.setup.KnownMode) (ep : Vector UInt32 8) :
    (p.counterStores ep).flatMap (·.bytes) = h.counters ep := by
  have hall : (List.finRange 8).map ep.get = ep.toList :=
    List.ext_getElem (by simp) fun i _ _ => by
      simp only [List.getElem_map, List.getElem_finRange]
      rfl
  have htwo : ∀ is : List (Fin 8), (is.map fun i => (⟨7 + i.val * 4, rev16Bytes (ep.get i)⟩ :
      Store)).flatMap (·.bytes) = (is.map ep.get).flatMap rev16Bytes := by
    intro is
    rw [List.flatMap_map, List.flatMap_map]
  unfold counterStores EnergyHistory.counters
  rw [← hmode]
  dsimp only
  split
  · rw [htwo, hall]
  · split
    · rw [List.flatMap_append, htwo, List.map_take, hall]
      rfl
    · next hSY hDH =>
      unfold Setup.KnownMode at hknown
      rcases hknown with hm | hm | hm | hm
      · exact absurd (.inl hm) hSY
      · exact absurd (.inl hm) hDH
      · exact absurd (.inr hm) hDH
      · exact absurd (.inr hm) hSY

/-- **The replies of the energy walk** are what the builder leaves at
`DataInfo`, in the four modes. -/
theorem nPTEnergy_reply (hstore : p.store = h.store) (hnow : p.now = h.now)
    (hmode : p.optimset.setup.bBusMode = h.bBusMode) (hflag : p.ucPCProtoDataFlag = h.dataFlag)
    (hknown : p.optimset.setup.KnownMode) (hc : command ∈ [0x00, 0x01, 0x02]) (heap : Mem) :
    BusMonitor.nPTEnergyDataInfo h command p.ptEnergyIndex =
      ((p.nPTEnergyDataInfo command).1.ptEnergyIndex,
        some ((p.nPTEnergyDataInfo command).2.bytes heap)) := by
  have hreply : ∀ i, (filled 39 { p with ptEnergyIndex := i }.energyStores).bytes heap =
      h.reply i := by
    intro i
    have hfill : Fills 0 39 { p with ptEnergyIndex := i }.energyStores := fills_energyStores hknown
    refine hfill.read.trans ?_
    simp only [energyStores, List.flatMap_append, EnergyHistory.reply, EnergyHistory.info,
      EnergyHistory.base, ← hstore, ← hnow, ← hflag]
    rw [← flatMap_counterStores hmode hknown]
    rfl
  have holder : h.toOlder p.ptEnergyIndex = p.olderMonth := by
    unfold EnergyHistory.toOlder olderMonth EnergyHistory.base
    rw [hstore]
  simp only [List.mem_cons, List.not_mem_nil, or_false] at hc
  have hbuild : p.nPTEnergyDataInfo command =
      (p.seekMonth command, filled 39 (p.seekMonth command).energyStores) := if_pos hc
  have hwalk : BusMonitor.nPTEnergyDataInfo h command p.ptEnergyIndex =
      ((p.seekMonth command).ptEnergyIndex,
        some (h.reply (p.seekMonth command).ptEnergyIndex)) := by
    rcases hc with rfl | rfl | rfl
    · simp only [BusMonitor.nPTEnergyDataInfo, seekMonth, hnow, if_true]
    · simp only [BusMonitor.nPTEnergyDataInfo, seekMonth, holder]
      rfl
    · rfl
  have hseek : p.seekMonth command =
      { p with ptEnergyIndex := (p.seekMonth command).ptEnergyIndex } := by
    unfold seekMonth
    split
    · rfl
    · split <;> rfl
  rw [hwalk, hbuild, ← hreply, ← hseek]

end months

end Panel

end BusMonitor
