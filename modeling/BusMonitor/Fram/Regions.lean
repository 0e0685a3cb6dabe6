import BusMonitor.Fram.Writes
import BusMonitor.GUI.Home
/-!
# The areas of the FRAM are kept apart

The device as the operations on its FRAM see it, all of them over the one
memory. A run notes each write with the kind of data it is for.
`regions_apart` says in which runs every write stays in the area of its
data: a branch number has to be below 186, and a monthly record at most
602 months behind the base.
-/


namespace BusMonitor

open LittleEndian History Month Stepwise

/-! ## The device -/

/-- The variables the operations on the FRAM go by. The FRAM is that of
`alm`. -/
structure Device where
  alm : AlmState
  usPTEBaseTime : Nat
  ucPTESaveFlag : UInt8
  acqBusVar : Fin 2 → BusEnergy
  timeCounter : Nat
  now : Clock
  optimset : Optimset
  page : Nat

/-- An operation: on the alarm history, on the energies, on the clock, on
the settings, on the home page. The settings a restart reads are left
open. -/
inductive DeviceOp where
  | generate (r : AlmRecord) (now : Stamp)
  | terminate (e : UInt8) (now : Stamp)
  | recordClear
  | pass (d : Fin 2 → Metering)
  | energyClear
  | save (ep : Vector UInt32 8)
  | clock (now : Clock)
  | optSave (o : Optimset)
  | optPWSave (pw : UInt16)
  | touch (set : UInt8) (num : Nat)
  | nextPage
  | lastPage
  | restart (o : Optimset)

namespace Device

variable (d : Device)

def fram : Mem := d.alm.fram

def setFram (m : Mem) : Device := { d with alm := { d.alm with fram := m } }

/-- The monthly energies' view of the device. -/
def energy : EnergyStore := ⟨d.fram, d.usPTEBaseTime, d.ucPTESaveFlag⟩

def setEnergy (s : EnergyStore) : Device :=
  { d.setFram s.fram with usPTEBaseTime := s.usPTEBaseTime, ucPTESaveFlag := s.ucPTESaveFlag }

/-- The energy counters' view of the device. -/
def meter : EnergyMeter := ⟨d.acqBusVar, d.fram, d.optimset.setup.bBusMode, d.timeCounter⟩

def setMeter (s : EnergyMeter) : Device :=
  { d.setFram s.fram with acqBusVar := s.acqBusVar, timeCounter := s.timeCounter }

/-- The FRAM after `Opt_Init`. -/
def optInit (m : Mem) : Mem := m.writeAll (optInitWrites m)

/-- The initialisations of `sys_Init`, in its order. -/
def powerOn (m : Mem) (o : Optimset) (now : Clock) : Device :=
  let alm := AlmState.powerUp (optInit m)
  let energy := EnergyStore.powerUp alm.fram
  { alm := { alm with fram := energy.fram }
    usPTEBaseTime := energy.usPTEBaseTime
    ucPTESaveFlag := energy.ucPTESaveFlag
    acqBusVar := fun i => readBusEnergy alm.fram (energyAddr i)
    timeCounter := 0
    now := now
    optimset := if readWord m fmAddrOptimSet = initMark then o else optDefault
    page := 0 }

/-- What the page of the branches is after new settings. The branch counts
and the setup are set on a page of their own, from which the home page
comes back at its start. -/
def pageAfter (o : Optimset) : Nat :=
  if o.ucBranchN = d.optimset.ucBranchN ∧ o.setup = d.optimset.setup then d.page else 0

/-- A touch saves the set byte of a branch the page offers. -/
def touchWrites (set : UInt8) (num : Nat) : List Mem.Store :=
  if num ∈ homeBranches d.optimset d.page then optBranchSetSaveWrites set num else []

/-- One operation. -/
def step (d : Device) : DeviceOp → Device
  | .generate r now => { d with alm := d.alm.histStep (.generate r now) }
  | .terminate e now => { d with alm := d.alm.histStep (.terminate e now) }
  | .recordClear => { d with alm := d.alm.histStep .clear }
  | .pass m => d.setMeter (d.meter.dataPass m)
  | .energyClear =>
    let d := d.setMeter d.meter.acqEnergyClear
    d.setEnergy (gPTEBaseTime d.energy d.now)
  | .save ep => d.setEnergy (gPTESave d.energy d.now ep)
  | .clock now => { d with now := now }
  | .optSave o =>
    { d.setFram (d.fram.writeAll (optSaveWrites o)) with optimset := o, page := d.pageAfter o }
  | .optPWSave pw => d.setFram (d.fram.writeAll (optPWSaveWrites pw))
  | .touch set num => d.setFram (d.fram.writeAll (d.touchWrites set num))
  | .nextPage => { d with page := BusMonitor.nextPage d.optimset d.page }
  | .lastPage => { d with page := BusMonitor.lastPage d.optimset d.page }
  | .restart o => powerOn d.fram o d.now

/-! ## The writes -/

/-- Writes, with the kind of data they are for. -/
def tag (a : Area) (ws : List Mem.Store) : List (Area × Mem.Store) := ws.map fun w => (a, w)

/-- The writes of the initialisations. -/
def powerOnWrites (m : Mem) : List (Area × Mem.Store) :=
  tag .optimSet (optInitWrites m) ++
  tag .pastAlm (History.writes ⟨⟨0, 0⟩, optInit m⟩ .restart) ++
  tag .epPastTime (gPTEInitWrites (AlmState.powerUp (optInit m)).fram)

/-- The writes of an operation. -/
def writes (d : Device) : DeviceOp → List (Area × Mem.Store)
  | .generate r now => tag .pastAlm (d.alm.history.writes (.generate r now))
  | .terminate e now => tag .pastAlm (d.alm.history.writes (.terminate e now))
  | .recordClear => tag .pastAlm (d.alm.history.writes .clear)
  | .pass m => tag .epRealTime (passWrites d.meter m)
  | .energyClear => tag .epRealTime energyClearWrites ++ tag .epPastTime (baseTimeWrites d.now)
  | .save ep => tag .epPastTime (saveWrites d.energy d.now ep)
  | .optSave o => tag .optimSet (optSaveWrites o)
  | .optPWSave pw => tag .optimSet (optPWSaveWrites pw)
  | .touch set num => tag .optimSet (d.touchWrites set num)
  | .restart _ => powerOnWrites d.fram
  | _ => []

theorem map_tag (a : Area) (ws : List Mem.Store) : (tag a ws).map Prod.snd = ws := by
  simp [tag]

/-- What the initialisations of the two histories leave. -/
theorem powerOn_apply (m : Mem) (o : Optimset) (now : Clock) :
    (powerOn m o now).alm.gPTAlmRelate = (AlmState.powerUp (optInit m)).gPTAlmRelate ∧
    (powerOn m o now).energy = EnergyStore.powerUp (AlmState.powerUp (optInit m)).fram := by
  dsimp only [powerOn, energy, fram]
  generalize AlmState.powerUp (optInit m) = alm
  generalize EnergyStore.powerUp alm.fram = energy
  exact ⟨rfl, rfl⟩

theorem energy_fram : d.energy.fram = d.fram := rfl

theorem powerOn_fram (m : Mem) (o : Optimset) (now : Clock) :
    (powerOn m o now).fram = m.writeAll ((powerOnWrites m).map Prod.snd) := by
  have halm : (AlmState.powerUp (optInit m)).fram = (m.writeAll (optInitWrites m)).writeAll
      (History.writes ⟨⟨0, 0⟩, optInit m⟩ .restart) := powerUp_fram (optInit m)
  unfold powerOnWrites
  rw [List.map_append, List.map_append, map_tag, map_tag, map_tag, Mem.writeAll_append,
    Mem.writeAll_append, ← halm, ← gPTEInit_fram, ← energy_fram, (powerOn_apply m o now).2]

/-- **The writes are all of them**: they make the FRAM after the operation
from the FRAM before it. -/
theorem step_fram (op : DeviceOp) :
    (d.step op).fram = d.fram.writeAll ((d.writes op).map Prod.snd) := by
  cases op with
  | generate r now =>
    rw [writes, map_tag]
    exact histStep_fram d.alm _
  | terminate e now =>
    rw [writes, map_tag]
    exact histStep_fram d.alm _
  | recordClear =>
    rw [writes, map_tag]
    exact histStep_fram d.alm _
  | pass m =>
    rw [writes, map_tag]
    exact dataPass_fram m
  | energyClear => rfl
  | save ep =>
    rw [writes, map_tag]
    exact gPTESave_fram ep
  | optSave o => rfl
  | optPWSave pw => rfl
  | touch set num =>
    rw [writes, map_tag]
    rfl
  | restart o => exact powerOn_fram d.fram o d.now
  | clock now => rfl
  | nextPage => rfl
  | lastPage => rfl

/-- The slots of two months after the base and up to the current one do
not overlap. -/
def SlotsApart (d : Device) : Prop :=
  d.usPTEBaseTime ≠ 0 → ∀ t u, IsCode t → IsCode u → d.usPTEBaseTime < t → d.usPTEBaseTime < u →
    t ≤ gPTEFTime d.now → u ≤ gPTEFTime d.now → t ≠ u →
      nPTEAddr d.usPTEBaseTime t + sizeofPTEnergy ≤ nPTEAddr d.usPTEBaseTime u ∨
      nPTEAddr d.usPTEBaseTime u + sizeofPTEnergy ≤ nPTEAddr d.usPTEBaseTime t

/-- Each write stays in the area of its data. -/
def Kept (ws : List (Area × Mem.Store)) : Prop := ∀ w ∈ ws, w.2.Within w.1.start w.1.stop

instance (ws : List (Area × Mem.Store)) : Decidable (Kept ws) :=
  inferInstanceAs (Decidable (∀ w ∈ ws, _))

/-- **A right step**: its writes stay in their areas, and the slots of the
months are apart after it. -/
def StepRight (d : Device) (op : DeviceOp) : Prop := Kept (d.writes op) ∧ (d.step op).SlotsApart

/-- **The condition on a step**: the branch number a touch saves, cut to a
byte, is below 186, and the month a record is saved for is at most 602
months after the base. -/
def StepOk (d : Device) : DeviceOp → Prop
  | .touch _ num => num ∈ homeBranches d.optimset d.page → num % 256 < 186
  | .save _ => Saves d.energy d.now →
    index (gPTEFTime d.now) ≤ index (rebase d.energy d.now).usPTEBaseTime + 602
  | _ => True

instance (d : Device) (op : DeviceOp) : Decidable (d.StepOk op) := by
  unfold StepOk
  split <;> infer_instance

/-! ## The headers outlast writes in other areas -/

variable {d : Device}

theorem kept_tag {a : Area} {ws : List Mem.Store} : Kept (tag a ws) ↔ Inside a ws := by
  unfold Kept Inside tag
  simp

theorem kept_nil : Kept [] := fun _ h => absurd h List.not_mem_nil

theorem kept_append {ws ws' : List (Area × Mem.Store)} :
    Kept (ws ++ ws') ↔ Kept ws ∧ Kept ws' :=
  List.forall_mem_append

/-- The history area is marked and holds the header. -/
def Headed (m : Mem) (h : PTAlmRelate) : Prop :=
  readWord m fmAddrPastAlm = initMark ∧ readHeader m = h

/-- Bytes outside an area are as before. -/
theorem writeAll_outside {a : Area} {ws : List Mem.Store} (h : Inside a ws) {m : Mem} {x : Nat}
    (hx : x < a.start ∨ a.stop ≤ x) : m.writeAll ws x = m x :=
  Mem.writeAll_of_within h hx

theorem header_outside {a : Area} {ws : List Mem.Store} (h : Inside a ws) (ha : a ≠ .pastAlm)
    (m : Mem) : readWord (m.writeAll ws) fmAddrPastAlm = readWord m fmAddrPastAlm ∧
      readHeader (m.writeAll ws) = readHeader m := by
  have hbyte (x : Nat) (h₁ : 0x500 ≤ x) (h₂ : x < 0x3000) : m.writeAll ws x = m x := by
    refine writeAll_outside h ?_
    cases a with
    | epRealTime => exact .inr (show 0x200 ≤ x by omega)
    | optimSet => exact .inr (show 0x300 ≤ x by omega)
    | pastAlm => exact absurd rfl ha
    | epPastTime => exact .inl (show x < 0x3000 by omega)
  have hword (x : Nat) (h₁ : 0x500 ≤ x) (h₂ : x + 2 ≤ 0x3000) :
      readWord (m.writeAll ws) x = readWord m x :=
    congrArg decode (Mem.read_congr fun i hi => hbyte _ (by omega) (by omega))
  refine ⟨hword _ (by decide) (by decide), ?_⟩
  unfold readHeader
  rw [hbyte headerAddr (by decide) (by decide), hword (headerAddr + 1) (by decide) (by decide)]

theorem mark_outside {a : Area} {ws : List Mem.Store} (h : Inside a ws) (ha : a ≠ .epPastTime)
    (m : Mem) {x : Nat} (h₁ : 0x3000 ≤ x) : m.writeAll ws x = m x := by
  refine writeAll_outside h (.inr ?_)
  cases a with
  | epRealTime => exact (show 0x200 ≤ x by omega)
  | optimSet => exact (show 0x300 ≤ x by omega)
  | pastAlm => exact (show 0x3000 ≤ x by omega)
  | epPastTime => exact absurd rfl ha

theorem word_outside {a : Area} {ws : List Mem.Store} (h : Inside a ws) (ha : a ≠ .epPastTime)
    (m : Mem) {x : Nat} (h₁ : 0x3000 ≤ x) : readWord (m.writeAll ws) x = readWord m x :=
  congrArg decode (Mem.read_congr fun _ _ => mark_outside h ha m (by omega))

theorem mirrored_outside {a : Area} {ws : List Mem.Store} (h : Inside a ws) (ha : a ≠ .epPastTime)
    {m : Mem} {base : Nat} {flag : UInt8} (hm : Mirrored ⟨m, base, flag⟩) :
    Mirrored ⟨m.writeAll ws, base, flag⟩ where
  mark := (word_outside h ha m (by decide)).trans hm.mark
  base := (word_outside h ha m (by decide)).trans hm.base
  flag := (mark_outside h ha m (by decide)).trans hm.flag

theorem Headed.outside {a : Area} {ws : List Mem.Store} (h : Inside a ws) (ha : a ≠ .pastAlm)
    {m : Mem} {r : PTAlmRelate} (hh : Headed m r) : Headed (m.writeAll ws) r := by
  obtain ⟨hmark, hhead⟩ := header_outside h ha m
  exact ⟨hmark.trans hh.1, hhead.trans hh.2⟩

/-! ## The invariant -/

theorem headed_write {m : Mem} {r : PTAlmRelate} (h : Headed m r) {a : Nat} {bs : List UInt8}
    (ha : 0x506 ≤ a) : Headed (m.write a bs) r where
  left := (congrArg decode (Mem.read_write_disjoint (.inl (show 0x500 + 2 ≤ a by omega)))).trans h.1
  right := (readHeader_write_disjoint (.inl (by omega))).trans h.2

theorem headed_header {m : Mem} (hmark : readWord m fmAddrPastAlm = initMark) {r : PTAlmRelate}
    (hr : r.almIndex < 500) : Headed (m.write headerAddr r.toBytes) r where
  left := (congrArg decode (Mem.read_write_disjoint (.inl (by decide)))).trans hmark
  right := readHeader_write (by omega)

theorem almIndex_advance (r : PTAlmRelate) : r.advance.almIndex < 500 := by
  have hadv : r.advance = if (r.almIndex + 1) % 2 ^ 16 ≥ ptAlmItem then ⟨1, 0⟩
      else ⟨r.fullFlag, (r.almIndex + 1) % 2 ^ 16⟩ := rfl
  rw [hadv]
  split
  · decide
  · next h => exact Nat.lt_of_not_le h

/-- The index is in the ring, the headers of the two histories mirror the
variables, and the base is a month. -/
structure Sound (d : Device) : Prop where
  index : d.alm.gPTAlmRelate.almIndex < 500
  headed : Headed d.fram d.alm.gPTAlmRelate
  mirrored : Mirrored d.energy
  isCode : d.usPTEBaseTime ≠ 0 → IsCode d.usPTEBaseTime

theorem Sound.of_energy {r : PTAlmRelate} {m : Mem} {base : Nat} {flag : UInt8}
    (hrel : d.alm.gPTAlmRelate = r) (henergy : d.energy = ⟨m, base, flag⟩) (hi : r.almIndex < 500)
    (hhead : Headed m r) (hm : Mirrored ⟨m, base, flag⟩) (hcode : base ≠ 0 → IsCode base) :
    d.Sound := by
  have hfram : d.fram = m := congrArg EnergyStore.fram henergy
  have hbase : d.usPTEBaseTime = base := congrArg EnergyStore.usPTEBaseTime henergy
  refine ⟨hrel ▸ hi, ?_, henergy ▸ hm, ?_⟩
  · rw [hfram, hrel]
    exact hhead
  · rw [hbase]
    exact hcode

/-- Writes in the other areas keep the invariant. -/
theorem Sound.setFram (h : d.Sound) {a : Area} {ws : List Mem.Store} (hin : Inside a ws)
    (hA : a ≠ .pastAlm) (hE : a ≠ .epPastTime) : (d.setFram (d.fram.writeAll ws)).Sound :=
  ⟨h.index, h.headed.outside hin hA, mirrored_outside hin hE h.mirrored, h.isCode⟩

/-- An operation on the alarm history keeps it. -/
theorem Sound.alarm (h : d.Sound) {op : HistOp}
    (hidx : (d.alm.histStep op).gPTAlmRelate.almIndex < 500)
    (hhead : Headed (d.alm.histStep op).fram (d.alm.histStep op).gPTAlmRelate) :
    Sound { d with alm := d.alm.histStep op } := by
  refine ⟨hidx, hhead, ?_, h.isCode⟩
  have hfram := histStep_fram d.alm op
  have hin := inside_history (h := d.alm.history) h.index op
  change Mirrored ⟨(d.alm.histStep op).fram, d.usPTEBaseTime, d.ucPTESaveFlag⟩
  rw [hfram]
  exact mirrored_outside hin (by decide) h.mirrored

theorem Sound.generate (h : d.Sound) (r : AlmRecord) (now : Stamp) :
    Sound (d.step (.generate r now)) := by
  have hhist := almGenerate_history d.alm r now
  have hrel : (d.alm.histStep (.generate r now)).gPTAlmRelate = d.alm.gPTAlmRelate.advance :=
    congrArg History.relate hhist
  have hfram := histStep_fram d.alm (.generate r now)
  have hidx := almIndex_advance d.alm.gPTAlmRelate
  refine h.alarm (hrel ▸ hidx) ?_
  rw [hrel, hfram]
  have hslot := slotAddr_eq (Nat.le_of_lt h.index)
  have hkeep : Headed (d.fram.write (slotAddr d.alm.gPTAlmRelate.almIndex)
      { r with flag := generateFlag, generate := now }.toBytes) d.alm.gPTAlmRelate :=
    headed_write h.headed (by omega)
  exact headed_header hkeep.1 hidx

theorem Sound.terminate (h : d.Sound) (e : UInt8) (now : Stamp) :
    Sound (d.step (.terminate e now)) := by
  have hhist := almTerminate_history d.alm e now
  have hrel : (d.alm.histStep (.terminate e now)).gPTAlmRelate = d.alm.gPTAlmRelate :=
    congrArg History.relate hhist
  have hfram : (d.alm.histStep (.terminate e now)).fram =
      closeFirst d.fram e now (searched d.alm.gPTAlmRelate) := congrArg History.fram hhist
  refine h.alarm (hrel ▸ h.index) ?_
  rw [hrel, hfram]
  unfold closeFirst
  cases hf : find d.fram e (searched d.alm.gPTAlmRelate) with
  | none => exact h.headed
  | some i =>
    have hle := le_of_find h.index hf
    have haddr := closingAddr_of_le hle
    exact headed_write h.headed (by omega)

theorem Sound.recordClear (h : d.Sound) : Sound (d.step .recordClear) :=
  have hhead : Headed (d.alm.histStep .clear).fram (d.alm.histStep .clear).gPTAlmRelate :=
    headed_header h.headed.1 (by decide)
  h.alarm (show 0 < 500 by decide) hhead

theorem Sound.pass (h : d.Sound) (m : Fin 2 → Metering) : Sound (d.step (.pass m)) := by
  have hfram : (d.meter.dataPass m).fram = d.fram.writeAll (passWrites d.meter m) :=
    dataPass_fram m
  have hset := h.setFram (inside_pass d.meter m) (by decide) (by decide)
  rw [← hfram] at hset
  exact ⟨hset.index, hset.headed, hset.mirrored, hset.isCode⟩

theorem Sound.setEnergy (h : d.Sound) {s : EnergyStore} {ws : List Mem.Store}
    (hws : s.fram = d.fram.writeAll ws) (hin : Inside .epPastTime ws) (hm : Mirrored s)
    (hcode : s.usPTEBaseTime ≠ 0 → IsCode s.usPTEBaseTime) : (d.setEnergy s).Sound := by
  refine ⟨h.index, ?_, hm, hcode⟩
  change Headed s.fram d.alm.gPTAlmRelate
  rw [hws]
  exact h.headed.outside hin (by decide)

theorem Sound.energyClear (h : d.Sound) : Sound (d.step .energyClear) := by
  have hset : (d.setMeter d.meter.acqEnergyClear).Sound := by
    have hset := h.setFram inside_energyClear (by decide) (by decide)
    exact ⟨hset.index, hset.headed, hset.mirrored, hset.isCode⟩
  have hwrites : (gPTEBaseTime (d.setMeter d.meter.acqEnergyClear).energy d.now).fram =
      (d.setMeter d.meter.acqEnergyClear).fram.writeAll (baseTimeWrites d.now) := rfl
  exact hset.setEnergy hwrites (inside_baseTime d.now)
    (hset.mirrored.setBase (gPTEFTime_lt d.now)) fun _ => isCode_gPTEFTime d.now

theorem Sound.save (h : d.Sound) (ep : Vector UInt32 8) (hok : d.StepOk (.save ep)) :
    Sound (d.step (.save ep)) := by
  have hfram : (gPTESave d.energy d.now ep).fram = d.fram.writeAll (saveWrites d.energy d.now ep) :=
    gPTESave_fram ep
  have hmonth := isCode_rebase (s := d.energy) h.isCode d.now
  refine h.setEnergy hfram ((inside_save h.isCode ep).2 hok) ?_ ?_
  · rcases gPTESave_cases d.energy d.now ep with ⟨hs, he⟩ | ⟨-, he⟩ | ⟨-, he⟩
    · -- the record lies behind the header, whatever area it reaches into
      have haddr := nPTEAddr_month hmonth (isCode_gPTEFTime d.now) hs.2 le_rfl
      have hslots : fmAddrEPPastTime + fmOffsetPTE = 0x3006 := rfl
      rw [he]
      exact (h.mirrored.rebase.write (.inr (by omega))).setFlag 1
    · rw [he]
      exact h.mirrored.rebase
    · rw [he]
      exact h.mirrored.lowerFlag
  · rcases gPTESave_cases d.energy d.now ep with ⟨-, he⟩ | ⟨-, he⟩ | ⟨-, he⟩
    · rw [he]
      exact fun _ => hmonth
    · rw [he]
      exact fun _ => hmonth
    · rw [he, lowerFlag_base]
      exact h.isCode

/-- **A restart** finds both histories as they were. -/
theorem Sound.restart (h : d.Sound) (o : Optimset) : Sound (d.step (.restart o)) := by
  -- the settings are checked first, in an area of their own
  have hhead : Headed (optInit d.fram) d.alm.gPTAlmRelate :=
    h.headed.outside (inside_optInit d.fram) (by decide)
  have hmirr : Mirrored ⟨optInit d.fram, d.usPTEBaseTime, d.ucPTESaveFlag⟩ :=
    mirrored_outside (inside_optInit d.fram) (by decide) h.mirrored
  have halm : AlmState.powerUp (optInit d.fram) =
      { AlmState.reset (optInit d.fram) with gPTAlmRelate := readHeader (optInit d.fram) } :=
    if_pos hhead.1
  have hfram : (AlmState.powerUp (optInit d.fram)).fram = optInit d.fram := by rw [halm]; rfl
  have hrel : (AlmState.powerUp (optInit d.fram)).gPTAlmRelate = d.alm.gPTAlmRelate := by
    rw [halm]
    exact hhead.2
  have henergy : EnergyStore.powerUp (AlmState.powerUp (optInit d.fram)).fram =
      ⟨optInit d.fram, d.usPTEBaseTime, d.ucPTESaveFlag⟩ := by
    rw [hfram]
    exact hmirr.powerUp
  obtain ⟨hrel', henergy'⟩ := powerOn_apply d.fram o d.now
  exact .of_energy (hrel'.trans hrel) (henergy'.trans henergy) h.index hhead hmirr h.isCode

/-- The first start, over a FRAM without the two marks. -/
theorem sound_powerOn {m : Mem} (hA : Fresh m) (hE : readWord m fmAddrEPPastTime ≠ initMark)
    (o : Optimset) (now : Clock) : (powerOn m o now).Sound := by
  have hopt := header_outside (inside_optInit m) (by decide) m
  have hrep : Represents (optInit m) (AlmState.powerUp (optInit m)).history ⟨0, []⟩ :=
    represents_powerUp fun hc => hA (hopt.1.symm.trans hc)
  unfold AlmState.history at hrep
  have halm := powerUp_fram (optInit m)
  have hin := inside_history (h := ⟨⟨0, 0⟩, optInit m⟩) (show 0 < 500 by decide) .restart
  have hmark : readWord (AlmState.powerUp (optInit m)).fram fmAddrEPPastTime ≠ initMark := by
    rw [halm, word_outside hin (by decide) _ (by decide)]
    rw [optInit, word_outside (inside_optInit m) (by decide) _ (by decide)]
    exact hE
  obtain ⟨hrel, henergy⟩ := powerOn_apply m o now
  have hstore : EnergyStore.powerUp (AlmState.powerUp (optInit m)).fram =
      ⟨(AlmState.powerUp (optInit m)).fram.writeAll
        (gPTEInitWrites (AlmState.powerUp (optInit m)).fram), 0, 0⟩ := by
    rw [← gPTEInit_fram, powerUp_unmarked hmark]
    rfl
  -- what the start has made of the history is not looked into any more
  generalize AlmState.powerUp (optInit m) = alm at hrep hrel henergy hmark hstore
  have hhead : Headed alm.fram alm.gPTAlmRelate := ⟨hrep.marker, hrep.header⟩
  have hmirr := mirrored_powerUp hmark
  rw [hstore] at hmirr
  exact .of_energy hrel (henergy.trans hstore) hrep.almIndex_lt
    (hhead.outside (inside_gPTEInit _) (by decide)) hmirr fun hb => absurd rfl hb

/-- **One step** that meets the condition. -/
theorem Sound.step (h : d.Sound) {op : DeviceOp} (hok : d.StepOk op) : (d.step op).Sound := by
  cases op with
  | generate r now => exact h.generate r now
  | terminate e now => exact h.terminate e now
  | recordClear => exact h.recordClear
  | pass m => exact h.pass m
  | energyClear => exact h.energyClear
  | save ep => exact h.save ep hok
  | clock now => exact ⟨h.index, h.headed, h.mirrored, h.isCode⟩
  | optSave o =>
    have hset := h.setFram (inside_optSave o) (by decide) (by decide)
    exact ⟨hset.index, hset.headed, hset.mirrored, hset.isCode⟩
  | optPWSave pw => exact h.setFram (inside_optPWSave pw) (by decide) (by decide)
  | touch set num =>
    have hin : Inside .optimSet (d.touchWrites set num) := by
      unfold touchWrites
      split
      · next hnum => exact inside_optBranchSetSave.2 (hok hnum)
      · exact inside_nil _
    exact h.setFram hin (by decide) (by decide)
  | nextPage => exact ⟨h.index, h.headed, h.mirrored, h.isCode⟩
  | lastPage => exact ⟨h.index, h.headed, h.mirrored, h.isCode⟩
  | restart o => exact h.restart o

theorem kept_powerOnWrites (m : Mem) : Kept (powerOnWrites m) := by
  unfold powerOnWrites
  rw [kept_append, kept_append, kept_tag, kept_tag, kept_tag]
  exact ⟨⟨inside_optInit m, inside_history (show 0 < 500 by decide) .restart⟩, inside_gPTEInit _⟩

/-- The writes of a step stay in their areas if and only if it meets the
condition. -/
theorem Sound.kept_iff (h : d.Sound) (op : DeviceOp) : Kept (d.writes op) ↔ d.StepOk op := by
  cases op with
  | generate r now => exact iff_of_true (kept_tag.2 (inside_history h.index _)) trivial
  | terminate e now => exact iff_of_true (kept_tag.2 (inside_history h.index _)) trivial
  | recordClear => exact iff_of_true (kept_tag.2 (inside_history h.index _)) trivial
  | pass m => exact iff_of_true (kept_tag.2 (inside_pass d.meter m)) trivial
  | energyClear =>
    exact iff_of_true (kept_append.2 ⟨kept_tag.2 inside_energyClear,
      kept_tag.2 (inside_baseTime d.now)⟩) trivial
  | save ep => exact kept_tag.trans (inside_save h.isCode ep)
  | optSave o => exact iff_of_true (kept_tag.2 (inside_optSave o)) trivial
  | optPWSave pw => exact iff_of_true (kept_tag.2 (inside_optPWSave pw)) trivial
  | touch set num =>
    refine kept_tag.trans ?_
    unfold touchWrites
    by_cases hnum : num ∈ homeBranches d.optimset d.page
    · rw [if_pos hnum, inside_optBranchSetSave]
      exact ⟨fun hlt _ => hlt, fun hok => hok hnum⟩
    · rw [if_neg hnum]
      exact iff_of_true (inside_nil _) fun hc => absurd hc hnum
  | restart o => exact iff_of_true (kept_powerOnWrites d.fram) trivial
  | clock now => exact iff_of_true kept_nil trivial
  | nextPage => exact iff_of_true kept_nil trivial
  | lastPage => exact iff_of_true kept_nil trivial

theorem Sound.slotsApart (h : d.Sound) : d.SlotsApart :=
  fun hb _ _ ht hu hbt hbu htnow hunow hne =>
    nPTEAddr_disjoint (h.isCode hb) ht hu hbt hbu htnow hunow hne

/-- The first start and the operations after it keep to the areas. -/
def RunRight (m : Mem) (o : Optimset) (now : Clock) (ops : List DeviceOp) : Prop :=
  Kept (powerOnWrites m) ∧ Meets step StepRight (powerOn m o now) ops

/-- **The areas are kept apart** in exactly the runs whose steps meet the
condition. -/
theorem regions_apart {m : Mem} (hA : Fresh m) (hE : readWord m fmAddrEPPastTime ≠ initMark)
    (o : Optimset) (now : Clock) (ops : List DeviceOp) :
    RunRight m o now ops ↔ Meets step StepOk (powerOn m o now) ops := by
  refine (and_iff_right (kept_powerOnWrites m)).trans ?_
  refine (meets_congr ops (sound_powerOn hA hE o now) (fun _ _ h hok => h.step hok) ?_).symm
  intro d op h
  exact ⟨fun hok => ⟨(h.kept_iff op).2 hok, (h.step hok).slotsApart⟩,
    fun hr => (h.kept_iff op).1 hr.1⟩

/-- A device in bus mode D with 200 branches. -/
def manyBranches : Optimset :=
  { optDefault with setup := ⟨0x32⟩, ucBranchN := #v[200, 72] }

/-- March of the year 74, 603 months after December of the year 23. -/
def farMarch : Clock := { march 0 with year := 74, year_lt := by decide }

/-- An alarm, a touch and a monthly record. -/
theorem regions_apart_short : RunRight (fun _ => 0) optDefault (january 0)
    [.generate default default, .optSave manyBranches, .touch 1 5, .save (.replicate 8 7),
      .restart manyBranches, .terminate 0 default] :=
  (regions_apart (by decide) (by decide) _ _ _).2 (by decide +kernel)

theorem RunRight.kept {m : Mem} {o : Optimset} {now : Clock} {ops : List DeviceOp}
    (h : RunRight m o now ops) :
    Meets Device.step (fun d op => Kept (d.writes op)) (powerOn m o now) ops :=
  h.2.imp (I := fun _ => True) trivial (fun _ _ _ _ => trivial) fun _ _ _ hr => hr.1

/-- The set byte of branch 187 is written over the flags behind the
settings, and the record of March 74 behind the end of the FRAM. -/
theorem regions_left :
    ¬ RunRight (fun _ => 0) optDefault (january 0)
      (.optSave manyBranches :: List.replicate 7 .nextPage ++ [.touch 1 186]) ∧
    ¬ RunRight (fun _ => 0) optDefault (january 0)
      [.save (.replicate 8 7), .clock (january 1), .save (.replicate 8 7), .clock farMarch,
        .save (.replicate 8 9)] := by
  constructor
  · exact fun h => absurd h.kept (by decide +kernel)
  · exact fun h => absurd h.kept (by decide +kernel)

/-- With the branch counts in range every touch meets the condition. -/
theorem stepOk_touch (h : CountsInRange d.optimset) (hpage : d.page < homePages d.optimset)
    (set : UInt8) (num : Nat) : d.StepOk (.touch set num) := by
  intro hnum
  have hlt := homeBranches_lt h hpage hnum
  exact (Nat.mod_le _ _).trans_lt (by omega)

end Device

end BusMonitor
