import BusMonitor.Alarm.Ring
import BusMonitor.Energy.Counters
import BusMonitor.Energy.Effect
import BusMonitor.PC.Handle
/-!
# What is written to the FRAM

The areas `sys_FramAlloc.h` gives to the settings, the alarm history and
the energies, and for each operation on them the list of the writes it
makes. The list is complete: the FRAM after the operation is the FRAM
before it with the writes made.
-/


namespace BusMonitor

open LittleEndian History Month

/-! ## Areas -/

def fmAddrIAP : Nat := 0x0300

/-- The bytes of the FM24W256. -/
def framSize : Nat := 0x8000

/-- The kinds of data, by the area they are kept in. -/
inductive Area
  | epRealTime
  | optimSet
  | pastAlm
  | epPastTime
  deriving DecidableEq, Repr

/-- The first address of an area. -/
def Area.start : Area → Nat
  | epRealTime => fmAddrEPRealTime
  | optimSet => fmAddrOptimSet
  | pastAlm => fmAddrPastAlm
  | epPastTime => fmAddrEPPastTime

/-- The first address behind it: the next area, or the end of the FRAM. -/
def Area.stop : Area → Nat
  | epRealTime => fmAddrOptimSet
  | optimSet => fmAddrIAP
  | pastAlm => fmAddrEPPastTime
  | epPastTime => framSize

/-- The writes stay in an area. -/
def Inside (a : Area) (ws : List Mem.Store) : Prop := ∀ w ∈ ws, w.Within a.start a.stop

instance (a : Area) (ws : List Mem.Store) : Decidable (Inside a ws) :=
  inferInstanceAs (Decidable (∀ w ∈ ws, _))

theorem inside_nil (a : Area) : Inside a [] := fun _ h => absurd h List.not_mem_nil

theorem inside_cons {a : Area} {x : Nat} {bs : List UInt8} {ws : List Mem.Store} :
    Inside a (⟨x, bs⟩ :: ws) ↔ (a.start ≤ x ∧ x + bs.length ≤ a.stop) ∧ Inside a ws :=
  List.forall_mem_cons

/-- One write, of a known length. -/
theorem inside_one {a : Area} {x n : Nat} {bs : List UInt8} (hn : bs.length = n) :
    Inside a [⟨x, bs⟩] ↔ a.start ≤ x ∧ x + n ≤ a.stop := by
  rw [inside_cons, hn]
  exact and_iff_left (inside_nil a)

/-! ## Settings -/

def fmOptUsrPW : Nat := 60
def fmOptSwitchSet : Nat := 70

/-- `Opt_Save`. -/
def optSaveWrites (o : Optimset) : List Mem.Store :=
  [⟨fmAddrOptimSet + fmOptDevInfo, o.toBytes⟩]

theorem optSave_fram (s : Station) :
    (optSave s).fram = s.fram.writeAll (optSaveWrites s.optimset) := rfl

/-- `Opt_PWSave`. -/
def optPWSaveWrites (pw : UInt16) : List Mem.Store :=
  [⟨fmAddrOptimSet + fmOptUsrPW, wordBytes pw⟩]

/-- `Opt_BranchSet_Save`. Its number is cut to a byte. -/
def optBranchSetSaveWrites (set : UInt8) (num : Nat) : List Mem.Store :=
  [⟨fmAddrOptimSet + fmOptSwitchSet + num % 256, [set]⟩]

/-- `Opt_Init`. -/
def optInitWrites (m : Mem) : List Mem.Store :=
  if readWord m fmAddrOptimSet = initMark then []
  else [⟨fmAddrOptimSet, encode 2 initMark⟩, ⟨fmAddrOptimSet + fmOptDevInfo, optDefault.toBytes⟩,
    ⟨fmAddrOptimSet + fmOptSwitchSet, List.replicate maxBranchNum 0⟩,
    ⟨fmAddrOptimSet + fmOptUsrPW, wordBytes 1234⟩]

theorem length_optimset (o : Optimset) : o.toBytes.length = 47 := by
  have hword (w : UInt16) : (wordBytes w).length = 2 := length_encode 2 w.toNat
  unfold Optimset.toBytes
  simp only [List.length_append, List.length_cons, List.length_nil, Vector.length_toList, hword]

theorem inside_optSave (o : Optimset) : Inside .optimSet (optSaveWrites o) :=
  (inside_one (length_optimset o)).2 (by decide)

theorem inside_optPWSave (pw : UInt16) : Inside .optimSet (optPWSaveWrites pw) :=
  (inside_one (length_encode 2 pw.toNat)).2 (by decide)

/-- The branch sets that end below the next area. -/
theorem inside_optBranchSetSave {set : UInt8} {num : Nat} :
    Inside .optimSet (optBranchSetSaveWrites set num) ↔ num % 256 < 186 := by
  have hstart : Area.optimSet.start = 0x200 := rfl
  have hstop : Area.optimSet.stop = 0x300 := rfl
  have haddr : fmAddrOptimSet + fmOptSwitchSet = 0x246 := rfl
  unfold optBranchSetSaveWrites
  rw [inside_one List.length_singleton, haddr, hstart, hstop]
  omega

theorem inside_optInit (m : Mem) : Inside .optimSet (optInitWrites m) := by
  unfold optInitWrites
  split
  · exact inside_nil _
  · decide +kernel

/-! ## The alarm history -/

/-- The writes of a termination: a closing, if a record is found. -/
def closingWrites (m : Mem) (e : UInt8) (now : Stamp) (is : List Nat) : List Mem.Store :=
  match find m e is with
  | none => []
  | some i => [⟨closingAddr i, ((slot m i).close now).closingBytes⟩]

/-- The writes of an operation on the history. -/
def History.writes (h : History) : HistOp → List Mem.Store
  | .generate r now =>
    [⟨slotAddr h.relate.almIndex, { r with flag := generateFlag, generate := now }.toBytes⟩,
      ⟨headerAddr, h.relate.advance.toBytes⟩]
  | .terminate e now => closingWrites h.fram e now (searched h.relate)
  | .clear => [⟨headerAddr, (PTAlmRelate.mk 0 0).toBytes⟩]
  | .restart =>
    if readWord h.fram fmAddrPastAlm = initMark then []
    else [⟨fmAddrPastAlm, encode 2 initMark⟩, ⟨headerAddr, (PTAlmRelate.mk 0 0).toBytes⟩]

theorem closeFirst_eq (m : Mem) (e : UInt8) (now : Stamp) (is : List Nat) :
    closeFirst m e now is = m.writeAll (closingWrites m e now is) := by
  unfold closeFirst closingWrites
  cases find m e is <;> rfl

/-- What `AlmRelate_Init` leaves in the FRAM. -/
theorem powerUp_fram (m : Mem) : (AlmState.powerUp m).fram =
    m.writeAll (History.writes ⟨⟨0, 0⟩, m⟩ .restart) := by
  unfold AlmState.powerUp almRelateInit History.writes
  by_cases hm : readWord m fmAddrPastAlm = initMark
  · rw [if_pos (show readWord (AlmState.reset m).fram fmAddrPastAlm = initMark from hm)]
    simp only [if_pos hm]
    rfl
  · rw [if_neg (show ¬ readWord (AlmState.reset m).fram fmAddrPastAlm = initMark from hm)]
    simp only [if_neg hm]
    rfl

/-- **The list is complete** for the operations of the history. -/
theorem histStep_fram (s : AlmState) (op : HistOp) :
    (s.histStep op).fram = s.fram.writeAll (s.history.writes op) := by
  cases op with
  | generate r now => exact congrArg History.fram (almGenerate_history s r now)
  | terminate e now =>
    exact (congrArg History.fram (almTerminate_history s e now)).trans (closeFirst_eq ..)
  | clear => rfl
  | restart => exact powerUp_fram s.fram

/-- The slots a termination can reach: slot 500 lies behind the ring, but
inside the area. -/
theorem le_of_find {m : Mem} {e : UInt8} {h : PTAlmRelate} (hi : h.almIndex < 500) {i : Nat}
    (hf : find m e (searched h) = some i) : i ≤ 500 := by
  have hmem := List.mem_of_find?_eq_some hf
  unfold searched at hmem
  rcases List.mem_append.1 hmem with hb | ha
  · have := Recent.mem_below.1 hb
    omega
  · split at ha
    · exact absurd ha List.not_mem_nil
    · have := Recent.mem_above.1 ha
      omega

theorem closingAddr_of_le {i : Nat} (hi : i ≤ 500) : closingAddr i = 0x50C + 21 * i := by
  rw [closingAddr, slotAddr_eq hi]
  simp only [fmOffsetAlmRecord]
  omega

theorem inside_closing {m : Mem} {e : UInt8} {h : PTAlmRelate} (hi : h.almIndex < 500)
    (now : Stamp) : Inside .pastAlm (closingWrites m e now (searched h)) := by
  unfold closingWrites
  cases hf : find m e (searched h) with
  | none => exact inside_nil _
  | some i =>
    have hle := le_of_find hi hf
    have haddr := closingAddr_of_le hle
    have hstart : Area.pastAlm.start = 0x500 := rfl
    have hstop : Area.pastAlm.stop = 0x3000 := rfl
    exact (inside_one (AlmRecord.length_closingBytes _)).2 (by omega)

theorem inside_header (h : PTAlmRelate) : Inside .pastAlm [⟨headerAddr, h.toBytes⟩] :=
  (inside_one h.length_toBytes).2 (by decide)

/-- **The history stays in its area** while the index is below 500. -/
theorem inside_history {h : History} (hi : h.relate.almIndex < 500) (op : HistOp) :
    Inside .pastAlm (h.writes op) := by
  cases op with
  | generate r now =>
    have hstart : Area.pastAlm.start = 0x500 := rfl
    have hstop : Area.pastAlm.stop = 0x3000 := rfl
    have haddr := slotAddr_eq hi.le
    refine inside_cons.2 ⟨?_, inside_header _⟩
    rw [AlmRecord.length_toBytes]
    omega
  | terminate e now => exact inside_closing hi now
  | clear => exact inside_header _
  | restart =>
    by_cases hm : readWord h.fram fmAddrPastAlm = initMark
    · simp only [History.writes, if_pos hm]
      exact inside_nil _
    · simp only [History.writes, if_neg hm]
      exact inside_cons.2 ⟨by decide, inside_header _⟩

/-! ## The monthly records -/

section past

variable {s : EnergyStore} {now : Clock}

/-- The writes of `gPTE_Save`: the base of a new device, the record of the
month with the flag, and the flag taken back. -/
def saveWrites (s : EnergyStore) (now : Clock) (ep : Vector UInt32 8) : List Mem.Store :=
  (if Pending s now ∧ s.usPTEBaseTime = 0 then
    [⟨fmAddrEPPastTime + fmOffsetBaseTime, encode 2 (monthBefore now)⟩] else []) ++
  (if Saves s now then
    [⟨nPTEAddr (rebase s now).usPTEBaseTime (gPTEFTime now), (currentRecord now ep).toBytes⟩,
      ⟨fmAddrEPPastTime + fmOffsetSaveFlag, [1]⟩] else []) ++
  (if now.minutes ≠ 0 ∧ s.ucPTESaveFlag = 1 then
    [⟨fmAddrEPPastTime + fmOffsetSaveFlag, [0]⟩] else [])

/-- The write of `gPTE_BaseTime`. -/
def baseTimeWrites (now : Clock) : List Mem.Store :=
  [⟨fmAddrEPPastTime + fmOffsetBaseTime, encode 2 (gPTEFTime now)⟩]

/-- The writes of `gPTE_Init`. -/
def gPTEInitWrites (m : Mem) : List Mem.Store :=
  if readWord m (fmAddrEPPastTime + fmOffsetPTEInit) = initMark then []
  else [⟨fmAddrEPPastTime + fmOffsetPTEInit, encode 2 initMark⟩,
    ⟨fmAddrEPPastTime + fmOffsetBaseTime, encode 2 0⟩, ⟨fmAddrEPPastTime + fmOffsetSaveFlag, [0]⟩]

theorem rebase_fram : (rebase s now).fram = s.fram.writeAll (if s.usPTEBaseTime = 0 then
    [⟨fmAddrEPPastTime + fmOffsetBaseTime, encode 2 (monthBefore now)⟩] else []) := by
  unfold rebase
  split <;> rfl

/-- **The list is complete** for `gPTE_Save`. -/
theorem gPTESave_fram (ep : Vector UInt32 8) :
    (gPTESave s now ep).fram = s.fram.writeAll (saveWrites s now ep) := by
  unfold saveWrites
  by_cases hp : Pending s now
  · have hminutes : ¬ (now.minutes ≠ 0 ∧ s.ucPTESaveFlag = 1) := fun h => h.1 hp.1.2.2
    rw [gPTESave_of_pending hp, if_neg hminutes, List.append_nil, Mem.writeAll_append]
    simp only [hp, true_and]
    rw [← rebase_fram]
    unfold store
    by_cases hlt : (rebase s now).usPTEBaseTime < gPTEFTime now
    · rw [if_pos hlt, if_pos (show Saves s now from ⟨hp, hlt⟩)]
      rfl
    · rw [if_neg hlt, if_neg fun hs : Saves s now => hlt hs.2]
      rfl
  · rw [show gPTESave s now ep = lowerFlag s now from if_neg hp, if_neg fun h => hp h.1,
      if_neg fun hs : Saves s now => hp hs.1]
    unfold lowerFlag
    split <;> rfl

theorem gPTEInit_fram (m : Mem) : (EnergyStore.powerUp m).fram = m.writeAll (gPTEInitWrites m) := by
  unfold EnergyStore.powerUp gPTEInit gPTEInitWrites
  split <;> rfl

theorem inside_gPTEInit (m : Mem) : Inside .epPastTime (gPTEInitWrites m) := by
  unfold gPTEInitWrites
  split
  · exact inside_nil _
  · decide

theorem inside_baseTime (now : Clock) : Inside .epPastTime (baseTimeWrites now) :=
  (inside_one (length_encode 2 _)).2 (by decide)

theorem inside_append {a : Area} {ws ws' : List Mem.Store} :
    Inside a (ws ++ ws') ↔ Inside a ws ∧ Inside a ws' :=
  List.forall_mem_append

/-- The slot of a month ends inside the FRAM up to 602 months after the
base. -/
theorem inside_slot {base t : Nat} (hcode : IsCode base) (ht : IsCode t) (hb : base < t)
    (hnow : t ≤ gPTEFTime now) (ep : Vector UInt32 8) :
    Inside .epPastTime [⟨nPTEAddr base t, (currentRecord now ep).toBytes⟩] ↔
      index t ≤ index base + 602 := by
  have hstart : Area.epPastTime.start = 0x3000 := rfl
  have hstop : Area.epPastTime.stop = 0x8000 := rfl
  have hindex := (index_lt_index hcode ht).2 hb
  rw [inside_one (length_toBytes _), nPTEAddr_month hcode ht hb hnow, hstart, hstop]
  omega

/-- **The monthly records stay in their area** up to 602 months after the
base. -/
theorem inside_save (hcode : s.usPTEBaseTime ≠ 0 → IsCode s.usPTEBaseTime)
    (ep : Vector UInt32 8) : Inside .epPastTime (saveWrites s now ep) ↔
      (Saves s now → index (gPTEFTime now) ≤ index (rebase s now).usPTEBaseTime + 602) := by
  have hbase : Inside .epPastTime [⟨fmAddrEPPastTime + fmOffsetBaseTime,
      encode 2 (monthBefore now)⟩] := (inside_one (length_encode 2 _)).2 (by decide)
  have hflag (b : UInt8) : Inside .epPastTime [⟨fmAddrEPPastTime + fmOffsetSaveFlag, [b]⟩] :=
    (inside_one List.length_singleton).2 (by decide)
  have hmonth := isCode_rebase hcode now
  have hfirst : Inside .epPastTime (if Pending s now ∧ s.usPTEBaseTime = 0 then
      [⟨fmAddrEPPastTime + fmOffsetBaseTime, encode 2 (monthBefore now)⟩] else []) := by
    split
    · exact hbase
    · exact inside_nil _
  have hlast : Inside .epPastTime (if now.minutes ≠ 0 ∧ s.ucPTESaveFlag = 1 then
      [⟨fmAddrEPPastTime + fmOffsetSaveFlag, [0]⟩] else []) := by
    split
    · exact hflag 0
    · exact inside_nil _
  unfold saveWrites
  rw [inside_append, inside_append, and_iff_left hlast, and_iff_right hfirst]
  by_cases hs : Saves s now
  · have hslot := inside_slot hmonth (isCode_gPTEFTime now) hs.2 le_rfl ep
    rw [if_pos hs, ← List.singleton_append, inside_append, and_iff_left (hflag 1), hslot]
    exact ⟨fun h _ => h, fun h => h hs⟩
  · rw [if_neg hs]
    exact ⟨fun _ h => absurd h hs, fun _ => inside_nil _⟩

end past

/-! ## The energy counters -/

section counters

variable {s : EnergyMeter}

/-- The writes of a pass of `Data_TaskFun`: the metered counters, when
they are due. -/
def passWrites (s : EnergyMeter) (d : Fin 2 → Metering) : List Mem.Store :=
  if s.Due then s.metered.map fun i => ⟨energyAddr i, ((s.acqBusVar i).add (d i)).toBytes⟩ else []

/-- The writes of `Acq_EnergyClear`. -/
def energyClearWrites : List Mem.Store :=
  [⟨energyAddr 0, (BusEnergy.fill 0).toBytes⟩, ⟨energyAddr 1, (BusEnergy.fill 0).toBytes⟩]

/-- **The list is complete** for a pass. -/
theorem dataPass_fram (d : Fin 2 → Metering) :
    (s.dataPass d).fram = s.fram.writeAll (passWrites s d) := by
  have hfram : (s.dataPass d).fram = (if s.acqBusVarPass.timeCounter % 10 = 0 then
      s.acqBusVarPass.acqRTEnergy d else s.acqBusVarPass).fram := rfl
  have hdue : s.Due ↔ s.timeCounter % 10 = 0 := Iff.rfl
  rw [hfram, EnergyMeter.acqBusVarPass_timeCounter, passWrites]
  by_cases h : s.Due
  · rw [if_pos (hdue.1 h), if_pos h]
    unfold EnergyMeter.acqRTEnergy
    rw [EnergyMeter.acqBusVarPass_metered]
    unfold EnergyMeter.metered
    by_cases htwo : TwoMeters s.bBusMode
    · rw [if_pos htwo, show s.acqBusVarPass = s from if_pos htwo]
      rfl
    · rw [if_neg htwo, show s.acqBusVarPass = { s with
        acqBusVar := Function.update s.acqBusVar 1 (.fill 0x20) } from if_neg htwo]
      rfl
  · rw [if_neg fun hd => h (hdue.2 hd), if_neg h, EnergyMeter.acqBusVarPass_fram]
    rfl

theorem acqEnergyClear_writes : s.acqEnergyClear.fram = s.fram.writeAll energyClearWrites := rfl

theorem inside_energy (i : Fin 2) (c : BusEnergy) :
    Inside .epRealTime [⟨energyAddr i, c.toBytes⟩] := by
  have hstart : Area.epRealTime.start = 0x100 := rfl
  have hstop : Area.epRealTime.stop = 0x200 := rfl
  have haddr : energyAddr i = 0x100 + 32 * i := rfl
  exact (inside_one c.length_toBytes).2 (by omega)

theorem inside_pass (s : EnergyMeter) (d : Fin 2 → Metering) :
    Inside .epRealTime (passWrites s d) := by
  unfold passWrites
  split
  · intro w hw
    obtain ⟨i, -, rfl⟩ := List.mem_map.1 hw
    exact inside_energy i _ _ List.mem_cons_self
  · exact inside_nil _

theorem inside_energyClear : Inside .epRealTime energyClearWrites :=
  inside_append.2 ⟨inside_energy 0 _, inside_energy 1 _⟩

end counters

end BusMonitor
