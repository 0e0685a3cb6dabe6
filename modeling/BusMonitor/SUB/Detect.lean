import BusMonitor.Lib.Run
import BusMonitor.PC.Notice
import BusMonitor.SUB.Receive
/-!
# Changes of the modules

`SUB_Receive` remembers the switches of each module in `ucSUB_SWold`, to
set the bit of a module in `IOChangeFlag` when its switches change. The
copy is made with one index for both loops: it takes the bytes 0, 6, 12,
18 and 24 of the record, whichever module has changed. So the routine is
right as long as it has nothing to copy: `changes_detected_iff`.
-/


namespace BusMonitor

open Mem Stepwise

/-! ## Runs of frames -/

/-- A frame the routine accepts: it returns 0 by `ret_eq_zero_iff`. -/
structure AcceptedFrame where
  pData : Mem
  ucLen : UInt16
  taken : TakenFrame pData ucLen

namespace AcceptedFrame

variable (f : AcceptedFrame)

/-- The number of the module, from 0 on. -/
def num : Nat := frameModule f.pData

/-- The five bytes of switches. -/
def switches : List UInt8 := f.pData.read 3 5

end AcceptedFrame

/-- The receiver, and the switches each module has sent last. -/
structure SubRun where
  receiver : SubReceiver
  last : Nat → List UInt8

namespace SubRun

/-- What a frame leaves, over a content of `IOChangeFlag`. -/
def reception (R : SubRun) (f : AcceptedFrame) (flag : UInt8) : Reception :=
  SubReceiver.subReceive { R.receiver with ioChangeFlag := flag } f.pData f.ucLen

def step (R : SubRun) (f : AcceptedFrame) : SubRun where
  receiver := R.receiver.after (R.receiver.subReceive f.pData f.ucLen)
  last := Function.update R.last f.num f.switches

/-- Power comes on: the arrays are zero, behind them is anything. -/
def init (recBehind oldBehind : Mem) (flag : UInt8) : SubRun where
  receiver :=
    { ucSUBSWRec := fun a => if a < 20 then 0 else recBehind a
      ucSUBSWold := fun a => if a < 20 then 0 else oldBehind a
      ioChangeFlag := flag }
  last := fun _ => List.replicate 5 0

/-- The bit of the module is set, whatever the flag holds. -/
def SetsBit (R : SubRun) (f : AcceptedFrame) : Prop :=
  ∀ flag, flagBit (R.reception f flag).ioChangeFlag f.num = true

/-- **The change is detected**: the bit of the module is set exactly when
its switches are not those it has sent last, the remembered bytes of the
other modules are not touched, and no store leaves an array. -/
structure Detects (R : SubRun) (f : AcceptedFrame) : Prop where
  sets : R.SetsBit f ↔ f.switches ≠ R.last f.num
  own : ∀ w ∈ (R.reception f R.receiver.ioChangeFlag).oldStores,
    w.Within (5 * f.num) (5 * f.num + 5)
  inside : ∀ w ∈ (R.reception f R.receiver.ioChangeFlag).recStores ++
    (R.reception f R.receiver.ioChangeFlag).oldStores, w.Within 0 20

end SubRun

/-- **The condition on a frame**: it comes from one of the four modules,
and its five bytes are zero. -/
def AcceptedFrame.Silent (f : AcceptedFrame) : Prop :=
  f.pData 1 ≤ 0x0C ∧ ∀ j < 5, f.pData (3 + j) = 0

/-! ## What a frame does -/

/-- A frame with a switch that is not remembered. -/
def Differs (s : SubReceiver) (pData : Mem) : Prop :=
  ∃ j < 5, pData (3 + j) ≠ s.ucSUBSWold (5 * frameModule pData + j)

instance (s : SubReceiver) (pData : Mem) : Decidable (Differs s pData) :=
  inferInstanceAs (Decidable (∃ j < 5, _))

/-- The record holds the switches of the frame by the time it is compared. -/
theorem stored_eq (s : SubReceiver) (pData : Mem) :
    s.stored pData =
      if Differs s pData then
        Reception.mk 0 (recStores pData) (copyStores (s.ucSUBSWRec.writeAll (recStores pData)))
          (s.ioChangeFlag ||| changeBit (frameModule pData))
      else Reception.mk 0 (recStores pData) [] s.ioChangeFlag := by
  have hrecorded : Recorded pData s.ucSUBSWRec (s.ucSUBSWRec.writeAll (recStores pData)) :=
    recorded_recStores s.ucSUBSWRec
  unfold SubReceiver.stored Differs
  dsimp only
  refine if_congr ?_ rfl rfl
  refine exists_congr fun j => and_congr_right fun hj => ?_
  rw [Nat.mul_comm, hrecorded.switches j hj]

theorem flagBit_changeBit (m : Nat) : flagBit (changeBit m) m = true ↔ m < 4 := by
  match m with
  | 0 | 1 | 2 | 3 => decide
  | m + 4 =>
    refine iff_of_false ?_ (by omega)
    simp [changeBit, flagBit]

namespace SubRun

variable {R : SubRun} {f : AcceptedFrame}

theorem last_step (R : SubRun) (f : AcceptedFrame) :
    (R.step f).last = Function.update R.last f.num f.switches := rfl

/-- The number of an accepted frame is checked from below. -/
theorem num_lt_iff (f : AcceptedFrame) : f.num < 4 ↔ f.pData 1 ≤ 0x0C := by
  have hlo := UInt8.le_iff_toNat_le.1 f.taken.number
  rw [UInt8.le_iff_toNat_le, AcceptedFrame.num, frameModule,
    UInt8.toNat_sub_of_le _ _ f.taken.number]
  simp only [UInt8.reduceToNat] at hlo ⊢
  omega

theorem reception_eq (flag : UInt8) : R.reception f flag =
    if Differs R.receiver f.pData then
      Reception.mk 0 (recStores f.pData)
        (copyStores (R.receiver.ucSUBSWRec.writeAll (recStores f.pData)))
        (flag ||| changeBit f.num)
    else Reception.mk 0 (recStores f.pData) [] flag :=
  (subReceive_of_taken f.taken).trans (stored_eq { R.receiver with ioChangeFlag := flag } f.pData)

/-- The bit is set on a difference from the remembered bytes. -/
theorem setsBit_iff : R.SetsBit f ↔ f.num < 4 ∧ Differs R.receiver f.pData := by
  unfold SetsBit
  by_cases hdiff : Differs R.receiver f.pData
  · simp only [reception_eq, if_pos hdiff, flagBit_or, Bool.or_eq_true, flagBit_changeBit]
    constructor
    · intro h
      exact ⟨(h 0).resolve_left (by simp [flagBit]), hdiff⟩
    · rintro ⟨hnum, -⟩ flag
      exact .inr hnum
  · simp only [reception_eq, if_neg hdiff]
    exact iff_of_false (fun h => absurd (h 0) (by simp [flagBit])) fun h => hdiff h.2

/-! ## Which runs it gets right -/

/-- Every module has sent zeros, and that is what is remembered. -/
structure Blank (R : SubRun) : Prop where
  old : ∀ a < 20, R.receiver.ucSUBSWold a = 0
  last : ∀ m, R.last m = List.replicate 5 0

theorem blank_init (recBehind oldBehind : Mem) (flag : UInt8) :
    Blank (init recBehind oldBehind flag) where
  old _ ha := if_pos ha
  last _ := rfl

theorem switches_eq_iff : f.switches = List.replicate 5 0 ↔ ∀ j < 5, f.pData (3 + j) = 0 := by
  rw [AcceptedFrame.switches, List.eq_replicate_iff, and_iff_right Mem.length_read]
  simp only [Mem.read, List.mem_map, List.mem_range, forall_exists_index, and_imp,
    forall_apply_eq_imp_iff₂]

/-- While zeros are remembered a frame of the four modules differs when a
switch of it is not zero. -/
theorem Blank.differs_iff (h : Blank R) (hnum : f.num < 4) :
    Differs R.receiver f.pData ↔ ∃ j < 5, f.pData (3 + j) ≠ 0 := by
  refine exists_congr fun j => and_congr_right fun hj => ?_
  have hplace : 5 * frameModule f.pData + j < 20 := by
    rw [AcceptedFrame.num] at hnum
    omega
  rw [h.old _ hplace]

/-- The last store of a difference is behind the array. -/
theorem not_differs (h : R.Detects f) : ¬ Differs R.receiver f.pData := by
  intro hdiff
  have hinside := h.inside
  rw [reception_eq, if_pos hdiff] at hinside
  have hlast := hinside ⟨24, _⟩ (List.mem_append_right _
    (List.mem_map.2 ⟨4, List.mem_range.2 (by omega), rfl⟩))
  exact absurd hlast.2 (by simp)

theorem num_lt (h : R.Detects f) : f.num < 4 := by
  have hinside := h.inside
  rw [reception_eq, if_neg (not_differs h)] at hinside
  have hlast := hinside ⟨frameModule f.pData * 5 + 4, _⟩ (List.mem_append_left _
    (List.mem_map.2 ⟨4, List.mem_range.2 (by omega), rfl⟩))
  have hend := hlast.2
  rw [AcceptedFrame.num]
  simp only [List.length_cons, List.length_nil] at hend
  omega

/-- **One frame**: from zeros, only a silent one is detected right. -/
theorem Blank.detects_iff (h : Blank R) : R.Detects f ↔ f.Silent := by
  constructor
  · intro hdetects
    have hnum : f.num < 4 := num_lt hdetects
    refine ⟨(num_lt_iff f).1 hnum, fun j hj => ?_⟩
    by_contra hswitch
    exact not_differs hdetects ((h.differs_iff hnum).2 ⟨j, hj, hswitch⟩)
  · rintro ⟨hnumber, hzero⟩
    have hnum : f.num < 4 := (num_lt_iff f).2 hnumber
    have hsame : ¬ Differs R.receiver f.pData := fun hdiff => by
      obtain ⟨j, hj, hswitch⟩ := (h.differs_iff hnum).1 hdiff
      exact hswitch (hzero j hj)
    have hreception := (reception_eq (R := R) (f := f) R.receiver.ioChangeFlag).trans
      (if_neg hsame)
    refine ⟨?_, ?_, ?_⟩
    · refine iff_of_false (fun hset => hsame (setsBit_iff.1 hset).2) fun hchange => hchange ?_
      rw [switches_eq_iff.2 hzero, h.last]
    · rw [hreception]
      exact List.forall_mem_nil _
    · rw [hreception, List.append_nil]
      intro w hw
      obtain ⟨hlo, hhi⟩ := fills_recStores.within w hw
      rw [AcceptedFrame.num] at hnum
      exact ⟨Nat.zero_le _, by omega⟩

/-- A silent frame leaves zeros behind. -/
theorem Blank.step (h : Blank R) (hf : f.Silent) : Blank (R.step f) := by
  have hsame : ¬ Differs R.receiver f.pData := not_differs (h.detects_iff.2 hf)
  have hreception : R.receiver.subReceive f.pData f.ucLen = _ :=
    (reception_eq (R := R) (f := f) R.receiver.ioChangeFlag).trans (if_neg hsame)
  refine ⟨?_, fun m => ?_⟩
  · unfold SubRun.step SubReceiver.after
    rw [hreception]
    exact h.old
  · rw [last_step]
    by_cases hm : m = f.num
    · rw [hm, Function.update_self, switches_eq_iff.2 hf.2]
    · rw [Function.update_of_ne hm, h.last]

/-- **Per-module change detection.** From power-up the changes are detected
exactly in the runs in which there are none to detect: every frame comes
from one of the four modules, and all its switches are zero. -/
theorem changes_detected_iff (recBehind oldBehind : Mem) (flag : UInt8)
    (frames : List AcceptedFrame) :
    Meets step Detects (init recBehind oldBehind flag) frames ↔
      ∀ f ∈ frames, f.Silent := by
  have hall : Meets step (fun _ f => f.Silent) (init recBehind oldBehind flag) frames ↔
      ∀ f ∈ frames, f.Silent := meets_forall _ frames
  rw [← hall]
  refine meets_congr frames (blank_init recBehind oldBehind flag) ?_ fun R f h => h.detects_iff
  intro R f h hdetects
  exact h.step (h.detects_iff.1 hdetects)

/-- The second module reports its first switch. -/
def firstSwitch : AcceptedFrame where
  pData := frameOf [0x02, 0x0A, 0, 1, 0, 0, 0, 0, 0x12, 0x56]
  ucLen := 10
  taken := ⟨rfl, rfl, by decide +kernel, by decide⟩

/-- The first report goes behind the array, and a second one, with the same
switches, sets the bit again. -/
theorem same_switches_flagged :
    ¬ Meets step Detects (init (fun _ => 0) (fun _ => 0) 0) [firstSwitch] ∧
    ¬ Meets step (fun R f => R.SetsBit f ↔ f.switches ≠ R.last f.num)
      (init (fun _ => 0) (fun _ => 0) 0) [firstSwitch, firstSwitch] := by
  refine ⟨fun h => not_differs h.1 (by decide +kernel), fun h => ?_⟩
  have hset : SetsBit (step (init (fun _ => 0) (fun _ => 0) 0) firstSwitch) firstSwitch :=
    setsBit_iff.2 ⟨by decide, by decide +kernel⟩
  have hlast : (step (init (fun _ => 0) (fun _ => 0) 0) firstSwitch).last firstSwitch.num =
      firstSwitch.switches := by rw [last_step, Function.update_self]
  exact h.2.1.1 hset hlast.symm

end SubRun

end BusMonitor
