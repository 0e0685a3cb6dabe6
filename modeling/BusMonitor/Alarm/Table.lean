import BusMonitor.Alarm.Isolation
import BusMonitor.Lib.Run
import Mathlib.Data.Fintype.Basic
import Mathlib.Tactic.FinCases
/-!
# The alarm table after a pass

An event's cell is its entry in `gAlmMessage` and its remembered state.
Each evaluation does at most one thing to a cell, so a pass takes it
through a short list of operations (`touches_eq`): perhaps a stray marker,
then the event's own evaluation where the configuration makes one. What
the entry should show is stated beside it, from the sample alone, and the
two are compared.
-/


namespace BusMonitor

open Stepwise

/-! ## Cells -/

/-- An event's entry in the table and its remembered state. -/
@[ext] structure Cell where
  entry : UInt8
  last : UInt8
  deriving DecidableEq, Repr

/-- What an evaluation does to a cell. -/
inductive CellOp
  | mark
  | judge (t : UInt8)
  deriving DecidableEq

def Cell.apply (c : Cell) : CellOp → Cell
  | .mark => { c with entry := notMonitored }
  | .judge t => if c.last = t then c else ⟨t, t⟩

@[simp] theorem Cell.apply_mark (c : Cell) : c.apply .mark = ⟨notMonitored, c.last⟩ := rfl

theorem Cell.apply_judge_of_eq {c : Cell} {t : UInt8} (h : c.last = t) :
    c.apply (.judge t) = c := if_pos h

theorem Cell.apply_judge_of_ne {c : Cell} {t : UInt8} (h : c.last ≠ t) :
    c.apply (.judge t) = ⟨t, t⟩ := if_neg h

/-- The cell of an event. -/
def AlmState.cell (s : AlmState) (e : AlmEvent) : Cell := ⟨s.entry e, s.last e⟩

@[simp] theorem AlmState.cell_entry (s : AlmState) (e : AlmEvent) :
    (s.cell e).entry = s.entry e := rfl

@[simp] theorem AlmState.cell_last (s : AlmState) (e : AlmEvent) :
    (s.cell e).last = s.last e := rfl

/-- What a verdict on the event itself does to its cell. -/
def Verdict.op : Verdict → Option CellOp
  | .marked => some .mark
  | .judged t => some (.judge t)
  | .ignored => none

/-- What a call does to the cell of an event. -/
def Call.touch (c : Call) (e : AlmEvent) : Option CellOp :=
  match c.verdict with
  | .marked => if c.markByte = e.slot then some .mark else none
  | .judged t => if c.event = e then some (.judge t) else none
  | .ignored => none

/-- A judged event's cell takes the type; the others are as before. -/
theorem Outcome.cell {s s' : AlmState} {e : AlmEvent} {t : UInt8} {now : Stamp}
    (h : Outcome s s' e t now) (e' : AlmEvent) :
    s'.cell e' = if e = e' then (s.cell e').apply (.judge t) else s.cell e' := by
  rcases h.board with ⟨hl, rfl⟩ | ⟨hl, hm, hs, -⟩
  · split
    · subst e'; exact (Cell.apply_judge_of_eq hl).symm
    · rfl
  · have hc : s'.cell e' = if e' = e then ⟨t, t⟩ else s.cell e' := by
      simp only [AlmState.cell, AlmState.entry_of_set hm, AlmState.last_of_set hs]
      split <;> rfl
    by_cases he : e = e'
    · subst he
      rw [hc, if_pos rfl, if_pos rfl, Cell.apply_judge_of_ne hl]
    · rw [hc, if_neg he, if_neg (Ne.symm he)]

/-- **An evaluation, cell by cell.** -/
theorem eval_cell (s : AlmState) (c : Call) (now : Stamp) (e : AlmEvent) :
    (s.eval c now).cell e = ((c.touch e).elim (s.cell e) fun op => (s.cell e).apply op) := by
  unfold Call.touch
  cases hv : c.verdict with
  | marked =>
    rw [eval_marked hv]
    simp only [AlmState.cell, mark_entry, mark_last]
    split <;> rfl
  | judged t =>
    rw [(eval_judged hv).cell e]
    dsimp only
    split <;> rfl
  | ignored => rw [eval_ignored hv]; rfl

/-- **A list of evaluations, cell by cell.** -/
theorem runCalls_cell (s : AlmState) (cs : List Call) (now : AlmEvent → Stamp) (e : AlmEvent) :
    (runCalls s cs now).cell e
      = (cs.filterMap fun c => c.touch e).foldl Cell.apply (s.cell e) := by
  induction cs generalizing s with
  | nil => rfl
  | cons c cs ih =>
    have hs : runCalls s (c :: cs) now = runCalls (s.eval c (now c.event)) cs now := rfl
    rw [hs, ih, eval_cell, List.filterMap_cons]
    cases c.touch e <;> rfl

/-- Switching the outputs off leaves the cells alone. -/
theorem almAllHandler_cell (s : AlmState) (x : Sample) (now : AlmEvent → Stamp) (e : AlmEvent) :
    (almAllHandler s x now).cell e = (runCalls s (passCalls x) now).cell e := by
  unfold almAllHandler
  dsimp only
  split <;> rfl

/-! ## What the configuration and the sample say -/

/-- Only busbar A is watched in the modes D and H. -/
def BusMonitored (x : Sample) (num : Fin 2) : Prop :=
  num = 0 ∨ ¬ (x.optimset.setup.bBusMode = busModeD ∨ x.optimset.setup.bBusMode = busModeH)

instance (x : Sample) (num : Fin 2) : Decidable (BusMonitored x num) :=
  inferInstanceAs (Decidable (_ ∨ _))

/-- The state of a busbar's switch as the mode reads it: each busbar its
own in mode S, busbar A alone in mode D, and in the modes H and Y an alarm
of A when both are open. -/
def switchState (x : Sample) (num : Fin 2) : Option UInt8 :=
  let mode := x.optimset.setup.bBusMode
  if mode = busModeS then some (x.busStatus.get num).bQF
  else if num = 0 then
    if mode = busModeD then some (x.busStatus.get 0).bQF
    else if mode = busModeH ∨ mode = busModeY then
      some (if (x.busStatus.get 0).bQF = 1 ∧ (x.busStatus.get 1).bQF = 1 then 1 else 0)
    else none
  else none

/-- The state of a busbar's arrester, where arresters are watched: busbar
B's in the modes S and Y alone. -/
def arresterState (x : Sample) (num : Fin 2) : Option UInt8 :=
  let mode := x.optimset.setup.bBusMode
  if x.optimset.setup.bSPD = 1 ∧ (num = 0 ∨ mode = busModeS ∨ mode = busModeY) then
    some (x.busStatus.get num).bSPD
  else none

/-- The analog value of a busbar event. -/
def analogValue (v : BusVariable) (j : Nat) : Single :=
  match j with
  | 0 => v.fUa
  | 1 => v.fUb
  | 2 => v.fUc
  | 3 => v.fIa
  | 4 => v.fIb
  | 5 => v.fIc
  | 6 => v.fPt
  | _ => v.fF

/-- The alarm type of an analog value under the current thresholds. -/
def analogType (x : Sample) (num : Fin 2) (j : Nat) : UInt8 :=
  let o := x.optimset
  let value := analogValue (x.acqBusVar.get num) j
  if j < 3 then voltFreqType value o.usOVThr o.usUVThr
  else if j < 6 then currentType value (currentLimit (o.usRateI.get num) o.ucOCThrFst)
    (currentLimit (o.usRateI.get num) o.ucOCThrSec)
  else if j = 6 then powerType value (o.usOPThr.get num)
  else voltFreqType value o.usOFThr o.usUFThr

/-- The busbar of an event, and its place there. -/
def busOf (e : Fin 20) : Fin 2 := ⟨e / 10, by omega⟩

/-- The event is monitored under the current configuration. -/
def Monitored (x : Sample) : AlmEvent → Prop
  | .bus e =>
    if e.1 % 10 = 8 then (switchState x (busOf e)).isSome
    else if e.1 % 10 = 9 then (arresterState x (busOf e)).isSome
    else BusMonitored x (busOf e)
  | .branch _ => x.optimset.setup.bQF = 1

instance (x : Sample) (e : AlmEvent) : Decidable (Monitored x e) := by
  unfold Monitored
  split <;> infer_instance

/-- The alarm type of the current sample. A branch is in alarm when it is
in use and tripped. -/
def sampleType (x : Sample) : AlmEvent → UInt8
  | .bus e =>
    if e.1 % 10 = 8 then (switchState x (busOf e)).getD eAlmTypeNormal
    else if e.1 % 10 = 9 then (arresterState x (busOf e)).getD eAlmTypeNormal
    else analogType x (busOf e) (e.1 % 10)
  | .branch k => if (x.ucBranchState.get k) = eActiveOFF then eAlmTypeIOTrip else eAlmTypeNormal

/-- **What the entry of an event should show.** -/
def shown (x : Sample) (e : AlmEvent) : UInt8 :=
  if Monitored x e then sampleType x e else eAlmTypeNormal

/-- The entry belongs to a monitored busbar, or to a branch. -/
def InTable (x : Sample) : AlmEvent → Prop
  | .bus e => BusMonitored x (busOf e)
  | .branch _ => True

instance (x : Sample) (e : AlmEvent) : Decidable (InTable x e) := by
  unfold InTable
  split <;> infer_instance

/-! ## What the pass makes of them -/

/-- The verdict of the pass on an event, where it evaluates it. -/
def evaluation (x : Sample) : AlmEvent → Option Verdict
  | .bus e =>
    if e.1 % 10 = 8 then (switchState x (busOf e)).map .judged
    else if e.1 % 10 = 9 then (arresterState x (busOf e)).map .judged
    else if BusMonitored x (busOf e) then
      some (valueVerdict (analogValue (x.acqBusVar.get (busOf e)) (e.1 % 10))
        (analogType x (busOf e) (e.1 % 10)))
    else none
  | .branch k =>
    some (ioVerdict (if x.optimset.setup.bQF = 1 then (x.ucBranchState.get k) else notMonitored))

/-- The entry receives the marker of another event: that of the switch of
busbar B lands on the power of A, that of the arrester of B on the
frequency of A. -/
def StrayMark (x : Sample) (e : AlmEvent) : Prop :=
  let mode := x.optimset.setup.bBusMode
  (e = .bus eAlmEventAP ∧ (mode = busModeD ∨ mode = busModeH ∨ mode = busModeY)) ∨
  (e = .bus eAlmEventAF ∧ x.optimset.setup.bSPD ≠ 1 ∧ (mode = busModeD ∨ mode = busModeH))

instance (x : Sample) (e : AlmEvent) : Decidable (StrayMark x e) :=
  inferInstanceAs (Decidable (_ ∨ _))

/-! ## The operations of a pass on one cell -/

/-- A call whose marker goes to its own entry touches its own event alone. -/
theorem touch_own {c : Call} (hb : c.markByte = c.event.slot) (e : AlmEvent) :
    c.touch e = if c.event = e then c.verdict.op else none := by
  unfold Call.touch
  cases c.verdict with
  | marked =>
    dsimp only [Verdict.op]
    rw [hb]
    exact if_congr (by rw [Int.ofNat_inj, Fin.val_inj, AlmEvent.slot_inj]) rfl rfl
  | judged t => rfl
  | ignored => exact (ite_self _).symm

/-- An analog value touches its own event alone. -/
theorem touch_analog {c : Call} (hc : ∀ state e, c ≠ .io state e) (e : AlmEvent) :
    c.touch e = if c.event = e then c.verdict.op else none := by
  have hb : c.markByte = c.event.slot := by
    cases c with
    | voltFreq | current | power => rfl
    | io state e => exact absurd rfl (hc state e)
  exact touch_own hb e

/-- A branch state touches its own event alone. -/
theorem touch_branch (state : UInt8) (k : Fin 144) (e : AlmEvent) :
    (Call.io state (.branch k)).touch e
      = if AlmEvent.branch k = e then (ioVerdict state).op else none := by
  have hb : (Call.io state (.branch k)).markByte = ((AlmEvent.branch k).slot : Nat) := by
    rw [Call.markByte, code_branch]
    simp only [AlmEvent.slot]
    omega
  exact touch_own hb e

/-- A one-bit state is judged, as the type of the same number. -/
theorem touch_bit {b : UInt8} (hb : b = 0 ∨ b = 1) (e' e : AlmEvent) :
    (Call.io b e').touch e = if e' = e then some (.judge b) else none := by
  rcases hb with rfl | rfl <;> rfl

/-- The marker of a busbar event lands twelve bytes below its entry. -/
theorem touch_stray (e' : Fin 20) (e : AlmEvent) :
    (Call.io 0x20 (.bus e')).touch e
      = if (e' : Int) - 12 = e.slot then some .mark else none := by
  have hv : (Call.io 0x20 (.bus e')).verdict = .marked := rfl
  unfold Call.touch
  rw [hv]
  refine if_congr ?_ rfl rfl
  simp only [Call.markByte, AlmEvent.code, eAlmEventSW]
  omega

/-- The marker of the switch of busbar B lands on the power of A. -/
theorem touch_stray_BQF (e : AlmEvent) : (Call.io 0x20 (.bus eAlmEventBQF)).touch e
    = if e = .bus eAlmEventAP then some .mark else none := by
  rw [touch_stray]
  refine if_congr ⟨fun h => AlmEvent.slot_injective (Fin.ext ?_), fun h => ?_⟩ rfl rfl
  · simp only [eAlmEventBQF, eAlmEventAP, AlmEvent.slot] at h ⊢; omega
  · subst h; rfl

/-- The marker of the arrester of busbar B lands on the frequency of A. -/
theorem touch_stray_BSPD (e : AlmEvent) : (Call.io 0x20 (.bus eAlmEventBSPD)).touch e
    = if e = .bus eAlmEventAF then some .mark else none := by
  rw [touch_stray]
  refine if_congr ⟨fun h => AlmEvent.slot_injective (Fin.ext ?_), fun h => ?_⟩ rfl rfl
  · simp only [eAlmEventBSPD, eAlmEventAF, AlmEvent.slot] at h ⊢; omega
  · subst h; rfl

/-- The marker of the arrester of busbar A lands in front of the table. -/
theorem touch_stray_ASPD (e : AlmEvent) : (Call.io 0x20 (.bus eAlmEventASPD)).touch e = none := by
  rw [touch_stray, if_neg]
  simp only [eAlmEventASPD]
  omega

/-- The operations of a list of calls on the cell of an event. -/
def touches (cs : List Call) (e : AlmEvent) : List CellOp := cs.filterMap fun c => c.touch e

@[simp] theorem touches_nil (e : AlmEvent) : touches [] e = [] := rfl

theorem touches_cons (c : Call) (cs : List Call) (e : AlmEvent) :
    touches (c :: cs) e = (c.touch e).toList ++ touches cs e := by
  unfold touches
  rw [List.filterMap_cons]
  cases c.touch e <;> rfl

theorem touches_append (cs ds : List Call) (e : AlmEvent) :
    touches (cs ++ ds) e = touches cs e ++ touches ds e := List.filterMap_append

/-- The switches: each judged where the mode reads it, and in the modes D,
H and Y a stray marker. -/
theorem touches_switchCalls (x : Sample) (e : AlmEvent) :
    touches (switchCalls x) e =
      (if AlmEvent.bus eAlmEventAQF = e then (switchState x 0).map CellOp.judge else none).toList ++
      (if AlmEvent.bus eAlmEventBQF = e then (switchState x 1).map CellOp.judge else none).toList ++
      (if e = .bus eAlmEventAP ∧ (x.optimset.setup.bBusMode = busModeD ∨
          x.optimset.setup.bBusMode = busModeH ∨ x.optimset.setup.bBusMode = busModeY) then
        some CellOp.mark else none).toList := by
  have h0 := touch_bit ((x.busStatus.get 0).bQF_cases)
  have h1 := touch_bit ((x.busStatus.get 1).bQF_cases)
  unfold switchCalls switchState
  by_cases hS : x.optimset.setup.bBusMode = busModeS
  · simp [hS, touches_cons, h0, h1, busModeS, busModeD, busModeH, busModeY]
  by_cases hD : x.optimset.setup.bBusMode = busModeD
  · simp [hD, touches_cons, h0, touch_stray_BQF, busModeS, busModeD, busModeH, busModeY]
  by_cases hHY : x.optimset.setup.bBusMode = busModeH ∨ x.optimset.setup.bBusMode = busModeY
  · -- one event stands for both switches
    have hb : ∀ e, (if (x.busStatus.get 0).bQF = 1 ∧ (x.busStatus.get 1).bQF = 1
        then Call.io 0x01 (.bus eAlmEventAQF) else Call.io 0x00 (.bus eAlmEventAQF)).touch e
        = if AlmEvent.bus eAlmEventAQF = e then some (CellOp.judge
          (if (x.busStatus.get 0).bQF = 1 ∧ (x.busStatus.get 1).bQF = 1 then 1 else 0)) else none := by
      intro e
      split
      · exact touch_bit (.inr rfl) ..
      · exact touch_bit (.inl rfl) ..
    simp [hS, hD, hHY, touches_cons, hb, touch_stray_BQF]
  · rw [not_or] at hHY
    simp [hS, hD, hHY.1, hHY.2]

/-- The arresters: each judged where it is watched, and a stray marker in
the modes D and H when they are not. -/
theorem touches_arresterCalls (x : Sample) (e : AlmEvent) :
    touches (arresterCalls x) e =
      (if AlmEvent.bus eAlmEventASPD = e then
        (arresterState x 0).map CellOp.judge else none).toList ++
      (if AlmEvent.bus eAlmEventBSPD = e then
        (arresterState x 1).map CellOp.judge else none).toList ++
      (if e = .bus eAlmEventAF ∧ x.optimset.setup.bSPD ≠ 1 ∧
          (x.optimset.setup.bBusMode = busModeD ∨ x.optimset.setup.bBusMode = busModeH) then
        some CellOp.mark else none).toList := by
  have h0 := touch_bit ((x.busStatus.get 0).bSPD_cases)
  have h1 := touch_bit ((x.busStatus.get 1).bSPD_cases)
  unfold arresterCalls arresterState
  by_cases hspd : x.optimset.setup.bSPD = 1
  · by_cases hm : x.optimset.setup.bBusMode = busModeS ∨ x.optimset.setup.bBusMode = busModeY
    · simp [hspd, hm, touches_cons, h0, h1]
    · simp [hspd, hm, touches_cons, h0]
  · by_cases hm : x.optimset.setup.bBusMode = busModeD ∨ x.optimset.setup.bBusMode = busModeH
    · simp [hspd, hm, touches_cons, touch_stray_ASPD, touch_stray_BSPD]
    · simp [hspd, hm, touches_cons, touch_stray_ASPD]

theorem touch_voltFreq (value : Single) (u l : UInt16) (e' : Fin 20) (e : AlmEvent) :
    (Call.voltFreq value u l e').touch e
      = if AlmEvent.bus e' = e then (valueVerdict value (voltFreqType value u l)).op else none :=
  touch_analog (by simp) e

theorem touch_current (value : Single) (u l : UInt16) (e' : Fin 20) (e : AlmEvent) :
    (Call.current value u l e').touch e
      = if AlmEvent.bus e' = e then (valueVerdict value (currentType value u l)).op else none :=
  touch_analog (by simp) e

theorem touch_power (value : Single) (u : UInt16) (e' : Fin 20) (e : AlmEvent) :
    (Call.power value u e').touch e
      = if AlmEvent.bus e' = e then (valueVerdict value (powerType value u)).op else none :=
  touch_analog (by simp) e

/-- The analog values of a busbar: each touches its own event. -/
theorem touches_busbarVariable (x : Sample) (num : Fin 2) (e : Fin 20) :
    touches (almBusbarVariable x num) (.bus e) =
      (if busOf e = num ∧ e.1 % 10 < 8 then
        (valueVerdict (analogValue (x.acqBusVar.get num) (e.1 % 10))
          (analogType x num (e.1 % 10))).op else none).toList := by
  simp only [almBusbarVariable, touches_cons, touch_voltFreq, touch_current, touch_power,
    touches_nil, AlmEvent.bus.injEq]
  fin_cases num <;> fin_cases e <;> simp [busEvent, busOf, analogValue, analogType]

theorem touches_busbarVariable_branch (x : Sample) (num : Fin 2) (k : Fin 144) :
    touches (almBusbarVariable x num) (.branch k) = [] := by
  simp [almBusbarVariable, touches_cons, touch_voltFreq, touch_current, touch_power]

/-- A list without repetition meets each of its members once. -/
theorem filterMap_single {α β : Type*} [DecidableEq α] {l : List α} (hnd : l.Nodup) {k : α}
    (hk : k ∈ l) (f : α → Option β) :
    (l.filterMap fun i => if i = k then f i else none) = (f k).toList := by
  induction l with
  | nil => exact absurd hk List.not_mem_nil
  | cons a l ih =>
    rw [List.nodup_cons] at hnd
    by_cases ha : a = k
    · subst ha
      have hrest : (l.filterMap fun i => if i = a then f i else none) = [] := by
        rw [List.filterMap_eq_nil_iff]
        intro i hi
        rw [if_neg]
        rintro rfl
        exact hnd.1 hi
      rw [List.filterMap_cons, hrest, if_pos rfl]
      cases f a <;> rfl
    · have hk' : k ∈ l := (List.mem_cons.1 hk).resolve_left (Ne.symm ha)
      rw [List.filterMap_cons, if_neg ha]
      exact ih hnd.2 hk'

/-- The branches: each touches its own event. -/
theorem touches_branchState (x : Sample) (k : Fin 144) :
    touches (almBranchState x) (.branch k) = (ioVerdict
      (if x.optimset.setup.bQF = 1 then (x.ucBranchState.get k) else notMonitored)).op.toList := by
  have hl : almBranchState x = (List.finRange 144).map fun i => Call.io
      (if x.optimset.setup.bQF = 1 then (x.ucBranchState.get i) else notMonitored) (.branch i) := by
    unfold almBranchState
    split <;> rfl
  rw [hl, touches, List.filterMap_map]
  simp only [Function.comp_def, touch_branch, AlmEvent.branch.injEq]
  exact filterMap_single (List.nodup_finRange 144) (List.mem_finRange k) _

theorem touches_branchState_bus (x : Sample) (e : Fin 20) :
    touches (almBranchState x) (.bus e) = [] := by
  unfold almBranchState touches
  split <;> simp [touch_branch]

/-- The analog values of a pass: those of the monitored busbars. -/
theorem touches_busbars (x : Sample) (e : Fin 20) :
    touches (if x.optimset.setup.bBusMode = busModeD ∨ x.optimset.setup.bBusMode = busModeH then
        almBusbarVariable x 0 ++ almBranchState x
      else almBusbarVariable x 0 ++ almBusbarVariable x 1 ++ almBranchState x) (.bus e) =
      (if BusMonitored x (busOf e) ∧ e.1 % 10 < 8 then
        (valueVerdict (analogValue (x.acqBusVar.get (busOf e)) (e.1 % 10))
          (analogType x (busOf e) (e.1 % 10))).op else none).toList := by
  have hbus : busOf e = 0 ∨ busOf e = 1 := by omega
  by_cases hmode : x.optimset.setup.bBusMode = busModeD ∨ x.optimset.setup.bBusMode = busModeH
  · rw [if_pos hmode, touches_append, touches_busbarVariable, touches_branchState_bus]
    rcases hbus with h | h <;> simp [h, BusMonitored, hmode]
  · rw [if_neg hmode, touches_append, touches_append, touches_busbarVariable,
      touches_busbarVariable, touches_branchState_bus]
    rcases hbus with h | h <;> simp [h, BusMonitored, hmode]

/-- **A pass, at one cell.** First the stray marker, if the cell receives
one, then the evaluation of its event, if the pass makes one. -/
theorem touches_eq (x : Sample) (e : AlmEvent) :
    touches (passCalls x) e = (if StrayMark x e then some CellOp.mark else none).toList ++
      ((evaluation x e).bind Verdict.op).toList := by
  rw [passCalls, touches_append, almBusState, touches_append, touches_switchCalls,
    touches_arresterCalls]
  cases e with
  | branch k =>
    have hbar : touches (if x.optimset.setup.bBusMode = busModeD ∨
          x.optimset.setup.bBusMode = busModeH then almBusbarVariable x 0 ++ almBranchState x
        else almBusbarVariable x 0 ++ almBusbarVariable x 1 ++ almBranchState x) (.branch k)
        = touches (almBranchState x) (.branch k) := by
      split <;> simp only [touches_append, touches_busbarVariable_branch, List.nil_append]
    rw [hbar, touches_branchState]
    simp [StrayMark, evaluation]
  | bus e =>
    have hop (o : Option UInt8) : (o.map Verdict.judged).bind Verdict.op = o.map .judge := by
      cases o <;> rfl
    rw [touches_busbars]
    -- the markers and the judgements of the twenty busbar events, one by one
    by_cases hB : BusMonitored x (busOf e)
    all_goals
      simp only [StrayMark, evaluation, AlmEvent.bus.injEq, hB, true_and, false_and, if_true,
        if_false]
      fin_cases e <;> simp [busOf, hop, eAlmEventAQF, eAlmEventBQF, eAlmEventASPD,
        eAlmEventBSPD, eAlmEventAP, eAlmEventAF]

/-! ## The cell after a pass -/

/-- What a pass makes of a cell. -/
def passCell (x : Sample) (e : AlmEvent) (c : Cell) : Cell :=
  let c := if StrayMark x e then c.apply .mark else c
  ((evaluation x e).bind Verdict.op).elim c c.apply

theorem passCell_silent {x : Sample} {e : AlmEvent} (h : (evaluation x e).bind Verdict.op = none)
    (hs : ¬ StrayMark x e) (c : Cell) : passCell x e c = c := by
  simp only [passCell, h, if_neg hs, Option.elim_none]

theorem passCell_marked {x : Sample} {e : AlmEvent} (h : evaluation x e = some .marked)
    (c : Cell) : passCell x e c = ⟨notMonitored, c.last⟩ := by
  unfold passCell
  rw [h]
  split <;> rfl

/-- A judged event remembers its type, and shows it unless the state was
that type already. -/
theorem passCell_judged {x : Sample} {e : AlmEvent} {t : UInt8}
    (h : evaluation x e = some (.judged t)) (c : Cell) :
    passCell x e c = ⟨if c.last = t then if StrayMark x e then notMonitored else c.entry else t,
      t⟩ := by
  unfold passCell
  rw [h]
  dsimp only [Option.bind_some, Verdict.op, Option.elim_some]
  by_cases hl : c.last = t
  · -- the state is kept, and with it a marker that landed just before
    rw [if_pos hl]
    split
    · rw [Cell.apply_judge_of_eq (show (c.apply .mark).last = t from hl), Cell.apply_mark, hl]
    · rw [Cell.apply_judge_of_eq hl, ← hl]
  · rw [if_neg hl]
    split
    · exact Cell.apply_judge_of_ne (show (c.apply .mark).last ≠ t from hl)
    · exact Cell.apply_judge_of_ne hl

/-- One pass of the handler: a sample, and the times the clock shows to
the events. -/
structure Pass where
  sample : Sample
  now : AlmEvent → Stamp

/-- The pass. -/
def AlmState.pass (s : AlmState) (p : Pass) : AlmState := almAllHandler s p.sample p.now

/-- **A pass, cell by cell.** -/
theorem pass_cell (s : AlmState) (p : Pass) (e : AlmEvent) :
    (s.pass p).cell e = passCell p.sample e (s.cell e) := by
  have ht : ((passCalls p.sample).filterMap fun c => c.touch e) = touches (passCalls p.sample) e :=
    rfl
  rw [AlmState.pass, almAllHandler_cell, runCalls_cell, ht, touches_eq, List.foldl_append]
  unfold passCell
  by_cases hs : StrayMark p.sample e
  · rw [if_pos hs, if_pos hs]
    cases (evaluation p.sample e).bind Verdict.op <;> rfl
  · rw [if_neg hs, if_neg hs]
    cases (evaluation p.sample e).bind Verdict.op <;> rfl

/-- A cell shows its remembered state, or the marker. -/
def Cell.Coherent (c : Cell) : Prop := c.entry = c.last ∨ c.entry = notMonitored

theorem Cell.Coherent.apply {c : Cell} (h : c.Coherent) (op : CellOp) : (c.apply op).Coherent := by
  cases op with
  | mark => exact .inr rfl
  | judge t =>
    by_cases hl : c.last = t
    · rw [Cell.apply_judge_of_eq hl]; exact h
    · rw [Cell.apply_judge_of_ne hl]; exact .inl rfl

theorem Cell.Coherent.passCell {c : Cell} (h : c.Coherent) (x : Sample) (e : AlmEvent) :
    (passCell x e c).Coherent := by
  unfold BusMonitor.passCell
  dsimp only
  have h' : (if StrayMark x e then c.apply .mark else c).Coherent := by
    split
    · exact h.apply _
    · exact h
  cases (evaluation x e).bind Verdict.op with
  | none => exact h'
  | some op => exact h'.apply op

/-- Every cell of the table is coherent. -/
def AlmState.Coherent (s : AlmState) : Prop := ∀ e, (s.cell e).Coherent

theorem AlmState.Coherent.pass {s : AlmState} (h : s.Coherent) (p : Pass) :
    (s.pass p).Coherent := by
  intro e
  rw [pass_cell]
  exact (h e).passCell p.sample e

/-- At power-up every cell is clear. -/
theorem powerUp_cell (fram : Mem) (e : AlmEvent) : (AlmState.powerUp fram).cell e = ⟨0, 0⟩ := by
  have h : (AlmState.powerUp fram).cell e = (AlmState.reset fram).cell e := by
    unfold AlmState.powerUp almRelateInit
    split <;> rfl
  rw [h]
  simp [AlmState.cell, AlmState.entry, AlmState.last, AlmState.reset]

theorem powerUp_coherent (fram : Mem) : (AlmState.powerUp fram).Coherent := by
  intro e
  rw [powerUp_cell]
  exact .inl rfl

end BusMonitor
