import BusMonitor.Alarm.Table
import BusMonitor.Alarm.Window
import BusMonitor.GUI.AlarmInfo
import BusMonitor.SUB.BranchState
/-!
# From the module bit to the name on the page

The modules' bytes are decoded to branch states, the branch states are
evaluated, an evaluation leaves an alarm record, and the page names the
record's event. A run keeps beside the component the record that each
change of state has left. `branches_named_iff` says in which runs every
branch in use that is reported open has a record that is shown under the
branch's own name.
-/


namespace BusMonitor

open Stepwise

/-! ## Runs -/

/-- The settings, the modules' side, the alarm component, and the alarm
records with the events they were left for. -/
structure SwitchRun where
  optimset : { o : Optimset // CountsInRange o }
  sub : SubUnit
  alm : AlmState
  records : List (AlmEvent × AlmRecord)

/-- What happens: the settings and the set table change, an event is
evaluated, the records are cleared, or the modules' bytes are decoded and
`Alm_AllHandler` runs. The bytes are whatever `SUB_Receive` has stored. -/
inductive SwitchOp where
  | configure (o : { o : Optimset // CountsInRange o }) (set : Vector UInt8 144)
  | evaluate (c : Call) (now : Stamp)
  | clear
  | report (rec : Vector UInt8 20) (stack : Vector UInt8 144) (x : Sample)
      (now : AlmEvent → Stamp)

/-- The record under the end of the window. -/
def newest (s : AlmState) : AlmRecord := s.gRTAlmRecord.toList.getD (s.rtAlmIndex - 1) default

/-- The component with the records it left. -/
abbrev Recorder := AlmState × List (AlmEvent × AlmRecord)

/-- An evaluation. One that changes the state of its event has left a
record. -/
def Recorder.evaluate (q : Recorder) (c : Call) (now : Stamp) : Recorder :=
  let s := q.1.eval c now
  (s, if s.last c.event = q.1.last c.event then q.2 else q.2 ++ [(c.event, newest s)])

/-- The evaluations of a pass. -/
def Recorder.runCalls (q : Recorder) (cs : List Call) (now : AlmEvent → Stamp) : Recorder :=
  cs.foldl (fun q c => q.evaluate c (now c.event)) q

namespace SwitchRun

/-- The modules' bytes come in and are decoded. -/
def decode (R : SwitchRun) (rec : Vector UInt8 20) (stack : Vector UInt8 144) : SubUnit :=
  SubUnit.subBranchState { R.sub with ucSUBSWRec := rec } R.optimset stack

/-- The sample `Alm_AllHandler` then takes. -/
def sample (R : SwitchRun) (rec : Vector UInt8 20) (stack : Vector UInt8 144) (x : Sample) :
    Sample :=
  { x with optimset := R.optimset, ucBranchState := (R.decode rec stack).ucBranchState }

def step (R : SwitchRun) : SwitchOp → SwitchRun
  | .configure o set => { R with optimset := o, sub := { R.sub with ucBranchSet := set } }
  | .evaluate c now =>
    let q := Recorder.evaluate (R.alm, R.records) c now
    { R with alm := q.1, records := q.2 }
  | .clear => { R with alm := almRecordClear R.alm }
  | .report rec stack x now =>
    let x := R.sample rec stack x
    { R with
      sub := R.decode rec stack
      alm := almAllHandler R.alm x now
      records := (Recorder.runCalls (R.alm, R.records) (passCalls x) now).2 }

/-- After power-up. -/
def init (o : { o : Optimset // CountsInRange o }) (sub : SubUnit) (fram : Mem) : SwitchRun :=
  ⟨o, sub, .powerUp fram, []⟩

/-- The branch is monitored, configured and switched on in the set table. -/
def InUse (R : SwitchRun) (k : Fin 144) : Prop :=
  R.optimset.1.setup.bQF = 1 ∧ ¬ BeyondCount R.optimset k ∧ R.sub.ucBranchSet.get k ≠ 0

instance (R : SwitchRun) (k : Fin 144) : Decidable (R.InUse k) :=
  inferInstanceAs (Decidable (_ ∧ _ ∧ _))

/-- The bit that `SUB_BranchState` assigns to the branch is open. -/
def ReportedOpen (mode : UInt8) (rec : Vector UInt8 20) (k : Fin 144) : Prop :=
  ∃ a ∈ analyses mode, a.branch = k ∧
    ((rec[a.byte]?.getD 0) >>> UInt8.ofNat a.bit) &&& 0x01 = 0

instance (mode : UInt8) (rec : Vector UInt8 20) (k : Fin 144) :
    Decidable (ReportedOpen mode rec k) := by
  unfold ReportedOpen
  infer_instance

/-- The records left for the branch show its name. -/
def Named (R : SwitchRun) (k : Fin 144) : Prop :=
  ∃ r, (AlmEvent.branch k, r) ∈ R.records ∧ ∀ junk,
    gAlmInfoAnalyze R.optimset.1.setup.bBusMode r.almEvent r.almType junk
      = branchName R.optimset.1.setup.bBusMode k

/-- **After a report** every branch in use that is reported open has a
record that names it. -/
def Right (R : SwitchRun) : SwitchOp → Prop
  | .report rec stack x now => ∀ k, R.InUse k →
    ReportedOpen R.optimset.1.setup.bBusMode rec k → (R.step (.report rec stack x now)).Named k
  | _ => True

/-- **The condition on a report**: in mode S the last branch of busbar A is
not in use, or not open. -/
def StepOk (R : SwitchRun) : SwitchOp → Prop
  | .report rec _ _ _ => R.optimset.1.setup.bBusMode = busModeS → ∀ k : Fin 144, (k : Nat) = 71 →
    R.InUse k → ¬ ReportedOpen busModeS rec k
  | _ => True

end SwitchRun

/-! ## The record of an evaluation -/

/-- The newest change of the window is that of the newest record. -/
theorem newest_of_joins {s s' : AlmState} {c : Change} (h : Joins s s' c) :
    (newest s').change = c := by
  obtain ⟨hle, hshown⟩ := h
  have hlen : (Watch.shown s').length = s'.rtAlmIndex := by
    rw [Watch.shown, List.length_map, List.length_take, Vector.length_toList]
    omega
  have hpos : s'.rtAlmIndex = ((Watch.shown s).rtake 9).length + 1 := by
    rw [← hlen, hshown, List.length_append, List.length_singleton]
  have hlast : (Watch.shown s')[s'.rtAlmIndex - 1]? = some c := by
    rw [hshown, hpos, Nat.add_sub_cancel]
    simp
  rw [Watch.getElem?_shown, if_pos (by omega), Option.map_eq_some_iff] at hlast
  obtain ⟨r, hr, hc⟩ := hlast
  rw [newest, List.getD_eq_getElem?_getD, Vector.getElem?_toList, hr]
  exact hc

theorem event_of_joins {s s' : AlmState} {c : Change} (h : Joins s s' c) :
    (newest s').almEvent = c.event := congrArg Change.event (newest_of_joins h)

theorem Cell.last_apply_judge (c : Cell) (t : UInt8) : (c.apply (.judge t)).last = t := by
  by_cases h : c.last = t
  · rw [Cell.apply_judge_of_eq h, h]
  · rw [Cell.apply_judge_of_ne h]

/-- The remembered states after an evaluation. -/
theorem eval_last (s : AlmState) (c : Call) (now : Stamp) (e : AlmEvent) :
    (s.eval c now).last e = s.last e ∨
      ∃ t, c.verdict = .judged t ∧ c.event = e ∧ (s.eval c now).last e = t := by
  cases hv : c.verdict with
  | marked =>
    rw [eval_marked hv]
    exact .inl (mark_last c s e)
  | ignored =>
    rw [eval_ignored hv]
    exact .inl rfl
  | judged t =>
    have hout : Outcome s (s.eval c now) c.event t now := eval_judged hv
    have hcell := congrArg Cell.last (hout.cell e)
    by_cases he : c.event = e
    · refine .inr ⟨t, rfl, he, ?_⟩
      rw [if_pos he] at hcell
      exact hcell.trans ((s.cell e).last_apply_judge t)
    · rw [if_neg he] at hcell
      exact .inl hcell

/-- **What an evaluation does to the window**: nothing, or the record of
its event joins it. -/
theorem eval_joins (s : AlmState) (c : Call) (now : Stamp) (h : s.rtAlmIndex ≤ 10) :
    (s.eval c now).rtAlmIndex ≤ 10 ∧
      ((s.eval c now).last c.event ≠ s.last c.event →
        (newest (s.eval c now)).almEvent = c.event.byte) := by
  cases hv : c.verdict with
  | marked =>
    rw [eval_marked hv]
    exact ⟨(mark_frame c s).2.1 ▸ h, fun hne => absurd (mark_last c s c.event) hne⟩
  | ignored =>
    rw [eval_ignored hv]
    exact ⟨h, fun hne => absurd rfl hne⟩
  | judged t =>
    have hout : Outcome s (s.eval c now) c.event t now := eval_judged hv
    rcases hout with ⟨-, hs⟩ | ⟨-, ht, value, thr, pt, hs⟩ | ⟨-, rfl, value, thr, hs⟩
    · rw [hs]
      exact ⟨h, fun hne => absurd rfl hne⟩
    · have hj := raise_joins h c.event ht value thr pt now
      rw [hs]
      exact ⟨hj.1, fun _ => event_of_joins hj⟩
    · obtain ⟨old, hj⟩ := settle_joins h c.event value thr now
      rw [hs]
      exact ⟨hj.1, fun _ => event_of_joins hj⟩

/-! ## The invariant -/

/-- The index is in range, every record has the number of its event, and a
branch in alarm has left a record. -/
structure Recorder.Sound (q : Recorder) : Prop where
  index : q.1.rtAlmIndex ≤ 10
  byte : ∀ p ∈ q.2, p.2.almEvent = p.1.byte
  left : ∀ k, q.1.last (.branch k) = eAlmTypeIOTrip → ∃ r, (AlmEvent.branch k, r) ∈ q.2

namespace Recorder

variable {q : Recorder}

/-- **One evaluation** keeps the invariant. -/
theorem Sound.evaluate (h : q.Sound) (c : Call) (now : Stamp) : (q.evaluate c now).Sound := by
  obtain ⟨hindex, hbyte⟩ := eval_joins q.1 c now h.index
  unfold Recorder.evaluate
  dsimp only
  by_cases hsame : (q.1.eval c now).last c.event = q.1.last c.event
  · rw [if_pos hsame]
    refine ⟨hindex, h.byte, fun k hk => h.left k ?_⟩
    rcases eval_last q.1 c now (.branch k) with hl | ⟨t, -, he, -⟩
    · exact hl.symm.trans hk
    · -- the state of the event itself is the one from before
      rw [← he, ← hsame, he]
      exact hk
  · -- the change has left the newest record
    rw [if_neg hsame]
    refine ⟨hindex, ?_, fun k hk => ?_⟩
    · intro p hp
      rcases List.mem_append.1 hp with hp | hp
      · exact h.byte p hp
      · rw [List.mem_singleton.1 hp]
        exact hbyte hsame
    · rcases eval_last q.1 c now (.branch k) with hl | ⟨t, -, he, -⟩
      · obtain ⟨r, hr⟩ := h.left k (hl.symm.trans hk)
        exact ⟨r, List.mem_append_left _ hr⟩
      · exact ⟨_, List.mem_append_right _ (List.mem_singleton.2 (Prod.ext he.symm rfl))⟩

theorem Sound.runCalls (h : q.Sound) (cs : List Call) (now : AlmEvent → Stamp) :
    (q.runCalls cs now).Sound := by
  induction cs generalizing q with
  | nil => exact h
  | cons c cs ih => exact ih (h.evaluate c (now c.event))

theorem runCalls_fst (q : Recorder) (cs : List Call) (now : AlmEvent → Stamp) :
    (q.runCalls cs now).1 = BusMonitor.runCalls q.1 cs now := by
  induction cs generalizing q with
  | nil => rfl
  | cons c cs ih => exact ih (q.evaluate c (now c.event))

end Recorder

namespace SwitchRun

variable {R : SwitchRun}

/-- The invariant of a run. -/
def Sound (R : SwitchRun) : Prop := Recorder.Sound (R.alm, R.records)

theorem sound_init (o : { o : Optimset // CountsInRange o }) (sub : SubUnit) (fram : Mem) :
    (init o sub fram).Sound := by
  refine ⟨?_, fun p hp => absurd hp List.not_mem_nil, fun k hk => ?_⟩
  · exact (Watch.sound_init fram).right.1
  · have hseen := (Watch.sound_init fram).seen (.branch k)
    exact absurd (hseen.symm.trans hk) (show eAlmTypeNormal ≠ eAlmTypeIOTrip by decide)

/-- Switching the outputs off leaves the window and the states. -/
theorem sound_almAllHandler {s : AlmState} {x : Sample} {now : AlmEvent → Stamp}
    {records : List (AlmEvent × AlmRecord)}
    (h : Recorder.Sound (runCalls s (passCalls x) now, records)) :
    Recorder.Sound (almAllHandler s x now, records) := by
  have hindex : (almAllHandler s x now).rtAlmIndex
      = (runCalls s (passCalls x) now).rtAlmIndex := by
    unfold almAllHandler
    dsimp only
    split <;> rfl
  refine ⟨hindex ▸ h.index, h.byte, fun k hk => h.left k ?_⟩
  exact (congrArg Cell.last (almAllHandler_cell s x now (.branch k))).symm.trans hk

/-- Every step keeps the invariant. -/
theorem Sound.step (h : R.Sound) (op : SwitchOp) : (R.step op).Sound := by
  cases op with
  | configure o set => exact h
  | evaluate c now => exact h.evaluate c now
  | clear => exact ⟨Nat.zero_le _, h.byte, h.left⟩
  | report rec stack x now =>
    have hrun := Recorder.Sound.runCalls h (passCalls (R.sample rec stack x)) now
    apply sound_almAllHandler
    rw [← Recorder.runCalls_fst (R.alm, R.records)]
    exact hrun

/-! ## A report -/

/-- A branch in use whose bit is open is decoded as tripped. -/
theorem decode_open {rec : Vector UInt8 20} (stack : Vector UInt8 144) {k : Fin 144}
    (huse : R.InUse k) (hopen : ReportedOpen R.optimset.1.setup.bBusMode rec k) :
    (R.decode rec stack).ucBranchState.get k = eActiveOFF := by
  obtain ⟨hqf, hcount, hset⟩ := huse
  obtain ⟨a, ha, hak, hbit⟩ := hopen
  have hdecoded := (SubUnit.get_states { R.sub with ucSUBSWRec := rec } R.optimset k
    R.sub.ucBranchState).trans (SubUnit.storedState_eq (fun _ => R.optimset.2) k)
  have hana := SubUnit.analysed_eq (s := { R.sub with ucSUBSWRec := rec }) ha hak
  rw [branchStateOf, if_pos ⟨hqf, hcount⟩, ← hana] at hdecoded
  refine hdecoded.trans ?_
  -- in use and open, the analysis answers 1
  unfold SubUnit.analysed subStateAna
  rw [hbit, hak, Vector.getElem?_eq_getElem k.isLt]
  exact (if_neg hset).trans (if_neg (by decide))

/-- After a report a branch in use that is open is in alarm. -/
theorem last_report {rec : Vector UInt8 20} {stack : Vector UInt8 144} {x : Sample}
    {now : AlmEvent → Stamp} {k : Fin 144} (huse : R.InUse k)
    (hopen : ReportedOpen R.optimset.1.setup.bBusMode rec k) :
    (R.step (.report rec stack x now)).alm.last (.branch k) = eAlmTypeIOTrip := by
  have heval : evaluation (R.sample rec stack x) (.branch k) = some (.judged eAlmTypeIOTrip) := by
    have hstate := decode_open stack huse hopen
    simp only [evaluation, sample, if_pos huse.1, hstate]
    rfl
  have hcell := pass_cell R.alm ⟨R.sample rec stack x, now⟩ (.branch k)
  rw [passCell_judged heval] at hcell
  exact congrArg Cell.last hcell

/-- The record of a branch shows the branch's name, unless it is the last
branch of busbar A in mode S. -/
theorem Sound.named_iff (h : R.Sound) {k : Fin 144}
    (hlast : R.alm.last (.branch k) = eAlmTypeIOTrip) :
    R.Named k ↔ ¬ (R.optimset.1.setup.bBusMode = busModeS ∧ (k : Nat) = 71) := by
  constructor
  · rintro ⟨r, hr, htext⟩
    have hbyte : r.almEvent = (AlmEvent.branch k).byte := h.byte _ hr
    rw [hbyte] at htext
    exact (branchText_eq_iff _ k r.almType []).1 (htext [])
  · intro hk
    obtain ⟨r, hr⟩ := h.left k hlast
    have hbyte : r.almEvent = (AlmEvent.branch k).byte := h.byte _ hr
    refine ⟨r, hr, fun junk => ?_⟩
    rw [hbyte]
    exact (branchText_eq_iff _ k r.almType junk).2 hk

/-- **One step**: the branches are named after it exactly when it meets its
condition. -/
theorem Sound.right_iff (h : R.Sound) (op : SwitchOp) : R.Right op ↔ R.StepOk op := by
  cases op with
  | configure | evaluate | clear => exact Iff.rfl
  | report rec stack x now =>
    have hnamed : ∀ k, R.InUse k → ReportedOpen R.optimset.1.setup.bBusMode rec k →
        ((R.step (.report rec stack x now)).Named k ↔
          ¬ (R.optimset.1.setup.bBusMode = busModeS ∧ (k : Nat) = 71)) :=
      fun k huse hopen => (h.step _).named_iff (last_report huse hopen)
    constructor
    · intro hright hmode k hk huse hopen
      rw [← hmode] at hopen
      exact (hnamed k huse hopen).1 (hright k huse hopen) ⟨hmode, hk⟩
    · intro hok k huse hopen
      refine (hnamed k huse hopen).2 ?_
      rintro ⟨hmode, hk⟩
      rw [hmode] at hopen
      exact hok hmode k hk huse hopen

/-- **End-to-end identity of a branch.** In every run from power-up each
report leaves the branches in use that are open with a record under their
own name exactly when every report meets its condition. -/
theorem branches_named_iff (o : { o : Optimset // CountsInRange o }) (sub : SubUnit) (fram : Mem)
    (ops : List SwitchOp) :
    Meets step Right (init o sub fram) ops ↔ Meets step StepOk (init o sub fram) ops :=
  meets_congr ops (sound_init o sub fram) (fun _ op h _ => h.step op) fun _ op h => h.right_iff op

/-- The factory settings, in mode S with the branches monitored. -/
def factorySettings : { o : Optimset // CountsInRange o } := ⟨optDefault, by decide⟩

/-- Every switch closed but that of the last branch of busbar A. -/
def lastOfBusA : Vector UInt8 20 := (Vector.replicate 20 0xFF).setIfInBounds 14 0xF7

theorem lastOfBusA_open : ∀ k : Fin 144, (k : Nat) = 71 →
    InUse (init factorySettings SubUnit.oneOpen fun _ => 0) k ∧
      ReportedOpen busModeS lastOfBusA k := by
  decide +kernel

/-- The record of branch 72 of busbar A does not name it. -/
theorem last_of_busA_misnamed :
    ¬ Meets step Right (init factorySettings SubUnit.oneOpen fun _ => 0)
      [.report lastOfBusA SubUnit.oneOpen.ucBranchState (quietSample 0x31) fun _ => default] := by
  intro hm
  have hok := ((sound_init factorySettings SubUnit.oneOpen fun _ => 0).right_iff _).1 hm.1
  have h71 := lastOfBusA_open ⟨71, by omega⟩ rfl
  have hmode :
      (init factorySettings SubUnit.oneOpen fun _ => 0).optimset.1.setup.bBusMode = busModeS := by
    decide
  exact hok hmode ⟨71, by omega⟩ rfl h71.1 h71.2

end SwitchRun

end BusMonitor
