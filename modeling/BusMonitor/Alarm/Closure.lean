import BusMonitor.Alarm.Ring
import BusMonitor.Alarm.Outputs
/-!
# Closure of the history

When an event has returned to normal, its records should be closed. A
termination closes one record, the newest of its event, so this holds as
long as an alarm leaves one record behind: an event that passes from one
alarm type to another leaves two, and the older stays open for good. The
invariant is that all records of an event but the newest are closed, and
the newest as well while the event is normal.
-/


namespace BusMonitor

open Recent Stepwise History

/-! ## Records of one event -/

/-- The records of an event, newest first. -/
def ofEvent (e : AlmEvent) (rs : List AlmRecord) : List AlmRecord :=
  rs.filter fun r => r.almEvent = e.byte

/-- The record has been closed at one of the given times. -/
def ClosedAt (times : List Stamp) (r : AlmRecord) : Prop := ¬ r.IsOpen ∧ r.terminate ∈ times

/-- **The invariant, at one event.** All its records but the newest are
closed, and the newest as well unless the event is in alarm. -/
def EventClosed (e : AlmEvent) (last : UInt8) (times : List Stamp) (rs : List AlmRecord) : Prop :=
  (∀ r ∈ (ofEvent e rs).tail, ClosedAt times r) ∧
  (last = eAlmTypeNormal → ∀ r ∈ ofEvent e rs, ClosedAt times r)

namespace EventClosed

variable {e : AlmEvent} {last : UInt8} {times : List Stamp} {rs rs' : List AlmRecord}

/-- Records that fall out of the ring do no harm. -/
theorem of_prefix (h : EventClosed e last times rs) (hp : rs' <+: rs) :
    EventClosed e last times rs' := by
  have hp' : ofEvent e rs' <+: ofEvent e rs := hp.filter _
  refine ⟨fun r hr => h.1 r ?_, fun hl r hr => h.2 hl r (hp'.subset hr)⟩
  obtain ⟨t, ht⟩ := hp'
  rw [← ht]
  cases hc : ofEvent e rs' with
  | nil => rw [hc] at hr; exact absurd hr List.not_mem_nil
  | cons a l => rw [hc] at hr; exact List.mem_append_left t hr

/-- A new record of an event that was normal. -/
theorem push_self (h : EventClosed e eAlmTypeNormal times rs) {r : AlmRecord}
    (hr : r.almEvent = e.byte) {t : UInt8} (ht : t ≠ eAlmTypeNormal) :
    EventClosed e t times (r :: rs) := by
  have hcons : ofEvent e (r :: rs) = r :: ofEvent e rs := by simp [ofEvent, hr]
  refine ⟨?_, fun h0 => absurd h0 ht⟩
  rw [hcons]
  exact h.2 rfl

/-- A new record of another event. -/
theorem push_other (h : EventClosed e last times rs) {r : AlmRecord} (hr : r.almEvent ≠ e.byte) :
    EventClosed e last times (r :: rs) := by
  have hcons : ofEvent e (r :: rs) = ofEvent e rs := by simp [ofEvent, hr]
  unfold EventClosed
  rw [hcons]
  exact h

/-- More times do no harm. -/
theorem mono (h : EventClosed e last times rs) (now : Stamp) :
    EventClosed e last (now :: times) rs :=
  ⟨fun r hr => (h.1 r hr).imp_right (List.mem_cons_of_mem _),
    fun hl r hr => (h.2 hl r hr).imp_right (List.mem_cons_of_mem _)⟩

end EventClosed

/-- Closing the newest record of an event, among the records of that
event: its head is closed. -/
theorem ofEvent_lookmap_self (e : AlmEvent) (now : Stamp) (rs : List AlmRecord) :
    ofEvent e (closeNewest e.byte now rs)
      = ((ofEvent e rs).head?.map (AlmRecord.close now)).toList ++ (ofEvent e rs).tail := by
  induction rs with
  | nil => rfl
  | cons r rs ih =>
    by_cases hr : r.almEvent = e.byte
    · rw [closeNewest_cons_self hr]
      simp [ofEvent, hr]
    · rw [closeNewest_cons_of_ne hr]
      simpa [ofEvent, hr] using ih

/-- Closing the newest record of an event leaves those of the others. -/
theorem ofEvent_lookmap_other {e e' : AlmEvent} (h : e' ≠ e) (now : Stamp) (rs : List AlmRecord) :
    ofEvent e' (closeNewest e.byte now rs)
      = ofEvent e' rs := by
  induction rs with
  | nil => rfl
  | cons r rs ih =>
    by_cases hr : r.almEvent = e.byte
    · have hr' : r.almEvent ≠ e'.byte := fun h' => h (AlmEvent.byte_injective (h'.symm.trans hr))
      rw [closeNewest_cons_self hr]
      simp [ofEvent, hr']
    · rw [closeNewest_cons_of_ne hr]
      simp only [ofEvent, List.filter_cons] at ih ⊢
      rw [ih]

/-- Ending the alarm of an event closes all its records. -/
theorem EventClosed.finish_self {e : AlmEvent} {last : UInt8} {times : List Stamp}
    {rs : List AlmRecord} (h : EventClosed e last times rs) (now : Stamp) :
    EventClosed e eAlmTypeNormal (now :: times)
      (closeNewest e.byte now rs) := by
  have hall : ∀ r ∈ ofEvent e
      (closeNewest e.byte now rs),
      ClosedAt (now :: times) r := by
    intro r hr
    rw [ofEvent_lookmap_self, List.mem_append] at hr
    rcases hr with hr | hr
    · obtain ⟨q, -, rfl⟩ := Option.map_eq_some_iff.1 (Option.mem_toList.1 hr)
      exact ⟨AlmRecord.not_isOpen_close now q, by simp⟩
    · exact (h.mono now).1 r hr
  exact ⟨fun r hr => hall r (List.mem_of_mem_tail hr), fun _ => hall⟩

/-- Ending the alarm of another event changes nothing here. -/
theorem EventClosed.finish_other {e e' : AlmEvent} {last : UInt8} {times : List Stamp}
    {rs : List AlmRecord} (h : EventClosed e' last times rs) (he : e' ≠ e) (now : Stamp) :
    EventClosed e' last times
      (closeNewest e.byte now rs) := by
  unfold EventClosed
  rw [ofEvent_lookmap_other he]
  exact h

/-! ## Runs of the handler -/

/-- The component with, for each event, the times it returned to normal,
latest first. -/
structure Traced where
  st : AlmState
  returns : AlmEvent → List Stamp

/-- The call finds its event back to normal. -/
def Call.Returns (c : Call) (s : AlmState) : Prop :=
  c.verdict = .judged eAlmTypeNormal ∧ s.last c.event ≠ eAlmTypeNormal

instance (c : Call) (s : AlmState) : Decidable (c.Returns s) :=
  inferInstanceAs (Decidable (_ ∧ _))

namespace Traced

/-- One evaluation, and the return it may find. -/
def eval (T : Traced) (now : AlmEvent → Stamp) (c : Call) : Traced where
  st := T.st.eval c (now c.event)
  returns := if c.Returns T.st then
      Function.update T.returns c.event (now c.event :: T.returns c.event)
    else T.returns

/-- What the system does with the history: a pass of the handler, a clear
by the user, or a restart. -/
inductive Op
  | pass (p : Pass)
  | clear
  | restart

/-- One operation of the system. -/
def step (T : Traced) : Op → Traced
  | .pass p =>
    ⟨T.st.pass p, (run (fun T c => T.eval p.now c) T (passCalls p.sample)).returns⟩
  | .clear => ⟨almRecordClear T.st, T.returns⟩
  | .restart => ⟨.powerUp T.st.fram, T.returns⟩

/-- The evaluations of a pass are those of the handler. -/
theorem run_eval_st (T : Traced) (now : AlmEvent → Stamp) (cs : List Call) :
    (run (fun T c => T.eval now c) T cs).st = runCalls T.st cs now := by
  induction cs generalizing T with
  | nil => rfl
  | cons c cs ih => exact ih _

/-- **The condition on an evaluation**: an event takes an alarm type from
normal alone, and a termination stays in the ring. -/
def CallOk (T : Traced) (c : Call) : Prop :=
  match c.verdict with
  | .judged t => T.st.last c.event ≠ t →
    if t = eAlmTypeNormal then InRing T.st.history c.event.byte
    else T.st.last c.event = eAlmTypeNormal
  | _ => True

instance (T : Traced) (c : Call) : Decidable (T.CallOk c) := by
  unfold CallOk
  split <;> infer_instance

theorem CallOk.of_judged {T : Traced} {c : Call} (h : T.CallOk c) {t : UInt8}
    (hv : c.verdict = .judged t) (hne : T.st.last c.event ≠ t) :
    if t = eAlmTypeNormal then InRing T.st.history c.event.byte
    else T.st.last c.event = eAlmTypeNormal := by
  unfold CallOk at h
  rw [hv] at h
  exact h hne

/-- **The condition on an operation**: every evaluation of a pass meets its
own in the state it is made in, and a restart finds every event normal. -/
def OpOk (T : Traced) : Op → Prop
  | .pass p => Meets (fun T c => T.eval p.now c) CallOk T (passCalls p.sample)
  | .clear => True
  | .restart => ∀ e, T.st.last e = eAlmTypeNormal

instance (T : Traced) (p : Pass) : Decidable (T.OpOk (.pass p)) :=
  inferInstanceAs (Decidable (Meets (fun T c => T.eval p.now c) CallOk T (passCalls p.sample)))

/-- The component holds a log in which every event is closed. -/
def Closing (base : Mem) (T : Traced) : Prop :=
  ∃ l, Represents base T.st.history l ∧
    ∀ e, EventClosed e (T.st.last e) (T.returns e) l.recs

/-- An evaluation that touches neither the history nor a remembered state. -/
theorem Closing.eval_same {base : Mem} {T : Traced} (h : T.Closing base) {now : AlmEvent → Stamp}
    {c : Call} (hh : (T.eval now c).st.history = T.st.history)
    (hlast : ∀ e, (T.eval now c).st.last e = T.st.last e) (hret : ¬ c.Returns T.st) :
    (T.eval now c).Closing base := by
  obtain ⟨l, hr, hcl⟩ := h
  refine ⟨l, hh ▸ hr, fun e => ?_⟩
  rw [hlast, show (T.eval now c).returns = T.returns from if_neg hret]
  exact hcl e

/-- What a judged call remembers once the state has changed. -/
theorem eval_last {T : Traced} {now : AlmEvent → Stamp} {c : Call} {t : UInt8}
    (hv : c.verdict = .judged t) (hne : T.st.last c.event ≠ t) (e : AlmEvent) :
    (T.eval now c).st.last e = if e = c.event then t else T.st.last e := by
  have hout : Outcome T.st (T.eval now c).st c.event t (now c.event) := eval_judged hv
  rcases hout.board with ⟨hl, -⟩ | ⟨-, -, hm, -⟩
  · exact absurd hl hne
  · exact AlmState.last_of_set hm e

/-- An alarm from normal: a new record in front. -/
theorem Closing.eval_raise {base : Mem} {T : Traced} (h : T.Closing base) {now : AlmEvent → Stamp}
    {c : Call} {t : UInt8} (hv : c.verdict = .judged t) (hne : T.st.last c.event ≠ t)
    (ht : t ≠ eAlmTypeNormal) (hnorm : T.st.last c.event = eAlmTypeNormal) {r : AlmRecord}
    (hre : r.almEvent = c.event.byte) (hh : (T.eval now c).st.history = T.st.history.push r) :
    (T.eval now c).Closing base := by
  obtain ⟨l, hr, hcl⟩ := h
  have hret : ¬ c.Returns T.st := fun h => h.2 hnorm
  refine ⟨_, hh ▸ hr.push r, fun e => ?_⟩
  rw [eval_last hv hne, show (T.eval now c).returns = T.returns from if_neg hret]
  -- a full ring forgets its oldest record, which closes nothing
  have hp : remember ptAlmItem r l.recs <+: r :: l.recs := List.take_prefix _ _
  refine EventClosed.of_prefix ?_ hp
  by_cases he : e = c.event
  · subst he
    rw [if_pos rfl]
    exact (hnorm ▸ hcl _).push_self hre ht
  · rw [if_neg he]
    refine (hcl e).push_other fun hb => he ?_
    exact AlmEvent.byte_injective (hb.symm.trans hre)

/-- A return to normal: the newest record of the event is closed. -/
theorem Closing.eval_settle {base : Mem} {T : Traced} (h : T.Closing base) {now : AlmEvent → Stamp}
    {c : Call} (hv : c.verdict = .judged eAlmTypeNormal) (hne : T.st.last c.event ≠ eAlmTypeNormal)
    (hin : InRing T.st.history c.event.byte)
    (hh : (T.eval now c).st.history = T.st.history.finish c.event.byte (now c.event)) :
    (T.eval now c).Closing base := by
  obtain ⟨l, hr, hcl⟩ := h
  have hret : c.Returns T.st := ⟨hv, hne⟩
  refine ⟨_, hh ▸ hr.finish hin (now c.event), fun e => ?_⟩
  rw [eval_last hv hne, show (T.eval now c).returns = _ from if_pos hret]
  by_cases he : e = c.event
  · subst he
    rw [if_pos rfl, Function.update_self]
    exact (hcl _).finish_self _
  · rw [if_neg he, Function.update_of_ne he]
    exact (hcl e).finish_other he _

/-- **One evaluation** keeps every event closed. -/
theorem Closing.eval {base : Mem} {T : Traced} (h : T.Closing base) (now : AlmEvent → Stamp)
    {c : Call} (hok : T.CallOk c) : (T.eval now c).Closing base := by
  cases hv : c.verdict with
  | marked =>
    refine h.eval_same ?_ (fun e => ?_) fun hret => by simp [Call.Returns, hv] at hret
    · rw [Traced.eval, eval_marked hv]
      cases c <;> rfl
    · rw [Traced.eval, eval_marked hv, mark_last]
  | ignored =>
    refine h.eval_same ?_ (fun e => ?_) fun hret => by simp [Call.Returns, hv] at hret
    · rw [Traced.eval, eval_ignored hv]
    · rw [Traced.eval, eval_ignored hv]
  | judged t =>
    have hout : Outcome T.st (T.eval now c).st c.event t (now c.event) := eval_judged hv
    rcases hout.history with ⟨hl, hh⟩ | ⟨hne, ht, r, hre, -, -, hh⟩ | ⟨hne, rfl, hh⟩
    · refine h.eval_same hh (fun e => ?_) fun hret => ?_
      · rcases hout with ⟨-, hs⟩ | ⟨hne, -⟩ | ⟨hne, -⟩
        · exact congrArg (AlmState.last · e) hs
        · exact absurd hl hne
        · exact absurd hl hne
      · rw [Call.Returns, hv] at hret
        exact hret.2 (hl.trans (Verdict.judged.inj hret.1))
    · -- the guard: an alarm comes from normal only
      have hnorm := hok.of_judged hv hne
      rw [if_neg ht] at hnorm
      exact h.eval_raise hv hne ht hnorm hre hh
    · -- the guard: its record is in the ring still
      have hin := hok.of_judged hv hne
      rw [if_pos rfl] at hin
      exact h.eval_settle hv hne hin hh

theorem pass_history (s : AlmState) (p : Pass) :
    (s.pass p).history = (runCalls s (passCalls p.sample) p.now).history := by
  unfold AlmState.pass almAllHandler
  dsimp only
  split <;> rfl

theorem pass_last (s : AlmState) (p : Pass) (e : AlmEvent) :
    (s.pass p).last e = (runCalls s (passCalls p.sample) p.now).last e := by
  rw [← AlmState.cell_last, ← AlmState.cell_last, AlmState.pass, almAllHandler_cell]

/-- **One operation** keeps every event closed. -/
theorem Closing.step {base : Mem} {T : Traced} (h : T.Closing base) {op : Op} (hok : T.OpOk op) :
    (T.step op).Closing base := by
  cases op with
  | pass p =>
    have hok' : Meets (fun T c => T.eval p.now c) CallOk T (passCalls p.sample) := hok
    obtain ⟨l, hr, hcl⟩ := hok'.invariant h fun _ c hT hc => hT.eval p.now hc
    rw [run_eval_st] at hr
    refine ⟨l, by rw [Traced.step, pass_history]; exact hr, fun e => ?_⟩
    have hclosed := hcl e
    rw [run_eval_st] at hclosed
    rw [Traced.step, pass_last]
    exact hclosed
  | clear =>
    obtain ⟨l, hr, hcl⟩ := h
    exact ⟨_, hr.clear, fun e => ⟨fun _ hr => absurd hr List.not_mem_nil,
      fun _ _ hr => absurd hr List.not_mem_nil⟩⟩
  | restart =>
    obtain ⟨l, hr, hcl⟩ := h
    refine ⟨l, by rw [Traced.step, hr.restart]; exact hr, fun e => ?_⟩
    -- every event was normal, and is normal after power-up
    have hl : (Traced.step T .restart).st.last e = T.st.last e := by
      rw [hok e, ← AlmState.cell_last, Traced.step, powerUp_cell]
      rfl
    rw [hl]
    exact hcl e

/-- The system as it is first switched on. -/
def init (base : Mem) : Traced := ⟨.powerUp base, fun _ => []⟩

theorem closing_init {base : Mem} (hf : Fresh base) : (init base).Closing base :=
  ⟨_, represents_powerUp hf, fun _ => ⟨fun _ hr => absurd hr List.not_mem_nil,
    fun _ _ hr => absurd hr List.not_mem_nil⟩⟩

/-- **The history is closed**: a record of an event that is normal is not
open, and its end is a time at which the event returned to normal. -/
def HistoryClosed (T : Traced) : Prop :=
  ∀ e, T.st.last e = eAlmTypeNormal → ∀ r ∈ T.st.records, r.almEvent = e.byte →
    ¬ r.IsOpen ∧ r.terminate ∈ T.returns e

theorem Closing.closed {base : Mem} {T : Traced} (h : T.Closing base) : T.HistoryClosed := by
  obtain ⟨l, hr, hcl⟩ := h
  intro e hl r hmem hre
  rw [hr.records_eq] at hmem
  exact (hcl e).2 hl r (List.mem_filter.2 ⟨hmem, by simpa using hre⟩)

/-- **Closure of the history.** From an empty history, in every run of
passes, clears and restarts in which no event passes from one alarm type
to another, no termination leaves the ring and no restart interrupts an
alarm, the history is closed in the state the run ends in. -/
theorem history_closed {base : Mem} (hf : Fresh base) (ops : List Op)
    (hok : Meets step OpOk (init base) ops) : (run step (init base) ops).HistoryClosed :=
  (hok.invariant (closing_init hf) fun _ _ hT ho => hT.step ho).closed

/-- A clear, a power alarm and its end: there is its record. -/
theorem history_closed_short :
    let T := run step (init fun _ => 0)
      [.clear, .pass overPowerBranchesOff, .pass quietBranchesOff]
    T.HistoryClosed ∧ T.st.records.length = 1 :=
  ⟨history_closed (by decide) _ ⟨trivial, by decide +kernel, by decide +kernel, trivial⟩,
    by decide +kernel⟩

/-- The factory settings in mode S, with a current of phase A on busbar A. -/
def currentPass (ia : UInt8) : Pass where
  sample := { quietSample 0x01 with
    acqBusVar := #v[{ quietBus with fIa := .ofByte ia }, quietBus] }
  now := fun _ => default

/-- A current that passes the first limit, then the second, and falls back
leaves two records. The older is never closed. -/
theorem first_record_stays_open :
    ¬ ∀ base, Fresh base → ∀ ops, (run step (init base) ops).HistoryClosed := by
  intro h
  let ops : List Op :=
    [.pass (currentPass 180), .pass (currentPass 250), .pass (currentPass 10)]
  obtain ⟨hnormal, r, hr, hre, ho⟩ :
      (run step (init fun _ => 0) ops).st.last (.bus eAlmEventAIa) = eAlmTypeNormal ∧
        ∃ r ∈ (run step (init fun _ => 0) ops).st.records,
          r.almEvent = (AlmEvent.bus eAlmEventAIa).byte ∧ r.IsOpen := by
    decide +kernel
  exact (h (fun _ => 0) (by decide) ops _ hnormal r hr hre).1 ho

end Traced

end BusMonitor
