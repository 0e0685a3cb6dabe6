import BusMonitor.RTOS.QueueWaiters
/-!
# Every step at the queue

The steps of `QueueSystem.step` one by one: each keeps the tasks, the lists
and the locks together. An interrupt needs room in the lock for that, which
is a count of eight bits.
-/


namespace BusMonitor

namespace QueueSystem

variable {τ : Type*} [DecidableEq τ] {s s' : QueueSystem τ} {t u : τ} {p : Party} {st : TaskState}

/-! ## The list -/

omit [DecidableEq τ] in
theorem mem_listInsert {uxPriority : τ → Nat} {l : List τ} :
    u ∈ listInsert uxPriority t l ↔ u = t ∨ u ∈ l := by
  induction l with
  | nil => rw [listInsert, List.mem_singleton, or_iff_left (List.not_mem_nil)]
  | cons v l ih =>
    unfold listInsert
    split
    · rw [List.mem_cons]
    · rw [List.mem_cons, ih, List.mem_cons, or_left_comm]

omit [DecidableEq τ] in
theorem nodup_listInsert {uxPriority : τ → Nat} {l : List τ} (hl : l.Nodup) (ht : t ∉ l) :
    (listInsert uxPriority t l).Nodup := by
  induction l with
  | nil => exact List.nodup_singleton t
  | cons v l ih =>
    rw [List.nodup_cons] at hl
    rw [List.mem_cons, not_or] at ht
    unfold listInsert
    split
    · exact List.nodup_cons.2 ⟨by rw [List.mem_cons, not_or]; exact ht, List.nodup_cons.2 hl⟩
    · refine List.nodup_cons.2 ⟨?_, ih hl.2 ht.2⟩
      rw [mem_listInsert, not_or]
      exact ⟨Ne.symm ht.1, hl.1⟩

/-! ## The steps of a task -/

section steps

variable {c : QueueCall}

/-- A task that waits nowhere goes on to something else. -/
theorem Tidy.goto_of_idle (h : s.Tidy) (hrun : s.MayRun t)
    (hidle : ∀ p, waitsAt p (s.task t) = false) (hsus : suspends st = suspends (s.task t))
    (hlocks : ∀ p, locks p st = locks p (s.task t)) (hst : ∀ c, st ≠ some (c, .blocked)) :
    (s.goto t st).Tidy :=
  h.goto hrun hsus hlocks (fun p hmem => absurd hmem (h.notMem (hidle p)))
    fun c hc => absurd hc (hst c)

omit [DecidableEq τ] in
theorem waitsAt_of_task {spot : QueueSpot} (htask : s.task t = some (c, spot))
    (hblocked : spot ≠ .blocked) (hplaced : spot.isPlaced = false) (p : Party) :
    waitsAt p (s.task t) = false := by
  rw [Bool.eq_false_iff]
  intro hw
  obtain ⟨c', spot', htask', -, hor⟩ := waitsAt_iff.1 hw
  rw [htask] at htask'
  cases htask'
  rcases hor with hc | hc
  · exact hblocked hc
  · rw [hplaced] at hc
    cases hc

theorem Tidy.call (h : s.Tidy) (hrun : s.MayRun t) (htask : s.task t = none) :
    (s.goto t (some (c, .critical))).Tidy := by
  refine h.goto_of_idle hrun (fun p => ?_) ?_ (fun p => ?_) fun c' hc => by cases hc
  · rw [htask]
    rfl
  · rw [htask]
    rfl
  · rw [htask]
    rfl

/-- The scheduler is not suspended, before and after. -/
theorem Tidy.goto_of_free (h : s.Tidy) (hrun : s.MayRun t) {spot : QueueSpot}
    (htask : s.task t = some (c, spot)) (hspot : spot ≠ .blocked)
    (hfree : spot.suspends = false) (hsus : suspends st = false)
    (hst : ∀ c, st ≠ some (c, .blocked)) : (s.goto t st).Tidy := by
  have hplaced : spot.isPlaced = false := by
    cases spot with
    | unlockTx r => cases hfree
    | unlockRx r => cases hfree
    | resumeAll r => cases hfree
    | _ => rfl
  have hlocks : ∀ {st : TaskState} (p : Party), suspends st = false → locks p st = false := by
    intro st p hst
    rw [Bool.eq_false_iff]
    intro hc
    rw [suspends_of_locks hc] at hst
    cases hst
  have hself : suspends (s.task t) = false := by
    rw [htask]
    exact hfree
  refine h.goto_of_idle hrun (waitsAt_of_task htask hspot hplaced) ?_ (fun p => ?_) hst
  · rw [hsus, hself]
  · rw [hlocks p hsus, hlocks p hself]

omit [DecidableEq τ] in
theorem Tidy.done (h : s.Tidy) (q : RtosQueue) (op : QueueOp) (r : QueueResult) :
    (s.done q op r).Tidy :=
  ⟨h.suspender, h.held, h.unheld, h.nodup, h.listed, h.blocked⟩

/-- An operation done in the critical section, and a task told of it. -/
theorem Tidy.succeed (h : s.Tidy) (hrun : s.MayRun t) (htask : s.task t = some (c, .critical))
    (q : RtosQueue) (op : QueueOp) (r : QueueResult) (p : Party) :
    (((s.done q op r).wake p).goto t none).Tidy := by
  have hwoken : ((s.done q op r).wake p).Tidy := (h.done q op r).wake p
  have hrun' : ((s.done q op r).wake p).MayRun t := by
    unfold MayRun
    rwa [suspender_wake]
  have hstay : ((s.done q op r).wake p).task t = some (c, .critical) := by
    refine (task_wake fun c' hc => ?_).trans htask
    rw [show (s.done q op r).task t = s.task t from rfl, htask] at hc
    cases hc
  exact hwoken.goto_of_free hrun' hstay (by decide) rfl rfl fun c hc => by cases hc

theorem Tidy.unsuccessful (h : s.Tidy) (hrun : s.MayRun t)
    (htask : s.task t = some (c, .critical)) : (s.unsuccessful t c).Tidy := by
  unfold QueueSystem.unsuccessful
  split
  · exact h.goto_of_free hrun htask (by decide) rfl rfl fun c' hc => by cases hc
  · exact h.goto_of_free hrun htask (by decide) rfl rfl fun c' hc => by cases hc

theorem Tidy.criticalSection (h : s.Tidy) (hrun : s.MayRun t)
    (htask : s.task t = some (c, .critical)) : (s.criticalSection t c).Tidy := by
  cases c with
  | receive peek waits =>
    unfold QueueSystem.criticalSection
    dsimp only
    split
    · exact h.succeed hrun htask _ _ _ _
    · exact h.unsuccessful hrun htask
  | send item pos waits =>
    unfold QueueSystem.criticalSection
    dsimp only
    split
    · exact h.succeed hrun htask _ _ _ _
    · exact h.unsuccessful hrun htask

theorem Tidy.suspendAll (h : s.Tidy) (hrun : s.MayRun t)
    (htask : s.task t = some (c, .suspendAll)) :
    Tidy { s.goto t (some (c, .lockQueue)) with suspender := some t } := by
  have hidle := waitsAt_of_task htask (by decide) rfl
  refine h.ran hrun rfl rfl (fun p hp => by cases hp) (fun p _ => ?_) h.nodup
    (fun _ _ _ => Iff.rfl) (fun p hmem => absurd hmem (h.notMem (hidle p))) fun c' hc => by cases hc
  refine h.lock_eq hrun ?_
  rw [htask]
  rfl

theorem Tidy.lockQueue (h : s.Tidy) (hrun : s.MayRun t)
    (htask : s.task t = some (c, .lockQueue)) :
    (s.prvLockQueue.goto t (some (c, .checkForTimeOut))).Tidy := by
  have hidle := waitsAt_of_task htask (by decide) rfl
  refine h.ran hrun rfl ?_ (fun p _ => ?_) (fun p hp => by cases hp) h.nodup
    (fun _ _ _ => Iff.rfl) (fun p hmem => absurd hmem (h.notMem (hidle p))) fun c' hc => by cases hc
  · refine (h.suspender_eq hrun).trans ?_
    rw [htask]
    rfl
  · have hfree : s.lock p = queueUnlocked := h.lock_eq hrun (by rw [htask]; rfl)
    unfold prvLockQueue
    dsimp only [QueueSystem.goto]
    rw [if_pos hfree]
    decide

theorem Tidy.goto_of_check (h : s.Tidy) (hrun : s.MayRun t)
    (htask : s.task t = some (c, .checkForTimeOut)) {next : QueueSpot}
    (hsus : next.suspends = true) (hlocks : ∀ p, next.locks p = true) :
    (s.goto t (some (c, next))).Tidy := by
  refine h.goto_of_idle hrun (waitsAt_of_task htask (by decide) rfl) ?_ (fun p => ?_) ?_
  · rw [htask]
    exact hsus
  · rw [htask]
    exact hlocks p
  · intro c' hc
    cases hc
    cases hsus

theorem Tidy.place (h : s.Tidy) (hrun : s.MayRun t) (uxPriority : τ → Nat)
    (htask : s.task t = some (c, .placeOnEventList)) :
    Tidy { s.goto t (some (c, .unlockTx .placed)) with
      eventList := Function.update s.eventList c.party
        (listInsert uxPriority t (s.eventList c.party)) } := by
  have hidle := waitsAt_of_task htask (by decide) rfl
  have hnot : ∀ p, t ∉ s.eventList p := fun p => h.notMem (hidle p)
  refine h.ran hrun rfl ?_ (fun p _ => ?_) (fun p hp => by cases hp) (fun p => ?_)
    (fun p u hu => ?_) (fun p hmem => ?_) fun c' hc => by cases hc
  · refine (h.suspender_eq hrun).trans ?_
    rw [htask]
    rfl
  · refine h.held p t ?_
    rw [htask]
    rfl
  · dsimp only
    rcases eq_or_ne p c.party with rfl | hp
    · rw [Function.update_self]
      exact nodup_listInsert (h.nodup _) (hnot _)
    · rw [Function.update_of_ne hp]
      exact h.nodup p
  · dsimp only
    rcases eq_or_ne p c.party with rfl | hp
    · rw [Function.update_self, mem_listInsert, or_iff_right hu]
    · rw [Function.update_of_ne hp]
  · dsimp only at hmem
    rcases eq_or_ne p c.party with rfl | hp
    · exact waitsAt_iff.2 ⟨c, _, rfl, rfl, .inr rfl⟩
    · rw [Function.update_of_ne hp] at hmem
      exact absurd hmem (hnot p)

theorem Tidy.resumeAll (h : s.Tidy) (hrun : s.MayRun t) {r : LockedResult}
    (htask : s.task t = some (c, .resumeAll r)) :
    Tidy { s.goto t (s.resumed t c r) with suspender := none } := by
  have hsus : suspends (s.resumed t c r) = false := by
    unfold resumed
    split
    · split <;> rfl
    · rfl
    · split <;> rfl
  have hlocks : ∀ p, locks p (s.resumed t c r) = false := fun p => by
    rw [Bool.eq_false_iff]
    intro hc
    rw [suspends_of_locks hc] at hsus
    cases hsus
  refine h.ran hrun rfl ?_ (fun p hp => ?_) (fun p _ => ?_) h.nodup (fun _ _ _ => Iff.rfl)
    (fun p hmem => ?_) fun c' hc => ?_
  · rw [hsus]
    rfl
  · rw [hlocks p] at hp
    cases hp
  · refine h.lock_eq hrun ?_
    rw [htask]
    rfl
  · -- only a task that was placed is still in its list
    obtain ⟨c', spot, htask', hparty, hor⟩ := waitsAt_iff.1 (h.listed p t hmem)
    rw [htask] at htask'
    cases htask'
    have hmem' : t ∈ s.eventList c.party := hparty ▸ hmem
    cases r with
    | placed =>
      refine waitsAt_iff.2 ⟨c, .blocked, ?_, hparty, .inl rfl⟩
      unfold resumed
      exact if_pos hmem'
    | again => simp [QueueSpot.isPlaced] at hor
    | expired => simp [QueueSpot.isPlaced] at hor
  · unfold resumed at hc
    split at hc
    · split at hc
      · next hmem =>
        cases hc
        exact hmem
      · cases hc
    · cases hc
    · split at hc <;> cases hc

/-- **A task runs on.** -/
theorem Tidy.runTask (h : s.Tidy) (hrun : s.MayRun t) (uxPriority : τ → Nat) (timedOut : Bool)
    {spot : QueueSpot} (htask : s.task t = some (c, spot)) :
    (s.runTask uxPriority t timedOut c spot).Tidy := by
  cases spot with
  | critical => exact h.criticalSection hrun htask
  | suspendAll => exact h.suspendAll hrun htask
  | lockQueue => exact h.lockQueue hrun htask
  | checkForTimeOut =>
    unfold QueueSystem.runTask
    dsimp only
    split
    · exact h.goto_of_check hrun htask rfl fun _ => rfl
    · split
      · exact h.goto_of_check hrun htask rfl fun _ => rfl
      · exact h.goto_of_check hrun htask rfl fun _ => rfl
  | placeOnEventList => exact h.place hrun uxPriority htask
  | unlockTx r =>
    refine h.prvUnlock hrun htask rfl rfl (fun p => ?_) fun hr => ?_
    · cases p <;> rfl
    · cases r <;> first | rfl | cases hr
  | unlockRx r =>
    refine h.prvUnlock hrun htask rfl rfl (fun p => ?_) fun hr => ?_
    · cases p <;> rfl
    · cases r <;> first | rfl | cases hr
  | resumeAll r => exact h.resumeAll hrun htask
  | blocked => exact h
  | lastLook =>
    unfold QueueSystem.runTask
    dsimp only
    split
    · exact h.goto_of_free hrun htask (by decide) rfl rfl fun c' hc => by cases hc
    · exact h.goto_of_free hrun htask (by decide) rfl rfl fun c' hc => by cases hc

/-- **An interrupt** leaves the lists of a locked queue alone. -/
theorem Tidy.notifyFromISR (h : s.Tidy) (p : Party)
    (hroom : s.lock p ≠ queueUnlocked → s.lock p < 127) : (s.notifyFromISR p).Tidy := by
  unfold QueueSystem.notifyFromISR
  split
  · exact h.wake p
  · next hlocked =>
    refine ⟨h.suspender, fun p' u hu => ?_, fun p' hall => ?_, h.nodup, h.listed, h.blocked⟩
    · have hheld := h.held p' u hu
      dsimp only
      rcases eq_or_ne p' p with rfl | hp
      · rw [Function.update_self]
        exact (lock_succ hheld (hroom hlocked)).1
      · rwa [Function.update_of_ne hp]
    · have hfree := h.unheld p' hall
      dsimp only
      rcases eq_or_ne p' p with rfl | hp
      · exact absurd hfree hlocked
      · rwa [Function.update_of_ne hp]

/-- The tick takes a task off the list. -/
theorem Tidy.unblock (h : s.Tidy) : (s.unblock t).Tidy := by
  unfold QueueSystem.unblock
  split
  · next c hsuspender htask =>
    have hwaits : ∀ p, p ≠ c.party → waitsAt p (s.task t) = false := by
      intro p hp
      rw [Bool.eq_false_iff]
      intro hw
      obtain ⟨c', spot, htask', hparty, -⟩ := waitsAt_iff.1 hw
      rw [htask] at htask'
      cases htask'
      exact hp hparty.symm
    have hrun : s.MayRun t := .inl hsuspender
    refine h.ran hrun rfl hsuspender (fun p hp => by cases hp) (fun p _ => ?_)
      (fun p => ?_) (fun p u hu => ?_) (fun p hmem => ?_) fun c' hc => by cases hc
    · refine h.lock_eq hrun ?_
      rw [htask]
      rfl
    · dsimp only
      rcases eq_or_ne p c.party with rfl | hp
      · rw [Function.update_self]
        exact (h.nodup _).erase t
      · rw [Function.update_of_ne hp]
        exact h.nodup p
    · dsimp only
      rcases eq_or_ne p c.party with rfl | hp
      · rw [Function.update_self, List.mem_erase_of_ne hu]
      · rw [Function.update_of_ne hp]
    · dsimp only at hmem
      rcases eq_or_ne p c.party with rfl | hp
      · rw [Function.update_self] at hmem
        exact absurd hmem (h.nodup _).not_mem_erase
      · rw [Function.update_of_ne hp] at hmem
        exact absurd hmem (h.notMem (hwaits p hp))
  · exact h

end steps

/-- The lock of a party has room for what an interrupt does. -/
def LockRoom (s : QueueSystem τ) : QueueAct τ → Prop
  | .sendFromISR _ _ => s.lock .receiver ≠ queueUnlocked → s.lock .receiver < 127
  | .receiveFromISR => s.lock .sender ≠ queueUnlocked → s.lock .sender < 127
  | _ => True

end QueueSystem

end BusMonitor
