import BusMonitor.RTOS.QueueNotices
/-!
# Nobody waits in vain

A task in the list of a queue is told when there is something for it, and
told by whom there is: by the one who has put it there, by the one who has
left it there, or by the one who unlocks the queue. So while the queue is
not locked there is a task on its way for each message, as long as there
are tasks that wait for one, and the same of the places for messages:
`waiters_served`. What the calls return is the history of a list:
`history_of_items`.
-/


namespace BusMonitor

open Stepwise Wakeup

/-- The queue may be sent to as it is. -/
def QueueAct.Allowed {τ : Type*} (n size : Nat) : QueueAct τ → Prop
  | .call _ c => c.op.Allowed n size
  | .sendFromISR _ xCopyPosition => xCopyPosition.Allowed n size
  | _ => True

/-- Interrupts that only send, and do not overwrite. -/
def QueueAct.Plain {τ : Type*} : QueueAct τ → Prop
  | .sendFromISR _ xCopyPosition => xCopyPosition ≠ .overwrite
  | .receiveFromISR => False
  | _ => True

namespace QueueSystem

variable {τ : Type*} {s s' : QueueSystem τ} {t u : τ} {p p' : Party} {st : TaskState}

section keeps

variable [Fintype τ] [DecidableEq τ] {c : QueueCall}

/-! ## Every step -/

section steps

variable {n size : Nat}

/-- Who is about to go to the list has found nothing, and what has come
since is in the lock. -/
def Placing (s : QueueSystem τ) : Prop :=
  ∀ t c, s.task t = some (c, .placeOnEventList) → s.available c.party ≤ s.owed c.party

/-- A task goes on that was not on its way. -/
theorem Keeps.ran_of_not (h : s.Keeps p) (hnot : ¬ s.Coming p t) (hqueue : s'.queue = s.queue)
    (htask : ∀ u ≠ t, s'.task u = s.task u) (hlist : s'.eventList p = s.eventList p)
    (howed : s.owed p ≤ s'.owed p) : s'.Keeps p :=
  h.ran hqueue htask hlist howed fun hc => absurd hc hnot

theorem Keeps.goto_of_not (h : s.Keeps p) (hnot : ¬ s.Coming p t) : (s.goto t st).Keeps p :=
  h.ran_of_not hnot rfl (fun _ hu => task_goto_of_ne hu) rfl le_rfl

/-- Nothing there, nothing lost. -/
theorem Keeps.unsuccessful (h : s.Keeps p) (htask : s.task t = some (c, .critical))
    (hzero : s.available c.party = 0) : (s.unsuccessful t c).Keeps p := by
  have hgoto : ∀ st : TaskState, (s.goto t st).Keeps p := fun st =>
    h.ran rfl (fun _ hu => task_goto_of_ne hu) rfl le_rfl fun hc =>
      .inr (hc.party htask ▸ hzero)
  unfold QueueSystem.unsuccessful
  split
  · exact hgoto _
  · exact hgoto _

/-- **The critical section.** -/
theorem Tidy.keeps_criticalSection (h : s.Tidy) (hs : s.Sized n size) (hk : ∀ p, s.Keeps p)
    (htask : s.task t = some (c, .critical)) (p : Party) : (s.criticalSection t c).Keeps p := by
  have hallowed := hs.allowed t c _ htask
  have hlen := hs.uxLength
  have hcount := hs.count
  have hne : Party.receiver ≠ Party.sender := by decide
  cases c with
  | receive peek waits =>
    unfold QueueSystem.criticalSection
    dsimp only
    split
    · next q bs hq =>
      obtain ⟨hlen', -, hmessages⟩ := receive_counts hq
      cases peek with
      | false =>
        cases p with
        | receiver =>
          refine h.keeps_taken htask (hk .receiver) hne rfl (.inl ?_)
          exact hmessages.le
        | sender =>
          refine h.keeps_told htask (hk .sender) hne ?_
          change q.uxLength - q.uxMessagesWaiting ≤ s.queue.uxLength - s.queue.uxMessagesWaiting + 1
          simp only [Bool.false_eq_true, if_false] at hmessages
          omega
      | true =>
        cases p with
        | receiver => exact h.keeps_passed htask (hk .receiver) rfl hmessages
        | sender =>
          refine h.keeps_unconcerned htask (hk .sender) hne.symm hne ?_
          change q.uxLength - q.uxMessagesWaiting ≤ s.queue.uxLength - s.queue.uxMessagesWaiting
          simp only [if_true] at hmessages
          omega
    · next hq => exact (hk p).unsuccessful htask (empty_of_receive hq)
  | send item pos waits =>
    rw [← hlen, ← hs.uxItemSize] at hallowed
    rw [← hlen] at hcount
    unfold QueueSystem.criticalSection
    dsimp only
    split
    · next q hq =>
      obtain ⟨hlen', -, hmore, hle, hor⟩ := send_counts hallowed hcount hq
      cases p with
      | receiver => exact h.keeps_told htask (hk .receiver) hne.symm hmore
      | sender =>
        refine h.keeps_taken htask (hk .sender) hne.symm rfl ?_
        change q.uxLength - q.uxMessagesWaiting + 1 ≤ s.queue.uxLength - s.queue.uxMessagesWaiting ∨
          q.uxLength - q.uxMessagesWaiting = 0
        omega
    · next hq =>
      refine (hk p).unsuccessful htask ?_
      change s.queue.uxLength - s.queue.uxMessagesWaiting = 0
      rw [full_of_send hcount hq, Nat.sub_self]

/-- **Unlocking** tells as many as there are notices. -/
theorem Tidy.keeps_prvUnlock (h : s.Tidy) (hk : s.Keeps p) {w : Party} {spot next : QueueSpot}
    (htask : s.task t = some (c, spot)) (hspot : spot.suspends = true)
    (hplaced : spot.isPlaced = true → next.isPlaced = true) :
    ((s.prvUnlock w).goto t (some (c, next))).Keeps p := by
  obtain ⟨-, -, hqueue, -⟩ := frame_unlockLoop (s.lock w).toInt.toNat s w
  have hself : (unlockLoop w (s.lock w).toInt.toNat s).task t = some (c, spot) := by
    refine (task_unlockLoop fun c' hc => ?_).trans htask
    rw [htask] at hc
    cases hc
    cases hspot
  -- who comes then still comes when the task has gone on
  have hcoming : (unlockLoop w (s.lock w).toInt.toNat s).coming p ⊆
      ((s.prvUnlock w).goto t (some (c, next))).coming p := by
    refine coming_subset (t := t) (fun u hu => task_goto_of_ne hu) (fun _ _ => Iff.rfl) ?_
    rintro ⟨c', spot', htask', hparty, hor⟩
    rw [hself] at htask'
    cases htask'
    refine ⟨c, next, task_goto_self, hparty, .inr ?_⟩
    rcases hor with rfl | ⟨hin, hnot⟩
    · cases hspot
    · exact ⟨hplaced hin, hnot⟩
  have havailable : ((s.prvUnlock w).goto t (some (c, next))).available p = s.available p :=
    available_congr hqueue p
  unfold Keeps
  rw [havailable]
  rcases eq_or_ne p w with rfl | hp
  · have howed : ((s.prvUnlock p).goto t (some (c, next))).owed p = 0 :=
      owed_of_unlocked (lock_prvUnlock s p)
    have hlist : ((s.prvUnlock p).goto t (some (c, next))).eventList p =
        (s.eventList p).drop (s.owed p) := eventList_unlockLoop
    rw [howed, hlist]
    refine Kept.release hk (h.nodup p) (fun u hu hc => ?_) ?_
    · exact h.not_coming hu (mem_coming.1 hc)
    · exact (h.coming_unlockLoop _).trans hcoming
  · have howed : ((s.prvUnlock w).goto t (some (c, next))).owed p = s.owed p := by
      have hkeep : ((s.prvUnlock w).goto t (some (c, next))).lock p = s.lock p :=
        lock_prvUnlock_of_ne s hp
      unfold owed
      rw [hkeep]
    have hlist : ((s.prvUnlock w).goto t (some (c, next))).eventList p = s.eventList p :=
      eventList_unlockLoop_of_ne hp
    rw [howed, hlist]
    exact Kept.mono hk id le_rfl ((h.coming_unlockLoop_of_ne _ w p).trans hcoming) le_rfl

/-- **Going to the list**, when what has come is in the lock. -/
theorem Keeps.place (hk : s.Keeps p) (hplacing : s.Placing) {uxPriority : τ → Nat}
    (htask : s.task t = some (c, .placeOnEventList)) :
    Keeps { s.goto t (some (c, .unlockTx .placed)) with
      eventList := Function.update s.eventList c.party
        (listInsert uxPriority t (s.eventList c.party)) } p := by
  rcases eq_or_ne p c.party with rfl | hp
  · exact kept_of_le (hplacing t c htask)
  · exact hk.ran_of_not (t := t) (not_coming_of_task htask (by decide) rfl) rfl
      (fun _ hu => task_goto_of_ne hu) (Function.update_of_ne hp _ _) le_rfl

/-- Who was taken off the list already goes to the head of the loop. -/
theorem Keeps.resumeAll (hk : s.Keeps p) {r : LockedResult}
    (htask : s.task t = some (c, .resumeAll r)) :
    Keeps { s.goto t (s.resumed t c r) with suspender := none } p := by
  refine hk.ran (t := t) rfl (fun _ hu => task_goto_of_ne hu) rfl le_rfl fun hc => .inl ?_
  obtain ⟨c', spot, htask', hparty, hor⟩ := hc
  rw [htask] at htask'
  cases htask'
  rcases hor with hc | ⟨hplaced, hnot⟩
  · cases hc
  · cases r with
    | placed =>
      rw [← hparty] at hnot
      exact ⟨c, .critical, task_goto_self.trans (if_neg hnot), hparty, .inl rfl⟩
    | again => cases hplaced
    | expired => cases hplaced

/-- **A task runs on.** -/
theorem Tidy.keeps_runTask (h : s.Tidy) (hs : s.Sized n size) (hk : ∀ p, s.Keeps p)
    (hplacing : s.Placing) (hrun : s.MayRun t) (uxPriority : τ → Nat) (timedOut : Bool)
    {spot : QueueSpot} (htask : s.task t = some (c, spot)) (p : Party) :
    (s.runTask uxPriority t timedOut c spot).Keeps p := by
  cases spot with
  | critical => exact h.keeps_criticalSection hs hk htask p
  | suspendAll =>
    exact (hk p).ran_of_not (t := t) (not_coming_of_task htask (by decide) rfl) rfl
      (fun _ hu => task_goto_of_ne hu) rfl le_rfl
  | lockQueue =>
    refine (hk p).ran_of_not (t := t) (not_coming_of_task htask (by decide) rfl) rfl
      (fun _ hu => task_goto_of_ne hu) rfl ?_
    -- the lock of a queue that is not locked owes nothing
    have hfree : s.lock p = queueUnlocked := h.lock_eq hrun (by rw [htask]; rfl)
    rw [owed_of_unlocked hfree]
    exact Nat.zero_le _
  | checkForTimeOut =>
    have hnot : ¬ s.Coming p t := not_coming_of_task htask (by decide) rfl
    unfold QueueSystem.runTask
    dsimp only
    split
    · exact (hk p).goto_of_not hnot
    · split
      · exact (hk p).goto_of_not hnot
      · exact (hk p).goto_of_not hnot
  | placeOnEventList => exact (hk p).place hplacing htask
  | unlockTx r =>
    refine h.keeps_prvUnlock (hk p) htask rfl fun hr => ?_
    cases r <;> first | rfl | cases hr
  | unlockRx r =>
    refine h.keeps_prvUnlock (hk p) htask rfl fun hr => ?_
    cases r <;> first | rfl | cases hr
  | resumeAll r => exact (hk p).resumeAll htask
  | blocked => exact hk p
  | lastLook =>
    have hnot : ¬ s.Coming p t := not_coming_of_task htask (by decide) rfl
    unfold QueueSystem.runTask
    dsimp only
    split
    · exact (hk p).goto_of_not hnot
    · exact (hk p).goto_of_not hnot

omit [Fintype τ] [DecidableEq τ] in
/-- Nobody else is about to go to the list. -/
theorem Tidy.placing_of (h : s.Tidy) (hrun : s.MayRun t)
    (hself : ∀ c, s.task t ≠ some (c, .placeOnEventList)) : s.Placing := by
  intro u c hu
  rcases eq_or_ne u t with rfl | hne
  · exact absurd hu (hself c)
  · have hother := h.other hrun hne
    rw [hu] at hother
    cases hother

omit [Fintype τ] in
theorem suspender_criticalSection (s : QueueSystem τ) (t : τ) (c : QueueCall) :
    (s.criticalSection t c).suspender = s.suspender := by
  unfold QueueSystem.criticalSection QueueSystem.unsuccessful
  repeat' split
  all_goals first | rfl | exact suspender_wake _ _

omit [Fintype τ] in
theorem task_criticalSection (s : QueueSystem τ) (t : τ) (c : QueueCall) :
    (s.criticalSection t c).task t = none ∨
      (s.criticalSection t c).task t = some (c, .suspendAll) := by
  unfold QueueSystem.criticalSection QueueSystem.unsuccessful
  repeat' split
  all_goals first | exact .inl task_goto_self | exact .inr task_goto_self

omit [Fintype τ] in
/-- The scheduler is not suspended by anybody else. -/
theorem mayRun_runTask (hrun : s.MayRun t) (uxPriority : τ → Nat) (timedOut : Bool)
    (c : QueueCall) (spot : QueueSpot) : (s.runTask uxPriority t timedOut c spot).MayRun t := by
  cases spot with
  | critical =>
    unfold MayRun
    rwa [QueueSystem.runTask, suspender_criticalSection]
  | suspendAll => exact .inr rfl
  | checkForTimeOut =>
    unfold QueueSystem.runTask
    dsimp only
    repeat' split
    all_goals exact hrun
  | unlockTx r =>
    obtain ⟨-, hsuspender, -, -⟩ := frame_unlockLoop (s.lock .receiver).toInt.toNat s .receiver
    unfold MayRun
    rw [show (s.runTask uxPriority t timedOut c (.unlockTx r)).suspender = s.suspender
      from hsuspender]
    exact hrun
  | unlockRx r =>
    obtain ⟨-, hsuspender, -, -⟩ := frame_unlockLoop (s.lock .sender).toInt.toNat s .sender
    unfold MayRun
    rw [show (s.runTask uxPriority t timedOut c (.unlockRx r)).suspender = s.suspender
      from hsuspender]
    exact hrun
  | resumeAll r => exact .inl rfl
  | lastLook =>
    unfold QueueSystem.runTask
    dsimp only
    split
    · exact hrun
    · exact hrun
  | _ => exact hrun

omit [Fintype τ] in
/-- A task finds nothing before it goes to the list. -/
theorem Tidy.placing_runTask (h : s.Tidy) (hplacing : s.Placing)
    (hrun : s.MayRun t) (uxPriority : τ → Nat) (timedOut : Bool) {spot : QueueSpot}
    (htask : s.task t = some (c, spot)) :
    (s.runTask uxPriority t timedOut c spot).Placing := by
  have htidy := h.runTask hrun uxPriority timedOut htask
  have hrun' := mayRun_runTask hrun uxPriority timedOut c spot
  cases spot with
  | critical =>
    refine htidy.placing_of hrun' fun c' hc => ?_
    rcases task_criticalSection s t c with hnone | hwait
    · rw [QueueSystem.runTask, hnone] at hc
      cases hc
    · rw [QueueSystem.runTask, hwait] at hc
      cases hc
  | checkForTimeOut =>
    unfold QueueSystem.runTask at htidy hrun' ⊢
    dsimp only at htidy hrun' ⊢
    split at htidy
    · next hout =>
      rw [if_pos hout] at hrun' ⊢
      exact htidy.placing_of hrun' fun c' hc => by
        rw [task_goto_self] at hc
        cases hc
    · next hin =>
      rw [if_neg hin] at hrun' ⊢
      split at htidy
      · next hnothing =>
        rw [if_pos hnothing] at hrun' ⊢
        intro u c' hu
        rcases eq_or_ne u t with rfl | hne
        · rw [task_goto_self] at hu
          cases hu
          refine le_trans (le_of_eq ?_) (Nat.zero_le _)
          cases hparty : c.party with
          | receiver =>
            rw [hparty] at hnothing
            exact of_decide_eq_true hnothing
          | sender =>
            rw [hparty] at hnothing
            have hfull : s.queue.uxMessagesWaiting = s.queue.uxLength :=
              of_decide_eq_true hnothing
            change s.queue.uxLength - s.queue.uxMessagesWaiting = 0
            rw [hfull, Nat.sub_self]
        · have hother := htidy.other hrun' hne
          rw [hu] at hother
          cases hother
      · next hsome =>
        rw [if_neg hsome] at hrun' ⊢
        exact htidy.placing_of hrun' fun c' hc => by
          rw [task_goto_self] at hc
          cases hc
  | blocked => exact hplacing
  | resumeAll r =>
    refine htidy.placing_of hrun' fun c' hc => ?_
    have hst : s.resumed t c r = some (c', .placeOnEventList) := task_goto_self.symm.trans hc
    unfold resumed at hst
    repeat' split at hst
    all_goals cases hst
  | lastLook =>
    refine htidy.placing_of hrun' fun c' hc => ?_
    unfold QueueSystem.runTask at hc
    dsimp only at hc
    split at hc
    · rw [task_goto_self] at hc
      cases hc
    · rw [task_goto_self] at hc
      cases hc
  | _ =>
    refine htidy.placing_of hrun' fun c' hc => ?_
    have hst := task_goto_self.symm.trans hc
    cases hst

omit [Fintype τ] in
/-- An interrupt while a task is about to go to the list. -/
theorem Tidy.placing_notify (h : s.Tidy)
    (hroom : s.lock p ≠ queueUnlocked → s.lock p < 127)
    (hplacing : ∀ t c, s.task t = some (c, .placeOnEventList) →
      s.available c.party ≤ s.owed c.party + if c.party = p then 1 else 0) :
    (s.notifyFromISR p).Placing := by
  intro u c hu
  have hlocks : ∀ q, locks q ((s.notifyFromISR p).task u) = true := fun q => by
    rw [hu]
    rfl
  have hheld : ∀ q, s.lock q ≠ queueUnlocked := by
    intro q hfree
    have hsame : locks q (s.task u) = true := by
      have hnow := hlocks q
      unfold QueueSystem.notifyFromISR at hnow
      split at hnow
      · rwa [locks_wake] at hnow
      · exact hnow
    have hnonneg := h.held q u hsame
    rw [hfree] at hnonneg
    exact absurd hnonneg (by decide)
  unfold QueueSystem.notifyFromISR at hu ⊢
  rw [if_neg (hheld p)] at hu ⊢
  have hself : s.task u = some (c, .placeOnEventList) := hu
  have hle := hplacing u c hself
  have hnonneg : 0 ≤ s.lock p := h.held p u (by rw [hself]; rfl)
  refine le_trans hle ?_
  unfold owed
  dsimp only
  rcases eq_or_ne c.party p with heq | hp
  · rw [if_pos heq, heq, Function.update_self, (lock_succ hnonneg (hroom (hheld p))).2]
  · rw [if_neg hp, Function.update_of_ne hp]
    exact le_rfl

/-- Everything that is kept. -/
structure Served (s : QueueSystem τ) (n size : Nat) : Prop where
  tidy : s.Tidy
  sized : s.Sized n size
  keeps : ∀ p, s.Keeps p
  placing : s.Placing

omit [DecidableEq τ] in
theorem served_init (n size head : Nat) (mem : Mem) : (init τ n size head mem).Served n size where
  tidy := tidy_init n size head mem
  sized := sized_init τ n size head mem
  keeps _ := .inl rfl
  placing := by rintro _ _ ⟨⟩

theorem Served.runTask (h : s.Served n size) (hrun : s.MayRun t) (uxPriority : τ → Nat)
    (timedOut : Bool) {spot : QueueSpot} (htask : s.task t = some (c, spot)) :
    (s.runTask uxPriority t timedOut c spot).Served n size where
  tidy := h.tidy.runTask hrun uxPriority timedOut htask
  sized := h.sized.runTask uxPriority timedOut htask
  keeps := h.tidy.keeps_runTask h.sized h.keeps h.placing hrun uxPriority timedOut htask
  placing := h.tidy.placing_runTask h.placing hrun uxPriority timedOut htask

theorem Served.call (h : s.Served n size) (hrun : s.MayRun t) (htask : s.task t = none)
    (hc : c.op.Allowed n size) : (s.goto t (some (c, .critical))).Served n size := by
  have htidy := h.tidy.call (c := c) hrun htask
  refine ⟨htidy, h.sized.goto_call hc _, fun p => (h.keeps p).goto_of_not ?_,
    htidy.placing_of (t := t) hrun fun c' hc => ?_⟩
  · rintro ⟨c', spot, htask', -⟩
    rw [htask] at htask'
    cases htask'
  · rw [task_goto_self] at hc
    cases hc

theorem Served.unblock (h : s.Served n size) (t : τ) : (s.unblock t).Served n size := by
  have htidy := h.tidy.unblock (t := t)
  have hsized := h.sized.unblock (t := t)
  unfold QueueSystem.unblock at htidy hsized ⊢
  split
  · next c hsuspender htask =>
    rw [hsuspender, htask] at htidy hsized
    have hnot : ∀ p, ¬ s.Coming p t := fun p => not_coming_of_task htask (by decide) rfl
    refine ⟨htidy, hsized, fun p => ?_, htidy.placing_of (t := t) (.inl hsuspender) fun c' hc => ?_⟩
    · have hlist : ∀ u ≠ t, u ∈ Function.update s.eventList c.party
          ((s.eventList c.party).erase t) p ↔ u ∈ s.eventList p := by
        intro u hu
        rcases eq_or_ne p c.party with rfl | hp
        · rw [Function.update_self, List.mem_erase_of_ne hu]
        · rw [Function.update_of_ne hp]
      refine (h.keeps p).mono (fun hnil => ?_) le_rfl
        (coming_subset (t := t) (fun u hu => task_goto_of_ne hu) hlist
          fun hc => absurd hc (hnot p)) le_rfl
      dsimp only
      rcases eq_or_ne p c.party with rfl | hp
      · rw [Function.update_self, hnil, List.erase_nil]
      · rw [Function.update_of_ne hp, hnil]
    · have hst := task_goto_self.symm.trans hc
      cases hst
  · exact h

/-- **An interrupt** has done something a party may wait for, and made
nothing for the other one. -/
theorem Served.notifyFromISR (h : s.Served n size) {q : RtosQueue} {op : QueueOp}
    {r : QueueResult} (hsized : (s.done q op r).Sized n size)
    (hmore : (s.done q op r).available p ≤ s.available p + 1)
    (hless : ∀ p' ≠ p, (s.done q op r).available p' ≤ s.available p')
    (hroom : s.lock p ≠ queueUnlocked → s.lock p < 127) :
    ((s.done q op r).notifyFromISR p).Served n size := by
  have htidy := h.tidy.done q op r
  refine ⟨htidy.notifyFromISR p hroom, hsized.notifyFromISR p, fun p' => ?_,
    htidy.placing_notify hroom fun t c htask => ?_⟩
  · rcases eq_or_ne p' p with rfl | hne
    · exact htidy.keeps_notify (h.keeps p') hmore hroom h.tidy.lock_nonneg
    · refine htidy.keeps_notify_of_ne hne ?_
      exact (h.keeps p').mono id (hless p' hne) (Finset.Subset.refl _) le_rfl
  · have hold := h.placing t c htask
    rcases eq_or_ne c.party p with heq | hne
    · rw [if_pos heq, heq]
      rw [heq] at hold
      exact hmore.trans (Nat.succ_le_succ hold)
    · rw [if_neg hne]
      exact (hless _ hne).trans hold

/-- **An interrupt sends**: a message more, and no more places. -/
theorem Served.sendFromISR (h : s.Served n size) {item : Mem} {pos : CopyPosition} {q : RtosQueue}
    (hpos : pos.Allowed n size) (hq : s.queue.send item pos = some q)
    (hroom : s.lock .receiver ≠ queueUnlocked → s.lock .receiver < 127) :
    ((s.done q (.send item pos) .pdPASS).notifyFromISR .receiver).Served n size := by
  have hsized := h.sized.send hpos hq (.send item pos) .pdPASS
  have hcount := h.sized.count
  rw [← h.sized.uxLength, ← h.sized.uxItemSize] at hpos
  rw [← h.sized.uxLength] at hcount
  obtain ⟨hlen, -, hmore, hle, hor⟩ := send_counts hpos hcount hq
  refine h.notifyFromISR hsized hmore (fun p' hne => ?_) hroom
  cases p' with
  | receiver => exact absurd rfl hne
  | sender =>
    change q.uxLength - q.uxMessagesWaiting ≤ s.queue.uxLength - s.queue.uxMessagesWaiting
    omega

/-- **An interrupt receives**: a place more, and no more messages. -/
theorem Served.receiveFromISR (h : s.Served n size) {q : RtosQueue} {bs : List UInt8}
    (hq : s.queue.receive false = some (q, bs))
    (hroom : s.lock .sender ≠ queueUnlocked → s.lock .sender < 127) :
    ((s.done q (.receive false) (.item bs)).notifyFromISR .sender).Served n size := by
  have hsized := h.sized.receive hq (.receive false) (.item bs)
  obtain ⟨hlen, -, hmessages⟩ := receive_counts hq
  simp only [Bool.false_eq_true, if_false] at hmessages
  refine h.notifyFromISR hsized ?_ (fun p' hne => ?_) hroom
  · change q.uxLength - q.uxMessagesWaiting ≤ s.queue.uxLength - s.queue.uxMessagesWaiting + 1
    omega
  · cases p' with
    | receiver =>
      change q.uxMessagesWaiting ≤ s.queue.uxMessagesWaiting
      omega
    | sender => exact absurd rfl hne

end steps

end keeps

/-! ## Runs -/

section runs

variable [DecidableEq τ] {n size : Nat} {a : QueueAct τ}

/-- The condition on a step: what the queue asserts of a send, and room in
the lock for what an interrupt does. -/
def StepOk (n size : Nat) (s : QueueSystem τ) (a : QueueAct τ) : Prop :=
  a.Allowed n size ∧ s.LockRoom a

/-- **Every step** leaves nobody waiting in vain. -/
theorem Served.step [Fintype τ] (h : s.Served n size) (uxPriority : τ → Nat)
    (ha : s.StepOk n size a) : (s.step uxPriority a).Served n size := by
  obtain ⟨hallowed, hroom⟩ := ha
  refine step_rule (P := fun s' => s'.Served n size) h ?_ ?_ ?_ ?_ ?_
  · rintro t c rfl htask hrun
    exact h.call hrun htask hallowed
  · rintro t timedOut c spot rfl htask hrun
    exact h.runTask hrun uxPriority timedOut htask
  · rintro item pos q rfl hq
    exact h.sendFromISR hallowed hq hroom
  · rintro q bs rfl hq
    exact h.receiveFromISR hq hroom
  · rintro t rfl
    exact h.unblock t

/-- The tasks are outside, or blocked. -/
def Quiet (s : QueueSystem τ) : Prop :=
  ∀ t, s.task t = none ∨ ∃ c, s.task t = some (c, .blocked)

omit [DecidableEq τ] in
/-- While a queue is not locked there is a task on its way for each
message, or each place, as long as there are tasks that wait. -/
theorem Served.available_le [Fintype τ] (h : s.Served n size) (hfree : s.lock p = queueUnlocked)
    (hlist : s.eventList p ≠ []) : s.available p ≤ (s.coming p).card := by
  have hle := (h.keeps p).resolve_left hlist
  rwa [owed_of_unlocked hfree, Nat.add_zero] at hle

omit [DecidableEq τ] in
/-- And with no task on its way there is nothing for those who wait. -/
theorem Served.available_of_quiet [Fintype τ] (h : s.Served n size) (hquiet : s.Quiet)
    {c : QueueCall} (htask : s.task t = some (c, .blocked)) : s.available c.party = 0 := by
  have hfree : s.lock c.party = queueUnlocked := by
    refine h.tidy.unheld _ fun u => ?_
    rcases hquiet u with hnone | ⟨c', hblocked⟩
    · rw [hnone]
      rfl
    · rw [hblocked]
      rfl
  have hempty : s.coming c.party = ∅ := by
    refine Finset.eq_empty_of_forall_notMem fun u hu => ?_
    obtain ⟨c', spot, hspot, -, hor⟩ := mem_coming.1 hu
    rcases hquiet u with hnone | ⟨c'', hblocked⟩
    · rw [hnone] at hspot
      cases hspot
    · rw [hblocked] at hspot
      cases hspot
      rcases hor with hc | ⟨hc, -⟩ <;> cases hc
  have hkept := h.keeps c.party
  unfold Keeps at hkept
  rw [owed_of_unlocked hfree] at hkept
  by_contra hne
  have hsome := hkept.nonempty (Nat.pos_of_ne_zero hne)
    (List.ne_nil_of_mem (h.tidy.blocked t c htask))
  exact hsome.ne_empty hempty

/-! ## Interrupts that only send -/

section plain

omit [DecidableEq τ] in
/-- A lock that counts no more than the messages of a short queue has room. -/
theorem lock_lt_of_owed (h : s.Tidy) (hn : n < 127) (hcount : s.queue.uxMessagesWaiting ≤ n)
    (howed : s.owed .receiver ≤ s.queue.uxMessagesWaiting)
    (hlocked : s.lock .receiver ≠ queueUnlocked) : s.lock .receiver < 127 := by
  have hnonneg := h.lock_nonneg hlocked
  rw [Int8.le_iff_toInt_le, Int8.toInt_zero] at hnonneg
  refine Int8.lt_iff_toInt_lt.2 ?_
  have hmax : (127 : Int8).toInt = 127 := rfl
  unfold owed at howed
  omega

theorem lock_criticalSection (s : QueueSystem τ) (t : τ) (c : QueueCall) :
    (s.criticalSection t c).lock = s.lock := by
  unfold QueueSystem.criticalSection QueueSystem.unsuccessful
  repeat' split
  all_goals first | rfl | exact lock_wake _ _

/-- What the lock of the receivers counts has been sent while it was locked. -/
theorem Tidy.owed_runTask (h : s.Tidy) (hrun : s.MayRun t)
    (howed : s.owed .receiver ≤ s.queue.uxMessagesWaiting) (uxPriority : τ → Nat)
    (timedOut : Bool) {c : QueueCall} {spot : QueueSpot} (htask : s.task t = some (c, spot)) :
    (s.runTask uxPriority t timedOut c spot).owed .receiver ≤
      (s.runTask uxPriority t timedOut c spot).queue.uxMessagesWaiting := by
  have hzero : ∀ {s' : QueueSystem τ}, s'.lock .receiver = queueUnlocked →
      s'.owed .receiver ≤ s'.queue.uxMessagesWaiting := fun hfree => by
    rw [owed_of_unlocked hfree]
    exact Nat.zero_le _
  cases spot with
  | critical =>
    refine hzero ?_
    rw [QueueSystem.runTask, lock_criticalSection]
    exact h.lock_eq hrun (by rw [htask]; rfl)
  | lockQueue =>
    have hfree : s.lock .receiver = queueUnlocked := h.lock_eq hrun (by rw [htask]; rfl)
    have hlock : (s.prvLockQueue.goto t (some (c, .checkForTimeOut))).lock .receiver =
        queueLockedUnmodified := if_pos hfree
    unfold QueueSystem.runTask owed
    rw [hlock]
    exact Nat.zero_le _
  | checkForTimeOut =>
    unfold QueueSystem.runTask
    dsimp only
    repeat' split
    all_goals exact howed
  | unlockTx r =>
    exact hzero (lock_prvUnlock s .receiver)
  | unlockRx r =>
    obtain ⟨-, -, hqueue, -⟩ := frame_unlockLoop (s.lock .sender).toInt.toNat s .sender
    have hne : Party.receiver ≠ Party.sender := by decide
    change ((s.prvUnlock .sender).lock .receiver).toInt.toNat ≤
      (unlockLoop .sender (s.lock .sender).toInt.toNat s).queue.uxMessagesWaiting
    rw [lock_prvUnlock_of_ne s hne, hqueue]
    exact howed
  | lastLook =>
    unfold QueueSystem.runTask
    dsimp only
    split
    · exact howed
    · exact howed
  | _ => exact howed

/-- A send that does not overwrite adds a message. -/
theorem send_adds {q q' : RtosQueue} {item : Mem} {pos : CopyPosition} (hpos : pos ≠ .overwrite)
    (hq : q.send item pos = some q') : q'.uxMessagesWaiting = q.uxMessagesWaiting + 1 := by
  unfold RtosQueue.send at hq
  split at hq
  · obtain rfl := Option.some.inj hq
    cases pos with
    | sendToBack => rw [RtosQueue.copy_back_eq]
    | sendToFront => rw [RtosQueue.copy_front_eq]
    | overwrite => exact absurd rfl hpos
  · cases hq

/-- **Every step** of a queue that interrupts only send to. -/
theorem Tidy.owed_step (h : s.Tidy) (howed : s.owed .receiver ≤ s.queue.uxMessagesWaiting)
    (uxPriority : τ → Nat) (hplain : a.Plain) (hroom : s.LockRoom a) :
    (s.step uxPriority a).owed .receiver ≤
      (s.step uxPriority a).queue.uxMessagesWaiting := by
  refine step_rule (P := fun s' => s'.owed .receiver ≤ s'.queue.uxMessagesWaiting) howed
    ?_ ?_ ?_ ?_ ?_
  · intro t c _ _ _
    exact howed
  · intro t timedOut c spot _ htask hrun
    exact h.owed_runTask hrun howed uxPriority timedOut htask
  · rintro item pos q rfl hq
    have hadds := send_adds hplain hq
    unfold QueueSystem.notifyFromISR
    split
    · next hfree =>
      have hwoken : ((s.done q (.send item pos) .pdPASS).wake .receiver).lock .receiver =
          queueUnlocked := (congrFun (lock_wake _ _) _).trans hfree
      rw [owed_of_unlocked hwoken]
      exact Nat.zero_le _
    · next hlocked =>
      have hsucc := (lock_succ (h.lock_nonneg hlocked) (hroom hlocked)).2
      unfold owed
      dsimp only [QueueSystem.done]
      rw [Function.update_self, hsucc, hadds]
      exact Nat.succ_le_succ howed
  · rintro q bs rfl _
    exact hplain.elim
  · intro t _
    unfold QueueSystem.unblock
    split
    · exact howed
    · exact howed

end plain

/-- **Nobody waits in vain.** Tasks call and run in any order, at any
priorities, their times are up at any time, and interrupts send: while the
queue is not locked there is a task on its way for each message, or place,
as long as tasks wait for it. Once nobody is on the way there is nothing
for those who are blocked. -/
theorem waiters_served [Fintype τ] (uxPriority : τ → Nat) {n size : Nat} (head : Nat) (mem : Mem)
    (hn : n < 127) (acts : List (QueueAct τ))
    (hacts : ∀ a ∈ acts, a.Allowed n size ∧ a.Plain) :
    let s := run (step uxPriority) (init τ n size head mem) acts
    (∀ p, s.lock p = queueUnlocked → s.eventList p ≠ [] → s.available p ≤ (s.coming p).card) ∧
      (s.Quiet → ∀ t c, s.task t = some (c, .blocked) → s.available c.party = 0) := by
  have hroom : ∀ (s : QueueSystem τ) a,
      (s.Served n size ∧ s.owed .receiver ≤ s.queue.uxMessagesWaiting) →
        a.Allowed n size ∧ a.Plain → s.StepOk n size a := by
    rintro s a ⟨hs, howed⟩ ⟨hallowed, hplain⟩
    refine ⟨hallowed, ?_⟩
    cases a with
    | sendFromISR item pos => exact lock_lt_of_owed hs.tidy hn hs.sized.count howed
    | receiveFromISR => exact hplain.elim
    | _ => trivial
  have hmeets : Meets (step uxPriority) (fun _ a => a.Allowed n size ∧ a.Plain)
      (init τ n size head mem) acts := (meets_forall _ acts).2 hacts
  have hkept : ∀ (s : QueueSystem τ) a,
      (s.Served n size ∧ s.owed .receiver ≤ s.queue.uxMessagesWaiting) →
        a.Allowed n size ∧ a.Plain → (s.step uxPriority a).Served n size ∧
          (s.step uxPriority a).owed .receiver ≤
            (s.step uxPriority a).queue.uxMessagesWaiting := by
    intro s a hs ha
    have hok := hroom s a hs ha
    exact ⟨hs.1.step uxPriority hok, hs.1.tidy.owed_step hs.2 uxPriority ha.2 hok.2⟩
  obtain ⟨hserved, -⟩ := hmeets.invariant ⟨served_init n size head mem, Nat.zero_le _⟩ hkept
  exact ⟨fun p hfree hlist => hserved.available_le hfree hlist,
    fun hquiet t c htask => hserved.available_of_quiet hquiet htask⟩

end runs

/-- A task calls at a queue of ten messages and has time for its steps. -/
def asked : List (QueueAct Bool) :=
  .call true (.receive false true) :: List.replicate 8 (.task true false)

/-- It finds the queue empty; an interrupt sends a message, the task takes
it and asks again. -/
def servedOnce : List (QueueAct Bool) :=
  asked ++ .sendFromISR (fourOf 1) .sendToBack :: .task true false :: asked

/-- It has had its message and is blocked, and there is nothing for it. -/
theorem waiters_served_blocked :
    let s := run (step fun _ => 0) (init Bool 10 4 76 fun _ => 0) servedOnce
    (∀ p, s.lock p = queueUnlocked → s.eventList p ≠ [] → s.available p ≤ (s.coming p).card) ∧
      s.task true = some (.receive false true, .blocked) ∧ s.available .receiver = 0 ∧
      s.history.map Prod.snd = [.pdPASS, .item [1, 1, 1, 1]] := by
  have hasked : ∀ a ∈ asked, a.Allowed 10 4 ∧ a.Plain := by
    intro a ha
    rcases List.mem_cons.1 ha with rfl | ha
    · exact ⟨trivial, trivial⟩
    · obtain rfl := List.eq_of_mem_replicate ha
      exact ⟨trivial, trivial⟩
  have hplain : ∀ a ∈ servedOnce, a.Allowed 10 4 ∧ a.Plain := by
    intro a ha
    rcases List.mem_append.1 ha with ha | ha
    · exact hasked a ha
    · simp only [List.mem_cons] at ha
      rcases ha with rfl | rfl | ha
      · have hallowed : CopyPosition.sendToBack.Allowed 10 4 := by decide
        have hback : CopyPosition.sendToBack ≠ .overwrite := by decide
        exact ⟨hallowed, hback⟩
      · exact ⟨trivial, trivial⟩
      · exact hasked a ha
  have hserved := waiters_served (fun _ : Bool => 0) 76 (fun _ => 0) (by omega) servedOnce hplain
  refine ⟨hserved.1, rfl, hserved.2 (fun t => ?_) true _ rfl, by decide +kernel⟩
  cases t with
  | false => exact .inl rfl
  | true => exact .inr ⟨_, rfl⟩

end QueueSystem

end BusMonitor
