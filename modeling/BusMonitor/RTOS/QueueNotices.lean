import BusMonitor.RTOS.QueueSteps
/-!
# Who is on the way to the queue

A task that waits is on its way as soon as it is taken off the list, and
until it has looked at the queue. `Keeps` sets what there is for a party
against the tasks on their way and what the lock still owes, and the
lemmas say what waking, unlocking and an operation leave of it.
-/


namespace BusMonitor

open Wakeup

namespace QueueSystem

variable {τ : Type*} {s s' : QueueSystem τ} {t u : τ} {p p' : Party} {st : TaskState}

/-- The task looks at the queue before it waits for it again: it is at the
head of the loop, or it has been taken off the list already. -/
def Coming (s : QueueSystem τ) (p : Party) (t : τ) : Prop :=
  ∃ c spot, s.task t = some (c, spot) ∧ c.party = p ∧
    (spot = .critical ∨ spot.isPlaced = true ∧ t ∉ s.eventList p)

open Classical in
/-- The tasks on their way. -/
noncomputable def coming [Fintype τ] (s : QueueSystem τ) (p : Party) : Finset τ :=
  Finset.univ.filter fun t => s.Coming p t

/-- What the lock of a party counts. -/
def owed (s : QueueSystem τ) (p : Party) : Nat := (s.lock p).toInt.toNat

@[simp] theorem mem_coming [Fintype τ] : t ∈ s.coming p ↔ s.Coming p t := by
  simp [coming]

theorem owed_of_unlocked (h : s.lock p = queueUnlocked) : s.owed p = 0 := by
  unfold owed
  rw [h]
  rfl

theorem Coming.party {c : QueueCall} {spot : QueueSpot} (h : s.Coming p t)
    (htask : s.task t = some (c, spot)) : c.party = p := by
  obtain ⟨c', spot', htask', hparty, -⟩ := h
  rw [htask] at htask'
  cases htask'
  exact hparty

theorem not_coming_of_task {c : QueueCall} {spot : QueueSpot} (htask : s.task t = some (c, spot))
    (hcritical : spot ≠ .critical) (hplaced : spot.isPlaced = false) : ¬ s.Coming p t := by
  rintro ⟨c', spot', htask', -, hor⟩
  rw [htask] at htask'
  cases htask'
  rcases hor with hc | ⟨hc, -⟩
  · exact hcritical hc
  · rw [hplaced] at hc
    cases hc

/-- A locked queue has a lock that counts. -/
theorem Tidy.lock_nonneg (h : s.Tidy) (hlocked : s.lock p ≠ queueUnlocked) : 0 ≤ s.lock p := by
  by_contra hneg
  refine hlocked (h.unheld p fun t => ?_)
  rw [Bool.eq_false_iff]
  exact fun hc => hneg (h.held p t hc)

/-! ## Who is on the way after a step -/

section coming

variable [Fintype τ] [DecidableEq τ]

/-- Of the others the same ones come. -/
theorem coming_erase_subset (htask : ∀ u ≠ t, s'.task u = s.task u)
    (hlist : ∀ u ≠ t, u ∈ s'.eventList p ↔ u ∈ s.eventList p) :
    (s.coming p).erase t ⊆ s'.coming p := by
  intro u hu
  obtain ⟨hne, hcoming⟩ := Finset.mem_erase.1 hu
  rw [mem_coming] at hcoming ⊢
  obtain ⟨c, spot, hspot, hparty, hor⟩ := hcoming
  refine ⟨c, spot, (htask u hne).trans hspot, hparty, hor.imp_right fun hplaced => ?_⟩
  exact ⟨hplaced.1, fun hc => hplaced.2 ((hlist u hne).1 hc)⟩

theorem coming_subset (htask : ∀ u ≠ t, s'.task u = s.task u)
    (hlist : ∀ u ≠ t, u ∈ s'.eventList p ↔ u ∈ s.eventList p)
    (hself : s.Coming p t → s'.Coming p t) : s.coming p ⊆ s'.coming p := by
  intro u hu
  rcases eq_or_ne u t with rfl | hne
  · exact mem_coming.2 (hself (mem_coming.1 hu))
  · exact coming_erase_subset htask hlist (Finset.mem_erase.2 ⟨hne, hu⟩)

omit [Fintype τ] [DecidableEq τ] in
/-- Who is in a list is not on the way to the queue. -/
theorem Tidy.not_coming (h : s.Tidy) (hmem : t ∈ s.eventList p) : ¬ s.Coming p' t := by
  intro hcoming
  obtain ⟨c, spot, htask, hparty, hor⟩ := waitsAt_iff.1 (h.listed p t hmem)
  obtain ⟨c', spot', htask', hparty', hor'⟩ := hcoming
  rw [htask] at htask'
  cases htask'
  -- at the head of the loop, or taken off the list
  rcases hor' with rfl | ⟨-, hnot⟩
  · rcases hor with hc | hc <;> cases hc
  · rw [← hparty', hparty] at hnot
    exact hnot hmem

/-- Waking sends nobody away. -/
theorem Tidy.coming_wake (h : s.Tidy) (p p' : Party) : s.coming p' ⊆ (s.wake p).coming p' := by
  cases hlist : s.eventList p with
  | nil => rw [wake_nil hlist]
  | cons u rest =>
    have hmem : u ∈ s.eventList p := hlist ▸ List.mem_cons_self
    refine coming_subset (t := u) (fun v hv => ?_) (fun v hv => ?_) fun hc =>
      absurd hc (h.not_coming hmem)
    · rw [wake_cons hlist]
      exact Function.update_of_ne hv _ _
    · rcases eq_or_ne p' p with rfl | hp
      · rw [eventList_wake, hlist, List.tail_cons, List.mem_cons, or_iff_right hv]
      · rw [eventList_wake_of_ne hp]

/-- **The one who is woken comes.** -/
theorem Tidy.coming_woken {rest : List τ} (h : s.Tidy) (hlist : s.eventList p = u :: rest) :
    insert u (s.coming p) ⊆ (s.wake p).coming p := by
  refine Finset.insert_subset ?_ (h.coming_wake p p)
  have hmem : u ∈ s.eventList p := hlist ▸ List.mem_cons_self
  obtain ⟨c, spot, htask, hparty, hor⟩ := waitsAt_iff.1 (h.listed p u hmem)
  have hwoken : (s.wake p).task u = readied (some (c, spot)) := by
    rw [wake_cons hlist, ← htask]
    exact Function.update_self ..
  rw [mem_coming]
  rcases hor with rfl | hplaced
  · exact ⟨c, .critical, hwoken, hparty, .inl rfl⟩
  · refine ⟨c, spot, hwoken.trans (readied_of_ne fun c' hc => ?_), hparty, .inr ⟨hplaced, ?_⟩⟩
    · cases hc
      cases hplaced
    · have hnodup := h.nodup p
      rw [hlist, List.nodup_cons] at hnodup
      rw [eventList_wake, hlist]
      exact hnodup.1

theorem Tidy.coming_unlockLoop_of_ne (h : s.Tidy) (n : Nat) (p p' : Party) :
    s.coming p' ⊆ (unlockLoop p n s).coming p' := by
  induction n generalizing s with
  | zero => exact Finset.Subset.refl _
  | succ n ih =>
    unfold unlockLoop
    split
    · exact Finset.Subset.refl _
    · exact (h.coming_wake p p').trans (ih (h.wake p))

/-- The loop wakes the first ones of the list. -/
theorem Tidy.coming_unlockLoop (h : s.Tidy) (n : Nat) :
    s.coming p ∪ ((s.eventList p).take n).toFinset ⊆ (unlockLoop p n s).coming p := by
  induction n generalizing s with
  | zero =>
    rw [List.take_zero, List.toFinset_nil, Finset.union_empty]
    exact Finset.Subset.refl _
  | succ n ih =>
    unfold unlockLoop
    split
    · next hlist =>
      rw [hlist, List.take_nil, List.toFinset_nil, Finset.union_empty]
    · next u rest hlist =>
      have hrest := ih (h.wake p)
      rw [eventList_wake, hlist, List.tail_cons] at hrest
      rw [hlist, List.take_succ_cons, List.toFinset_cons, Finset.union_insert,
        ← Finset.insert_union]
      exact (Finset.union_subset_union_left (h.coming_woken hlist)).trans hrest

end coming

/-! ## What an operation makes available -/

section counts

variable {q q' : RtosQueue} {item : Mem} {pos : CopyPosition} {bs : List UInt8}

/-- A send adds a message, or leaves a queue of one full. -/
theorem send_counts (hpos : pos.Allowed q.uxLength q.uxItemSize)
    (hle : q.uxMessagesWaiting ≤ q.uxLength) (hq : q.send item pos = some q') :
    q'.uxLength = q.uxLength ∧ q'.uxItemSize = q.uxItemSize ∧
      q'.uxMessagesWaiting ≤ q.uxMessagesWaiting + 1 ∧ q'.uxMessagesWaiting ≤ q.uxLength ∧
      (q'.uxMessagesWaiting = q.uxMessagesWaiting + 1 ∨ q'.uxMessagesWaiting = q.uxLength) := by
  unfold RtosQueue.send at hq
  split at hq
  · next hroom =>
    obtain rfl := Option.some.inj hq
    cases pos with
    | sendToBack =>
      have hlt : q.uxMessagesWaiting < q.uxLength := hroom.resolve_right (by decide)
      rw [RtosQueue.copy_back_eq]
      exact ⟨rfl, rfl, le_rfl, hlt, .inl rfl⟩
    | sendToFront =>
      have hlt : q.uxMessagesWaiting < q.uxLength := hroom.resolve_right (by decide)
      rw [RtosQueue.copy_front_eq]
      exact ⟨rfl, rfl, le_rfl, hlt, .inl rfl⟩
    | overwrite =>
      obtain ⟨hone, hsize⟩ := hpos rfl
      rw [RtosQueue.copy_overwrite_eq hsize, RtosQueue.copy_front_eq]
      dsimp only
      refine ⟨rfl, rfl, ?_, ?_, .inr ?_⟩ <;> omega
  · cases hq

theorem receive_counts {peek : Bool} (hq : q.receive peek = some (q', bs)) :
    q'.uxLength = q.uxLength ∧ q'.uxItemSize = q.uxItemSize ∧
      q'.uxMessagesWaiting + (if peek then 0 else 1) = q.uxMessagesWaiting := by
  unfold RtosQueue.receive at hq
  split at hq
  · next hpos =>
    rw [RtosQueue.copy_from_eq] at hq
    cases hq
    cases peek with
    | true => exact ⟨rfl, rfl, rfl⟩
    | false =>
      refine ⟨rfl, rfl, ?_⟩
      exact Nat.sub_add_cancel hpos
  · cases hq

/-- Nothing can be sent to a full queue. -/
theorem full_of_send (hle : q.uxMessagesWaiting ≤ q.uxLength) (hq : q.send item pos = none) :
    q.uxMessagesWaiting = q.uxLength := by
  unfold RtosQueue.send at hq
  split at hq
  · cases hq
  · next hroom => omega

theorem empty_of_receive {peek : Bool} (hq : q.receive peek = none) : q.uxMessagesWaiting = 0 := by
  unfold RtosQueue.receive at hq
  split at hq
  · cases hq
  · next hpos => omega

end counts

/-! ## The calls and the counts -/

section sized

variable [DecidableEq τ] {c : QueueCall} {n size : Nat}

/-- The queue has its size, no more messages than that, and no call that
its assertions refuse. -/
structure Sized (s : QueueSystem τ) (n size : Nat) : Prop where
  uxLength : s.queue.uxLength = n
  uxItemSize : s.queue.uxItemSize = size
  count : s.queue.uxMessagesWaiting ≤ n
  allowed : ∀ t c spot, s.task t = some (c, spot) → c.op.Allowed n size

theorem sized_init (τ : Type*) (n size head : Nat) (mem : Mem) :
    (init τ n size head mem).Sized n size :=
  ⟨rfl, rfl, Nat.zero_le _, by rintro _ _ _ ⟨⟩⟩

theorem task_goto_self : (s.goto t st).task t = st := Function.update_self ..

theorem task_goto_of_ne (hu : u ≠ t) : (s.goto t st).task u = s.task u :=
  Function.update_of_ne hu _ _

theorem Sized.goto (h : s.Sized n size)
    (hst : ∀ c spot, st = some (c, spot) → c.op.Allowed n size) :
    (s.goto t st).Sized n size := by
  refine ⟨h.uxLength, h.uxItemSize, h.count, fun u c spot hu => ?_⟩
  rcases eq_or_ne u t with rfl | hne
  · exact hst c spot (task_goto_self.symm.trans hu)
  · exact h.allowed u c spot ((task_goto_of_ne hne).symm.trans hu)

/-- A call goes on. -/
theorem Sized.goto_call (h : s.Sized n size) (hc : c.op.Allowed n size) (spot : QueueSpot) :
    (s.goto t (some (c, spot))).Sized n size := by
  refine h.goto fun c' spot' hst => ?_
  cases hst
  exact hc

theorem Sized.leave (h : s.Sized n size) : (s.goto t none).Sized n size :=
  h.goto fun _ _ hst => by cases hst

theorem Sized.wake (h : s.Sized n size) (p : Party) : (s.wake p).Sized n size := by
  refine ⟨by rw [queue_wake, h.uxLength], by rw [queue_wake, h.uxItemSize],
    by rw [queue_wake]; exact h.count, fun u c spot hu => ?_⟩
  cases hlist : s.eventList p with
  | nil =>
    rw [wake_nil hlist] at hu
    exact h.allowed u c spot hu
  | cons v rest =>
    rw [wake_cons hlist] at hu
    dsimp only at hu
    rcases eq_or_ne u v with rfl | hne
    · rw [Function.update_self] at hu
      unfold readied at hu
      split at hu
      · next c' hold =>
        cases hu
        exact h.allowed u _ _ hold
      · exact h.allowed u c spot hu
    · rw [Function.update_of_ne hne] at hu
      exact h.allowed u c spot hu

theorem Sized.prvUnlock (h : s.Sized n size) (p : Party) : (s.prvUnlock p).Sized n size := by
  have hloop : (unlockLoop p (s.lock p).toInt.toNat s).Sized n size :=
    unlockLoop_induct (P := fun s => s.Sized n size) (fun _ h => h.wake p) h
  exact ⟨hloop.uxLength, hloop.uxItemSize, hloop.count, hloop.allowed⟩

omit [DecidableEq τ] in
theorem Sized.send (h : s.Sized n size) {item : Mem} {pos : CopyPosition} {q : RtosQueue}
    (hpos : pos.Allowed n size) (hq : s.queue.send item pos = some q) (op : QueueOp)
    (r : QueueResult) : (s.done q op r).Sized n size := by
  have hcount := h.count
  rw [← h.uxLength, ← h.uxItemSize] at hpos
  rw [← h.uxLength] at hcount
  obtain ⟨hlen, hsize, -, hle, -⟩ := send_counts hpos hcount hq
  exact ⟨hlen.trans h.uxLength, hsize.trans h.uxItemSize, hle.trans h.uxLength.le, h.allowed⟩

omit [DecidableEq τ] in
theorem Sized.receive (h : s.Sized n size) {peek : Bool} {q : RtosQueue} {bs : List UInt8}
    (hq : s.queue.receive peek = some (q, bs)) (op : QueueOp) (r : QueueResult) :
    (s.done q op r).Sized n size := by
  have hcount := h.count
  obtain ⟨hlen, hsize, hmessages⟩ := receive_counts hq
  refine ⟨hlen.trans h.uxLength, hsize.trans h.uxItemSize, ?_, h.allowed⟩
  change q.uxMessagesWaiting ≤ n
  omega

theorem Sized.unsuccessful (h : s.Sized n size) (hc : c.op.Allowed n size) :
    (s.unsuccessful t c).Sized n size := by
  unfold QueueSystem.unsuccessful
  split
  · exact h.goto_call hc _
  · exact h.leave

theorem Sized.criticalSection (h : s.Sized n size) (hc : c.op.Allowed n size) :
    (s.criticalSection t c).Sized n size := by
  cases c with
  | receive peek waits =>
    unfold QueueSystem.criticalSection
    dsimp only
    split
    · next q bs hq => exact ((h.receive hq _ _).wake _).leave
    · exact h.unsuccessful hc
  | send item pos waits =>
    unfold QueueSystem.criticalSection
    dsimp only
    split
    · next q hq => exact ((h.send hc hq _ _).wake _).leave
    · exact h.unsuccessful hc

theorem Sized.runTask (h : s.Sized n size) (uxPriority : τ → Nat) (timedOut : Bool)
    {spot : QueueSpot} (htask : s.task t = some (c, spot)) :
    (s.runTask uxPriority t timedOut c spot).Sized n size := by
  have hc := h.allowed t c spot htask
  cases spot with
  | critical => exact h.criticalSection hc
  | suspendAll =>
    have hgoto := h.goto_call (t := t) hc .lockQueue
    exact ⟨hgoto.uxLength, hgoto.uxItemSize, hgoto.count, hgoto.allowed⟩
  | lockQueue =>
    have hlocked : s.prvLockQueue.Sized n size :=
      ⟨h.uxLength, h.uxItemSize, h.count, h.allowed⟩
    exact hlocked.goto_call hc _
  | checkForTimeOut =>
    unfold QueueSystem.runTask
    dsimp only
    split
    · exact h.goto_call hc _
    · split
      · exact h.goto_call hc _
      · exact h.goto_call hc _
  | placeOnEventList =>
    have hgoto := h.goto_call (t := t) hc (.unlockTx .placed)
    exact ⟨hgoto.uxLength, hgoto.uxItemSize, hgoto.count, hgoto.allowed⟩
  | unlockTx r => exact (h.prvUnlock .receiver).goto_call hc _
  | unlockRx r => exact (h.prvUnlock .sender).goto_call hc _
  | resumeAll r =>
    have hgoto : (s.goto t (s.resumed t c r)).Sized n size := by
      refine h.goto fun c' spot' hst => ?_
      unfold resumed at hst
      repeat' split at hst
      all_goals cases hst
      all_goals exact hc
    exact ⟨hgoto.uxLength, hgoto.uxItemSize, hgoto.count, hgoto.allowed⟩
  | blocked => exact h
  | lastLook =>
    unfold QueueSystem.runTask
    dsimp only
    split
    · exact h.leave
    · exact h.goto_call hc _

theorem Sized.notifyFromISR (h : s.Sized n size) (p : Party) :
    (s.notifyFromISR p).Sized n size := by
  unfold QueueSystem.notifyFromISR
  split
  · exact h.wake p
  · exact ⟨h.uxLength, h.uxItemSize, h.count, h.allowed⟩

theorem Sized.unblock (h : s.Sized n size) : (s.unblock t).Sized n size := by
  unfold QueueSystem.unblock
  split
  · next c hsuspender htask =>
    have hgoto := h.goto_call (t := t) (h.allowed t c _ htask) .critical
    exact ⟨hgoto.uxLength, hgoto.uxItemSize, hgoto.count, hgoto.allowed⟩
  · exact h

end sized

/-! ## What is kept -/

section keeps

variable [Fintype τ] [DecidableEq τ] {c : QueueCall}

/-- Nobody of the party waits in vain. -/
def Keeps (s : QueueSystem τ) (p : Party) : Prop :=
  Kept (s.available p) (s.eventList p) (s.coming p) (s.owed p)

omit [Fintype τ] [DecidableEq τ] in
theorem available_congr (h : s'.queue = s.queue) (p : Party) :
    s'.available p = s.available p := by
  unfold available
  rw [h]

/-- A task goes on, and stays on its way if it was. -/
theorem Keeps.ran (h : s.Keeps p) (hqueue : s'.queue = s.queue)
    (htask : ∀ u ≠ t, s'.task u = s.task u) (hlist : s'.eventList p = s.eventList p)
    (howed : s.owed p ≤ s'.owed p)
    (hself : s.Coming p t → s'.Coming p t ∨ s.available p = 0) : s'.Keeps p := by
  unfold Keeps
  rw [available_congr hqueue, hlist]
  -- with nothing there, it does not matter where the task has gone
  by_cases hzero : s.available p = 0
  · exact kept_of_le (hzero ▸ Nat.zero_le _)
  · refine h.mono id le_rfl (coming_subset htask (fun u _ => ?_) ?_) howed
    · rw [hlist]
    · exact fun hc => (hself hc).resolve_right hzero

/-- An interrupt adds to what a party waits for. -/
theorem Tidy.keeps_notify (h : s.Tidy) {items : Nat}
    (hk : Kept items (s.eventList p) (s.coming p) (s.owed p)) (hle : s.available p ≤ items + 1)
    (hroom : s.lock p ≠ queueUnlocked → s.lock p < 127)
    (hheld : s.lock p ≠ queueUnlocked → 0 ≤ s.lock p) : (s.notifyFromISR p).Keeps p := by
  unfold QueueSystem.notifyFromISR
  split
  · unfold Keeps owed
    rw [available_congr (queue_wake s p), eventList_wake, lock_wake]
    -- an unlocked queue: the first of the list is woken
    cases hlist : s.eventList p with
    | nil => exact .inl rfl
    | cons u rest =>
      rw [hlist] at hk
      exact hk.wake (fun hc => h.not_coming (hlist ▸ List.mem_cons_self) (mem_coming.1 hc)) hle
        (h.coming_woken hlist)
  · next hlocked =>
    -- a locked one: the lock counts it
    have hsucc := (lock_succ (hheld hlocked) (hroom hlocked)).2
    have howed : owed { s with lock := Function.update s.lock p (s.lock p + 1) } p =
        s.owed p + 1 := by
      unfold owed
      dsimp only
      rw [Function.update_self, hsucc]
    unfold Keeps
    rw [howed]
    exact hk.note hle

/-- And the other party is not told of it. -/
theorem Tidy.keeps_notify_of_ne (h : s.Tidy) (hp : p' ≠ p) (hk : s.Keeps p') :
    (s.notifyFromISR p).Keeps p' := by
  unfold QueueSystem.notifyFromISR
  split
  · unfold Keeps owed
    rw [available_congr (queue_wake s p), eventList_wake_of_ne hp, lock_wake]
    exact hk.mono id le_rfl (h.coming_wake p p') le_rfl
  · have howed : owed { s with lock := Function.update s.lock p (s.lock p + 1) } p' =
        s.owed p' := by
      unfold owed
      dsimp only
      rw [Function.update_of_ne hp]
    unfold Keeps
    rw [howed]
    exact hk

section succeed

variable {q : RtosQueue} {op : QueueOp} {r : QueueResult} {w : Party}

/-- Who comes when a task has done an operation and woken another. -/
theorem Tidy.coming_succeed (h : s.Tidy) (q : RtosQueue) (op : QueueOp) (r : QueueResult)
    (w p : Party) (t : τ) :
    (s.coming p).erase t ⊆ (((s.done q op r).wake w).goto t none).coming p := by
  have hwake : s.coming p ⊆ ((s.done q op r).wake w).coming p := (h.done q op r).coming_wake w p
  exact (Finset.erase_subset_erase t hwake).trans
    (coming_erase_subset (fun u hu => task_goto_of_ne hu) fun _ _ => Iff.rfl)

theorem Tidy.coming_succeed_woken (h : s.Tidy) (q : RtosQueue) (op : QueueOp) (r : QueueResult)
    {rest : List τ} (hlist : s.eventList w = u :: rest) (hu : u ≠ t) :
    insert u ((s.coming w).erase t) ⊆ (((s.done q op r).wake w).goto t none).coming w := by
  have hwoken : insert u (s.coming w) ⊆ ((s.done q op r).wake w).coming w :=
    (h.done q op r).coming_woken hlist
  rw [← Finset.erase_insert_of_ne hu]
  exact (Finset.erase_subset_erase t hwoken).trans
    (coming_erase_subset (fun u hu => task_goto_of_ne hu) fun _ _ => Iff.rfl)

omit [Fintype τ] in
theorem owed_succeed : owed (((s.done q op r).wake w).goto t none) p = s.owed p := by
  unfold owed QueueSystem.goto
  dsimp only
  rw [lock_wake]
  rfl

omit [Fintype τ] in
theorem available_succeed :
    available (((s.done q op r).wake w).goto t none) p = (s.done q op r).available p :=
  available_congr (queue_wake _ _) p

omit [Fintype τ] in
theorem eventList_succeed :
    (((s.done q op r).wake w).goto t none).eventList w = (s.eventList w).tail :=
  eventList_wake _ _

omit [Fintype τ] in
theorem eventList_succeed_of_ne (hw : p ≠ w) :
    (((s.done q op r).wake w).goto t none).eventList p = s.eventList p :=
  eventList_wake_of_ne hw

variable (h : s.Tidy) (htask : s.task t = some (c, .critical))
include h htask

omit [Fintype τ] [DecidableEq τ] in
theorem Tidy.ne_of_critical (hmem : u ∈ s.eventList p) : u ≠ t := by
  rintro rfl
  exact h.notMem (waitsAt_of_task htask (by decide) rfl p) hmem

/-- **The party that is told** of one more. -/
theorem Tidy.keeps_told (hk : s.Keeps w) (hparty : c.party ≠ w)
    (hle : (s.done q op r).available w ≤ s.available w + 1) :
    (((s.done q op r).wake w).goto t none).Keeps w := by
  have hnot : ¬ s.Coming w t := fun hc => hparty (hc.party htask)
  unfold Keeps
  rw [owed_succeed, available_succeed, eventList_succeed]
  cases hlist : s.eventList w with
  | nil => exact .inl rfl
  | cons u rest =>
    have hmem : u ∈ s.eventList w := hlist ▸ List.mem_cons_self
    have hcoming := h.coming_succeed_woken q op r hlist
      (h.ne_of_critical htask hmem)
    rw [Finset.erase_eq_of_notMem (mt mem_coming.1 hnot)] at hcoming
    unfold Keeps at hk
    rw [hlist] at hk
    exact hk.wake (fun hc => h.not_coming hmem (mem_coming.1 hc)) hle hcoming

/-- **The party that is told** of what the task has left there. -/
theorem Tidy.keeps_passed (hk : s.Keeps w) (hparty : c.party = w)
    (heq : (s.done q op r).available w = s.available w) :
    (((s.done q op r).wake w).goto t none).Keeps w := by
  have hself : s.Coming w t := ⟨c, .critical, htask, hparty, .inl rfl⟩
  unfold Keeps
  rw [owed_succeed, available_succeed, heq, eventList_succeed]
  cases hlist : s.eventList w with
  | nil => exact .inl rfl
  | cons u rest =>
    have hmem : u ∈ s.eventList w := hlist ▸ List.mem_cons_self
    have hcoming := h.coming_succeed_woken q op r hlist
      (h.ne_of_critical htask hmem)
    unfold Keeps at hk
    rw [hlist] at hk
    exact hk.pass (mem_coming.2 hself) (fun hc => h.not_coming hmem (mem_coming.1 hc)) hcoming

/-- **The party that takes.** -/
theorem Tidy.keeps_taken (hk : s.Keeps p) (hw : p ≠ w) (hparty : c.party = p)
    (hle : (s.done q op r).available p + 1 ≤ s.available p ∨ (s.done q op r).available p = 0) :
    (((s.done q op r).wake w).goto t none).Keeps p := by
  have hself : s.Coming p t := ⟨c, .critical, htask, hparty, .inl rfl⟩
  unfold Keeps
  rw [owed_succeed, available_succeed, eventList_succeed_of_ne hw]
  rcases hle with hle | hzero
  · exact hk.take (mem_coming.2 hself) hle (h.coming_succeed q op r w p t)
  · exact kept_of_le (hzero ▸ Nat.zero_le _)

/-- The party that has nothing to do with it. -/
theorem Tidy.keeps_unconcerned (hk : s.Keeps p) (hw : p ≠ w) (hparty : c.party ≠ p)
    (hle : (s.done q op r).available p ≤ s.available p) :
    (((s.done q op r).wake w).goto t none).Keeps p := by
  have hnot : ¬ s.Coming p t := fun hc => hparty (hc.party htask)
  have hcoming := h.coming_succeed q op r w p t
  rw [Finset.erase_eq_of_notMem (mt mem_coming.1 hnot)] at hcoming
  unfold Keeps
  rw [owed_succeed, available_succeed, eventList_succeed_of_ne hw]
  exact hk.mono id hle hcoming le_rfl

end succeed

end keeps

end QueueSystem

end BusMonitor
