import BusMonitor.RTOS.QueueRun
/-!
# What the calls come to

Each operation on the queue is done in one critical section, by a task or
by an interrupt, and in between nobody changes the queue. So whatever the
order the tasks run in, the results are those of a list, and what is only
sent to the back is received in the order it was sent: `history_of_items`.
-/


namespace BusMonitor

open Stepwise

/-- The items that were sent, of the operations done. -/
def sentItems (size : Nat) (history : List (QueueOp × QueueResult)) : Items :=
  history.filterMap fun e =>
    match e with
    | (.send pvItemToQueue _, .pdPASS) => some (pvItemToQueue.read 0 size)
    | _ => none

/-- The items that were received for good. -/
def receivedItems (history : List (QueueOp × QueueResult)) : Items :=
  history.filterMap fun e =>
    match e with
    | (.receive false, .item x) => some x
    | _ => none

/-- Nothing was sent but to the back. -/
def BackOnly (history : List (QueueOp × QueueResult)) : Prop :=
  ∀ e ∈ history, ∀ item p, e.1 = .send item p → p = .sendToBack

namespace QueueSystem

variable {τ : Type*} [DecidableEq τ] {s s' : QueueSystem τ} {t : τ} {n size : Nat}
  {q₀ : RtosQueue}

/-- The history is one of a list, and the queue holds what the list does. -/
structure Replays (s : QueueSystem τ) (q₀ : RtosQueue) (n size : Nat) (items : Items) : Prop where
  results : run (itemsStep n size) ([], []) (s.history.map Prod.fst) =
    (items, s.history.map Prod.snd)
  contains : s.queue.Contains items
  follows : q₀.Follows s.queue
  ordered : BackOnly s.history → sentItems size s.history = receivedItems s.history ++ items

omit [DecidableEq τ] in
theorem Replays.congr {items : Items} (h : s.Replays q₀ n size items)
    (hqueue : s'.queue = s.queue) (hhistory : s'.history = s.history) :
    s'.Replays q₀ n size items := by
  refine ⟨?_, ?_, ?_, ?_⟩
  · rw [hhistory]
    exact h.results
  · rw [hqueue]
    exact h.contains
  · rw [hqueue]
    exact h.follows
  · rw [hhistory]
    exact h.ordered

section operations

variable {items items' : Items} {q : RtosQueue} {op : QueueOp} {r : QueueResult}

omit [DecidableEq τ] in
/-- One operation more. -/
theorem Replays.results_done (h : s.Replays q₀ n size items)
    (hperform : items.perform n size op = (items', r)) :
    run (itemsStep n size) ([], []) ((s.done q op r).history.map Prod.fst) =
      (items', (s.done q op r).history.map Prod.snd) := by
  unfold QueueSystem.done
  rw [List.map_append, List.map_append, run_append, h.results]
  change itemsStep n size (items, s.history.map Prod.snd) op = _
  unfold itemsStep
  rw [hperform]
  rfl

omit [DecidableEq τ] in
theorem backOnly_of_done (h : BackOnly (s.done q op r).history) : BackOnly s.history :=
  fun e he => h e (List.mem_append_left _ he)

omit [DecidableEq τ] in
theorem Replays.send (h : s.Replays q₀ n size items) (hs : s.Sized n size) {item : Mem}
    {pos : CopyPosition} (hpos : pos.Allowed n size) (hq : s.queue.send item pos = some q) :
    ∃ items', (s.done q (.send item pos) .pdPASS).Replays q₀ n size items' := by
  rw [← hs.uxLength, ← hs.uxItemSize] at hpos
  obtain ⟨items', hitems, hcontains, hfollows⟩ := h.contains.send hpos hq
  rw [hs.uxLength, hs.uxItemSize] at hitems
  have hperform : items.perform n size (.send item pos) = (items', .pdPASS) := by
    simp only [Items.perform, hitems]
  refine ⟨items', h.results_done hperform, hcontains, h.follows.trans hfollows, fun hback => ?_⟩
  have hold := h.ordered (backOnly_of_done hback)
  obtain rfl : pos = .sendToBack := hback _ (List.mem_append_right _ (List.mem_singleton_self _))
    item pos rfl
  have hroom : items' = items ++ [item.read 0 size] := by
    unfold Items.send at hitems
    dsimp only at hitems
    split at hitems
    · exact (Option.some.inj hitems).symm
    · cases hitems
  unfold QueueSystem.done sentItems receivedItems at *
  dsimp only at hold ⊢
  rw [List.filterMap_append, List.filterMap_append, hold, hroom]
  simp

omit [DecidableEq τ] in
theorem Replays.receive (h : s.Replays q₀ n size items) {peek : Bool} {bs : List UInt8}
    (hq : s.queue.receive peek = some (q, bs)) :
    ∃ items', (s.done q (.receive peek) (.item bs)).Replays q₀ n size items' := by
  have hreceive := h.contains.receive peek
  cases hitems : items.receive peek with
  | none =>
    rw [hitems] at hreceive
    rw [hreceive] at hq
    cases hq
  | some x =>
    rw [hitems] at hreceive
    obtain ⟨q', hq', hcontains, hfollows⟩ := hreceive
    rw [hq] at hq'
    cases hq'
    have hperform : items.perform n size (.receive peek) = (x.1, .item x.2) := by
      simp only [Items.perform, hitems]
    refine ⟨x.1, h.results_done hperform, hcontains, h.follows.trans hfollows, fun hback => ?_⟩
    have hold := h.ordered (backOnly_of_done hback)
    unfold QueueSystem.done sentItems receivedItems at *
    dsimp only at hold ⊢
    rw [List.filterMap_append, List.filterMap_append, hold]
    unfold Items.receive at hitems
    split at hitems
    · cases hitems
    · next y rest =>
      cases hitems
      cases peek with
      | false => simp
      | true => simp

end operations

/-! ## Every step -/

variable {a : QueueAct τ}

theorem Replays.criticalSection {items : Items} (h : s.Replays q₀ n size items)
    (hs : s.Sized n size) {c : QueueCall} (hc : c.op.Allowed n size) :
    ∃ items', (s.criticalSection t c).Replays q₀ n size items' := by
  have hunsuccessful : (s.unsuccessful t c).Replays q₀ n size items := by
    unfold QueueSystem.unsuccessful
    split
    · exact h.congr rfl rfl
    · exact h.congr rfl rfl
  cases c with
  | receive peek waits =>
    unfold QueueSystem.criticalSection
    dsimp only
    split
    · next q bs hq =>
      obtain ⟨items', hdone⟩ := h.receive hq
      exact ⟨items', hdone.congr (queue_wake _ _) (history_wake _ _)⟩
    · exact ⟨items, hunsuccessful⟩
  | send item pos waits =>
    unfold QueueSystem.criticalSection
    dsimp only
    split
    · next q hq =>
      obtain ⟨items', hdone⟩ := h.send hs hc hq
      exact ⟨items', hdone.congr (queue_wake _ _) (history_wake _ _)⟩
    · exact ⟨items, hunsuccessful⟩

theorem Replays.runTask {items : Items} (h : s.Replays q₀ n size items) (hs : s.Sized n size)
    (uxPriority : τ → Nat) (timedOut : Bool) {c : QueueCall} {spot : QueueSpot}
    (htask : s.task t = some (c, spot)) :
    ∃ items', (s.runTask uxPriority t timedOut c spot).Replays q₀ n size items' := by
  cases spot with
  | critical => exact h.criticalSection hs (hs.allowed t c _ htask)
  | checkForTimeOut =>
    unfold QueueSystem.runTask
    dsimp only
    repeat' split
    all_goals exact ⟨items, h.congr rfl rfl⟩
  | unlockTx r =>
    obtain ⟨-, -, hqueue, hhistory⟩ := frame_unlockLoop (s.lock .receiver).toInt.toNat s .receiver
    exact ⟨items, h.congr hqueue hhistory⟩
  | unlockRx r =>
    obtain ⟨-, -, hqueue, hhistory⟩ := frame_unlockLoop (s.lock .sender).toInt.toNat s .sender
    exact ⟨items, h.congr hqueue hhistory⟩
  | lastLook =>
    unfold QueueSystem.runTask
    dsimp only
    split
    · exact ⟨items, h.congr rfl rfl⟩
    · exact ⟨items, h.congr rfl rfl⟩
  | _ => exact ⟨items, h.congr rfl rfl⟩

theorem Replays.notifyFromISR {items : Items} (h : s.Replays q₀ n size items) (p : Party) :
    (s.notifyFromISR p).Replays q₀ n size items := by
  unfold QueueSystem.notifyFromISR
  split
  · exact h.congr (queue_wake s p) (history_wake s p)
  · exact h.congr rfl rfl

/-- **Every step** is one operation or none. -/
theorem Replays.step {items : Items} (h : s.Replays q₀ n size items) (hs : s.Sized n size)
    (uxPriority : τ → Nat) (ha : a.Allowed n size) :
    ∃ items', (s.step uxPriority a).Replays q₀ n size items' := by
  refine step_rule (P := fun s' => ∃ items', s'.Replays q₀ n size items') ⟨items, h⟩
    ?_ ?_ ?_ ?_ ?_
  · intro t c _ _ _
    exact ⟨items, h.congr rfl rfl⟩
  · intro t timedOut c spot _ htask _
    exact h.runTask hs uxPriority timedOut htask
  · rintro item pos q rfl hq
    obtain ⟨items', hdone⟩ := h.send hs ha hq
    exact ⟨items', hdone.notifyFromISR .receiver⟩
  · intro q bs _ hq
    obtain ⟨items', hdone⟩ := h.receive hq
    exact ⟨items', hdone.notifyFromISR .sender⟩
  · intro t _
    unfold QueueSystem.unblock
    split
    · exact ⟨items, h.congr rfl rfl⟩
    · exact ⟨items, h⟩

/-- The sizes and the calls stay as they are. -/
theorem Sized.step (hs : s.Sized n size) (uxPriority : τ → Nat) (ha : a.Allowed n size) :
    (s.step uxPriority a).Sized n size := by
  refine step_rule (P := fun s' => s'.Sized n size) hs ?_ ?_ ?_ ?_ ?_
  · rintro t c rfl _ _
    exact hs.goto_call ha _
  · intro t timedOut c spot _ htask _
    exact hs.runTask uxPriority timedOut htask
  · rintro item pos q rfl hq
    exact (hs.send ha hq _ _).notifyFromISR .receiver
  · intro q bs _ hq
    exact (hs.receive hq _ _).notifyFromISR .sender
  · intro t _
    exact hs.unblock

/-- **The calls come to a list.** Whatever the order in which tasks and
interrupts get at the queue, the operations that were done have the results
of a list of at most `n` items, and what is left is in the queue. Where
items are sent to the back only, they are received in the order they were
sent, none twice and none left out. -/
theorem history_of_items (uxPriority : τ → Nat) {n size head : Nat} (mem : Mem) (hn : 0 < n)
    (hhead : size ≤ head) (acts : List (QueueAct τ)) (hacts : ∀ a ∈ acts, a.Allowed n size) :
    let s := run (step uxPriority) (init τ n size head mem) acts
    ∃ items : Items, items.length ≤ n ∧ s.queue.Contains items ∧
      run (itemsStep n size) ([], []) (s.history.map Prod.fst) =
        (items, s.history.map Prod.snd) ∧
      (BackOnly s.history → sentItems size s.history = receivedItems s.history ++ items) := by
  have hmeets : Meets (step uxPriority) (fun _ a => a.Allowed n size)
      (init τ n size head mem) acts := (meets_forall _ acts).2 hacts
  have hinit : (init τ n size head mem).Replays (.prvInitialiseNewQueue n size head mem) n size
      [] := ⟨rfl, RtosQueue.contains_reset hn hhead, .refl _, fun _ => rfl⟩
  obtain ⟨⟨items, hreplays⟩, hsized⟩ := hmeets.invariant ⟨⟨[], hinit⟩, sized_init τ n size head mem⟩
    (I := fun s => (∃ items, s.Replays (.prvInitialiseNewQueue n size head mem) n size items) ∧
      s.Sized n size)
    (fun s a hs ha => by
      obtain ⟨⟨items, hreplays⟩, hsized⟩ := hs
      exact ⟨hreplays.step hsized uxPriority ha, hsized.step uxPriority ha⟩)
  have hle := hreplays.contains.length_le
  rw [hsized.uxLength] at hle
  exact ⟨items, hle, hreplays.contains, hreplays.results, hreplays.ordered⟩

/-- A message that comes while a task is on its way to the list, and one
behind it. -/
def raced : List (QueueAct Bool) :=
  .call true (.receive false true) :: List.replicate 4 (.task true false) ++
    [.sendFromISR (fourOf 1) .sendToBack, .sendFromISR (fourOf 2) .sendToBack] ++
    List.replicate 5 (.task true false)

/-- The task has the first one, and the second is in the queue. -/
theorem history_of_items_raced :
    let s := run (step fun _ => 0) (init Bool 10 4 76 fun _ => 0) raced
    (∃ items : Items, items.length ≤ 10 ∧ s.queue.Contains items ∧
      run (itemsStep 10 4) ([], []) (s.history.map Prod.fst) =
        (items, s.history.map Prod.snd) ∧
      (BackOnly s.history → sentItems 4 s.history = receivedItems s.history ++ items)) ∧
      receivedItems s.history = [[1, 1, 1, 1]] ∧ s.queue.uxMessagesWaiting = 1 := by
  have hback : CopyPosition.sendToBack.Allowed 10 4 := by decide
  have hallowed : ∀ a ∈ raced, a.Allowed 10 4 := by
    intro a ha
    rcases List.mem_append.1 ha with ha | ha
    · rcases List.mem_append.1 ha with ha | ha
      · rcases List.mem_cons.1 ha with rfl | ha
        · exact trivial
        · obtain rfl := List.eq_of_mem_replicate ha
          exact trivial
      · simp only [List.mem_cons, List.not_mem_nil, or_false] at ha
        rcases ha with rfl | rfl
        · exact hback
        · exact hback
    · obtain rfl := List.eq_of_mem_replicate ha
      exact trivial
  exact ⟨history_of_items (fun _ => 0) (fun _ => 0) (by omega) (by omega) raced hallowed,
    by decide +kernel, by decide +kernel⟩

end QueueSystem

end BusMonitor
