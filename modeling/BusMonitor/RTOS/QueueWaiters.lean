import BusMonitor.RTOS.QueueTasks
/-!
# Who waits at the queue

What a step leaves of the tasks, the lists and the locks, whatever the
messages: one task at most has the scheduler suspended, the queue is locked
while that task has it locked and at no other time, the lists hold the
tasks that are blocked and the one that is about to be, and each of them in
the list of its party.
-/


namespace BusMonitor

/-! ## What a task is in the middle of -/

/-- From `vTaskSuspendAll` to `xTaskResumeAll`. -/
def QueueSpot.suspends : QueueSpot → Bool
  | .lockQueue | .checkForTimeOut | .placeOnEventList => true
  | .unlockTx _ | .unlockRx _ | .resumeAll _ => true
  | _ => false

/-- From `prvLockQueue` to the half of `prvUnlockQueue` for the party. -/
def QueueSpot.locks (p : Party) : QueueSpot → Bool
  | .checkForTimeOut | .placeOnEventList | .unlockTx _ => true
  | .unlockRx _ => p = .sender
  | _ => false

/-- In the list already, and still running. -/
def QueueSpot.isPlaced : QueueSpot → Bool
  | .unlockTx .placed | .unlockRx .placed | .resumeAll .placed => true
  | _ => false

def suspends (st : TaskState) : Bool := st.any fun x => x.2.suspends

def locks (p : Party) (st : TaskState) : Bool := st.any fun x => x.2.locks p

/-- The task may be in the list of the party. -/
def waitsAt (p : Party) (st : TaskState) : Bool :=
  st.any fun x => x.1.party = p ∧ (x.2 = .blocked ∨ x.2.isPlaced)

theorem suspends_of_locks {p : Party} {st : TaskState} (h : locks p st = true) :
    suspends st = true := by
  rcases st with _ | ⟨c, spot⟩
  · cases h
  · cases spot <;> simp_all [locks, suspends, QueueSpot.locks, QueueSpot.suspends]

theorem waitsAt_iff {p : Party} {st : TaskState} : waitsAt p st = true ↔
    ∃ c spot, st = some (c, spot) ∧ c.party = p ∧ (spot = .blocked ∨ spot.isPlaced = true) := by
  rcases st with _ | ⟨c, spot⟩
  · simp [waitsAt]
  · simp [waitsAt]

@[simp] theorem suspends_readied (st : TaskState) : suspends (readied st) = suspends st := by
  unfold readied
  split <;> rfl

@[simp] theorem locks_readied (p : Party) (st : TaskState) :
    locks p (readied st) = locks p st := by
  unfold readied
  split <;> rfl

theorem readied_of_ne {st : TaskState} (h : ∀ c, st ≠ some (c, .blocked)) : readied st = st := by
  unfold readied
  split
  · next c => exact absurd rfl (h c)
  · rfl

/-- One more in a lock, where it has room. -/
theorem lock_succ {l : Int8} (h : 0 ≤ l) (hroom : l < 127) :
    0 ≤ l + 1 ∧ (l + 1).toInt.toNat = l.toInt.toNat + 1 := by
  rw [Int8.le_iff_toInt_le, Int8.toInt_zero] at h
  have hlt : l.toInt < 127 := Int8.lt_iff_toInt_lt.1 hroom
  have hadd : (l + 1).toInt = l.toInt + 1 := by
    rw [Int8.toInt_add, Int8.toInt_one]
    exact Int.bmod_eq_of_le (by omega) (by omega)
  rw [Int8.le_iff_toInt_le, Int8.toInt_zero, hadd]
  omega

namespace QueueSystem

variable {τ : Type*} [DecidableEq τ] {s s' : QueueSystem τ} {t u : τ} {p : Party} {st : TaskState}

/-- The tasks, the lists and the locks fit together. -/
structure Tidy (s : QueueSystem τ) : Prop where
  suspender : ∀ t, s.suspender = some t ↔ suspends (s.task t) = true
  held : ∀ p t, locks p (s.task t) = true → 0 ≤ s.lock p
  unheld : ∀ p, (∀ t, locks p (s.task t) = false) → s.lock p = queueUnlocked
  nodup : ∀ p, (s.eventList p).Nodup
  listed : ∀ p, ∀ t ∈ s.eventList p, waitsAt p (s.task t) = true
  blocked : ∀ t c, s.task t = some (c, .blocked) → t ∈ s.eventList c.party

omit [DecidableEq τ] in
theorem tidy_init (n size head : Nat) (mem : Mem) : (init τ n size head mem).Tidy where
  suspender _ := iff_of_false (by rintro ⟨⟩) (by rintro ⟨⟩)
  held _ _ h := by cases h
  unheld _ _ := rfl
  nodup _ := List.nodup_nil
  listed _ _ h := by cases h
  blocked _ _ h := by cases h

/-! ## One task runs -/

section run

variable (h : s.Tidy) (hrun : s.MayRun t)
include h hrun

omit [DecidableEq τ] in
/-- The others are not in the middle of anything. -/
theorem Tidy.other (hu : u ≠ t) : suspends (s.task u) = false := by
  rw [Bool.eq_false_iff]
  intro hsus
  have hsome := (h.suspender u).2 hsus
  rcases hrun with hnone | hself
  · rw [hnone] at hsome
    cases hsome
  · rw [hself] at hsome
    exact hu (Option.some.inj hsome).symm

omit [DecidableEq τ] in
theorem Tidy.suspender_eq : s.suspender = if suspends (s.task t) = true then some t else none := by
  split
  · next hsus => exact (h.suspender t).2 hsus
  · next hsus =>
    rcases hrun with hnone | hself
    · exact hnone
    · exact absurd ((h.suspender t).1 hself) hsus

omit [DecidableEq τ] in
/-- The queue is locked by the task that runs, or not at all. -/
theorem Tidy.lock_eq (hlocks : locks p (s.task t) = false) : s.lock p = queueUnlocked := by
  refine h.unheld p fun u => ?_
  rcases eq_or_ne u t with rfl | hu
  · exact hlocks
  · rw [Bool.eq_false_iff]
    intro hc
    exact absurd (suspends_of_locks hc) (Bool.eq_false_iff.1 (h.other hrun hu))

/-- **A task has run**, and the others are where they were. -/
theorem Tidy.ran (htask : s'.task = Function.update s.task t st)
    (hsuspender : s'.suspender = if suspends st = true then some t else none)
    (hheld : ∀ p, locks p st = true → 0 ≤ s'.lock p)
    (hunheld : ∀ p, locks p st = false → s'.lock p = queueUnlocked)
    (hnodup : ∀ p, (s'.eventList p).Nodup)
    (hothers : ∀ p, ∀ u ≠ t, u ∈ s'.eventList p ↔ u ∈ s.eventList p)
    (hlisted : ∀ p, t ∈ s'.eventList p → waitsAt p st = true)
    (hblocked : ∀ c, st = some (c, .blocked) → t ∈ s'.eventList c.party) : s'.Tidy := by
  have hself : s'.task t = st := by rw [htask, Function.update_self]
  have hother : ∀ u ≠ t, s'.task u = s.task u := fun u hu => by
    rw [htask, Function.update_of_ne hu]
  refine ⟨fun u => ?_, fun p u hu => ?_, fun p hall => ?_, hnodup, fun p u hu => ?_,
    fun u c hu => ?_⟩
  · rw [hsuspender]
    rcases eq_or_ne u t with rfl | hne
    · rw [hself]
      split
      · next hsus => exact iff_of_true rfl hsus
      · next hsus => exact iff_of_false (by rintro ⟨⟩) hsus
    · rw [hother u hne, h.other hrun hne]
      refine iff_of_false (fun hc => ?_) (by decide)
      split at hc
      · exact hne (Option.some.inj hc).symm
      · cases hc
  · rcases eq_or_ne u t with rfl | hne
    · rw [hself] at hu
      exact hheld p hu
    · rw [hother u hne] at hu
      have hsus := suspends_of_locks hu
      rw [h.other hrun hne] at hsus
      cases hsus
  · have hst := hall t
    rw [hself] at hst
    exact hunheld p hst
  · rcases eq_or_ne u t with rfl | hne
    · rw [hself]
      exact hlisted p hu
    · rw [hother u hne]
      exact h.listed p u ((hothers p u hne).1 hu)
  · rcases eq_or_ne u t with rfl | hne
    · rw [hself] at hu
      exact hblocked c hu
    · rw [hother u hne] at hu
      exact (hothers _ u hne).2 (h.blocked u c hu)

/-- It has gone on to something it needs the same locks for. -/
theorem Tidy.goto (hsus : suspends st = suspends (s.task t))
    (hlocks : ∀ p, locks p st = locks p (s.task t))
    (hlisted : ∀ p, t ∈ s.eventList p → waitsAt p st = true)
    (hblocked : ∀ c, st = some (c, .blocked) → t ∈ s.eventList c.party) :
    (s.goto t st).Tidy := by
  refine h.ran hrun rfl ?_ (fun p hp => ?_) (fun p hp => ?_) h.nodup (fun _ _ _ => Iff.rfl)
    hlisted hblocked
  · rw [hsus]
    exact h.suspender_eq hrun
  · rw [hlocks p] at hp
    exact h.held p t hp
  · rw [hlocks p] at hp
    exact h.lock_eq hrun hp

end run

omit [DecidableEq τ] in
/-- A task that cannot be waiting is in no list. -/
theorem Tidy.notMem (h : s.Tidy) (hw : waitsAt p (s.task t) = false) : t ∉ s.eventList p := by
  intro hmem
  rw [h.listed p t hmem] at hw
  cases hw

/-! ## Waking -/

theorem wake_nil (h : s.eventList p = []) : s.wake p = s := by
  unfold wake
  rw [h]

theorem wake_cons {rest : List τ} (h : s.eventList p = u :: rest) :
    s.wake p = { s with
      eventList := Function.update s.eventList p rest
      task := Function.update s.task u (readied (s.task u)) } := by
  unfold wake
  rw [h]

@[simp] theorem lock_wake (s : QueueSystem τ) (p : Party) : (s.wake p).lock = s.lock := by
  unfold wake
  split <;> rfl

@[simp] theorem suspender_wake (s : QueueSystem τ) (p : Party) :
    (s.wake p).suspender = s.suspender := by
  unfold wake
  split <;> rfl

@[simp] theorem queue_wake (s : QueueSystem τ) (p : Party) : (s.wake p).queue = s.queue := by
  unfold wake
  split <;> rfl

@[simp] theorem history_wake (s : QueueSystem τ) (p : Party) :
    (s.wake p).history = s.history := by
  unfold wake
  split <;> rfl

theorem eventList_wake (s : QueueSystem τ) (p : Party) :
    (s.wake p).eventList p = (s.eventList p).tail := by
  cases hlist : s.eventList p with
  | nil => rw [wake_nil hlist, hlist, List.tail_nil]
  | cons u rest =>
    rw [wake_cons hlist]
    exact Function.update_self ..

theorem eventList_wake_of_ne {p' : Party} (hp : p' ≠ p) :
    (s.wake p).eventList p' = s.eventList p' := by
  cases hlist : s.eventList p with
  | nil => rw [wake_nil hlist]
  | cons u rest =>
    rw [wake_cons hlist]
    exact Function.update_of_ne hp _ _

/-- Only the first of the list is moved. -/
theorem task_wake_of_ne {rest : List τ} (hlist : s.eventList p = u :: rest) (hne : t ≠ u) :
    (s.wake p).task t = s.task t := by
  rw [wake_cons hlist]
  exact Function.update_of_ne hne _ _

theorem task_wake_or (s : QueueSystem τ) (p : Party) (t : τ) :
    (s.wake p).task t = s.task t ∨ (s.wake p).task t = readied (s.task t) := by
  cases hlist : s.eventList p with
  | nil => exact .inl (by rw [wake_nil hlist])
  | cons u rest =>
    rcases eq_or_ne t u with rfl | hne
    · rw [wake_cons hlist]
      exact .inr (Function.update_self ..)
    · exact .inl (task_wake_of_ne hlist hne)

/-- And only if it is blocked. -/
theorem task_wake (h : ∀ c, s.task t ≠ some (c, .blocked)) : (s.wake p).task t = s.task t :=
  (task_wake_or s p t).elim id fun hreadied => hreadied.trans (readied_of_ne h)

/-- It is in the middle of what it was. -/
@[simp] theorem suspends_wake (s : QueueSystem τ) (p : Party) (t : τ) :
    suspends ((s.wake p).task t) = suspends (s.task t) := by
  rcases task_wake_or s p t with h | h
  · rw [h]
  · rw [h, suspends_readied]

@[simp] theorem locks_wake (s : QueueSystem τ) (p p' : Party) (t : τ) :
    locks p' ((s.wake p).task t) = locks p' (s.task t) := by
  rcases task_wake_or s p t with h | h
  · rw [h]
  · rw [h, locks_readied]

/-- And it is not blocked any more. -/
theorem not_blocked_wake {rest : List τ} (hlist : s.eventList p = u :: rest) (c : QueueCall) :
    (s.wake p).task u ≠ some (c, .blocked) := by
  rw [wake_cons hlist]
  dsimp only
  rw [Function.update_self]
  unfold readied
  split
  · intro hc
    cases hc
  · next hst => exact hst c

omit [DecidableEq τ] in
/-- A task waits in one list. -/
theorem Tidy.party_eq (h : s.Tidy) {p' : Party} (hmem : t ∈ s.eventList p)
    (hmem' : t ∈ s.eventList p') : p = p' := by
  obtain ⟨c, spot, htask, hparty, -⟩ := waitsAt_iff.1 (h.listed p t hmem)
  obtain ⟨c', spot', htask', hparty', -⟩ := waitsAt_iff.1 (h.listed p' t hmem')
  rw [htask] at htask'
  cases htask'
  exact hparty.symm.trans hparty'

/-- **Waking** the first of a list. -/
theorem Tidy.wake (h : s.Tidy) (p : Party) : (s.wake p).Tidy := by
  cases hlist : s.eventList p with
  | nil =>
    rw [wake_nil hlist]
    exact h
  | cons u rest =>
    have hnodup := h.nodup p
    rw [hlist, List.nodup_cons] at hnodup
    have hfirst : u ∈ s.eventList p := hlist ▸ List.mem_cons_self
    refine ⟨fun v => ?_, fun p' v hv => ?_, fun p' hall => ?_, fun p' => ?_, fun p' v hv => ?_,
      fun v c hv => ?_⟩
    · rw [suspender_wake, suspends_wake]
      exact h.suspender v
    · rw [locks_wake] at hv
      rw [lock_wake]
      exact h.held p' v hv
    · rw [lock_wake]
      refine h.unheld p' fun v => ?_
      rw [← locks_wake s p p' v]
      exact hall v
    · rcases eq_or_ne p' p with rfl | hp
      · rw [eventList_wake, hlist]
        exact hnodup.2
      · rw [eventList_wake_of_ne hp]
        exact h.nodup p'
    · rcases eq_or_ne p' p with rfl | hp
      · rw [eventList_wake, hlist, List.tail_cons] at hv
        have hne : v ≠ u := fun hc => hnodup.1 (hc ▸ hv)
        rw [task_wake_of_ne hlist hne]
        exact h.listed p' v (hlist ▸ List.mem_cons_of_mem _ hv)
      · rw [eventList_wake_of_ne hp] at hv
        have hne : v ≠ u := fun hc => hp (h.party_eq (hc ▸ hv) hfirst)
        rw [task_wake_of_ne hlist hne]
        exact h.listed p' v hv
    · have hne : v ≠ u := fun hc => not_blocked_wake hlist c (hc ▸ hv)
      rw [task_wake_of_ne hlist hne] at hv
      have hmem := h.blocked v c hv
      rcases eq_or_ne c.party p with heq | hp
      · rw [heq, hlist] at hmem
        rw [heq, eventList_wake, hlist]
        exact (List.mem_cons.1 hmem).resolve_left hne
      · rw [eventList_wake_of_ne hp]
        exact hmem

/-! ## Unlocking -/

section unlockLoop

variable {n : Nat}

/-- What the loop keeps as waking does. -/
theorem unlockLoop_induct {P : QueueSystem τ → Prop} (hwake : ∀ s, P s → P (s.wake p))
    (h : P s) : P (unlockLoop p n s) := by
  induction n generalizing s with
  | zero => exact h
  | succ n ih =>
    unfold unlockLoop
    split
    · exact h
    · exact ih (hwake s h)

theorem Tidy.unlocked (h : s.Tidy) : (unlockLoop p n s).Tidy :=
  unlockLoop_induct (P := Tidy) (fun _ h => h.wake p) h

theorem frame_unlockLoop (n : Nat) (s : QueueSystem τ) (p : Party) :
    (unlockLoop p n s).lock = s.lock ∧ (unlockLoop p n s).suspender = s.suspender ∧
      (unlockLoop p n s).queue = s.queue ∧ (unlockLoop p n s).history = s.history := by
  refine unlockLoop_induct (P := fun s' => s'.lock = s.lock ∧ s'.suspender = s.suspender ∧
    s'.queue = s.queue ∧ s'.history = s.history) ?_ ⟨rfl, rfl, rfl, rfl⟩
  intro s' h
  rwa [lock_wake, suspender_wake, queue_wake, history_wake]

theorem task_unlockLoop (h : ∀ c, s.task t ≠ some (c, .blocked)) :
    (unlockLoop p n s).task t = s.task t := by
  refine unlockLoop_induct (P := fun s' => s'.task t = s.task t) (fun s' hs' => ?_) rfl
  rw [task_wake (hs'.symm ▸ h), hs']

theorem eventList_unlockLoop_of_ne {p' : Party} (hp : p' ≠ p) :
    (unlockLoop p n s).eventList p' = s.eventList p' := by
  refine unlockLoop_induct (P := fun s' => s'.eventList p' = s.eventList p') (fun s' hs' => ?_) rfl
  rw [eventList_wake_of_ne hp, hs']

theorem eventList_unlockLoop :
    (unlockLoop p n s).eventList p = (s.eventList p).drop n := by
  induction n generalizing s with
  | zero => rfl
  | succ n ih =>
    unfold unlockLoop
    split
    · next hlist => rw [hlist, List.drop_nil]
    · next u rest hlist => rw [ih, eventList_wake, hlist, List.tail_cons, List.drop_succ_cons]

end unlockLoop

theorem lock_prvUnlock (s : QueueSystem τ) (p : Party) :
    (s.prvUnlock p).lock p = queueUnlocked :=
  Function.update_self ..

theorem lock_prvUnlock_of_ne (s : QueueSystem τ) {p' : Party} (hp : p' ≠ p) :
    (s.prvUnlock p).lock p' = s.lock p' := by
  obtain ⟨hlock, -, -, -⟩ := frame_unlockLoop (s.lock p).toInt.toNat s p
  exact (Function.update_of_ne hp _ _).trans (congrFun hlock p')

/-- Half of the queue is unlocked by a task in the middle of its call. -/
theorem Tidy.prvUnlock (h : s.Tidy) (hrun : s.MayRun t) {c : QueueCall} {spot next : QueueSpot}
    (htask : s.task t = some (c, spot)) (hspot : spot.suspends = true)
    (hnext : next.suspends = true)
    (hlocks : ∀ p', next.locks p' = if p' = p then false else spot.locks p')
    (hplaced : spot.isPlaced = true → next.isPlaced = true) :
    ((s.prvUnlock p).goto t (some (c, next))).Tidy := by
  obtain ⟨-, hsuspender, -, -⟩ := frame_unlockLoop (s.lock p).toInt.toNat s p
  have hloop : (unlockLoop p (s.lock p).toInt.toNat s).Tidy := h.unlocked
  have hspot_ne : spot ≠ .blocked := by
    rintro rfl
    cases hspot
  have hnext_ne : next ≠ .blocked := by
    rintro rfl
    cases hnext
  have hself : (unlockLoop p (s.lock p).toInt.toNat s).task t = some (c, spot) := by
    refine (task_unlockLoop fun c' hc => ?_).trans htask
    rw [htask] at hc
    cases hc
    exact hspot_ne rfl
  have hrun' : (unlockLoop p (s.lock p).toInt.toNat s).MayRun t := by
    unfold MayRun
    rwa [hsuspender]
  have hold : ∀ p', spot.locks p' = locks p' (s.task t) := fun p' => by
    rw [htask]
    rfl
  refine hloop.ran hrun' rfl ?_ (fun p' hp' => ?_) (fun p' hp' => ?_) hloop.nodup
    (fun _ _ _ => Iff.rfl) (fun p' hmem => ?_) (fun c' hc => ?_)
  · have hsus : suspends (s.task t) = true := by
      rw [htask]
      exact hspot
    rw [if_pos (show suspends (some (c, next)) = true from hnext)]
    exact hsuspender.trans ((h.suspender t).2 hsus)
  · have hstill := (hlocks p').symm.trans hp'
    split at hstill
    · cases hstill
    · next hp =>
      rw [hold] at hstill
      exact lock_prvUnlock_of_ne s hp ▸ h.held p' t hstill
  · have hgone := (hlocks p').symm.trans hp'
    rcases eq_or_ne p' p with rfl | hp
    · exact lock_prvUnlock s p'
    · rw [if_neg hp, hold] at hgone
      exact (lock_prvUnlock_of_ne s hp).trans (h.lock_eq hrun hgone)
  · obtain ⟨c', spot', htask', hparty, hplace⟩ := waitsAt_iff.1 (hloop.listed p' t hmem)
    rw [hself] at htask'
    cases htask'
    exact waitsAt_iff.2 ⟨c, next, rfl, hparty, .inr (hplaced (hplace.resolve_left hspot_ne))⟩
  · cases hc
    exact absurd rfl hnext_ne

end QueueSystem

end BusMonitor
