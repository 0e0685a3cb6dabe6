import BusMonitor.Lib.Wakeup
import BusMonitor.RTOS.Queue
/-!
# Tasks that wait at a queue

`xQueueGenericSend` and `xQueueGenericReceive` as the tasks run through
them, between them the interrupts and the tick. A task that finds nothing
suspends the scheduler and locks the queue before it goes to the list of
the waiting; an interrupt leaves the lists of a locked queue alone and
counts in the lock what it has done, for the one who unlocks it. Any task
that may run may be the next to.
-/


namespace BusMonitor

/-! ## The calls -/

/-- The two sides of a queue. Receivers wait in `xTasksWaitingToReceive`,
and `cTxLock` counts for them; senders wait in `xTasksWaitingToSend`, and
`cRxLock` counts for them. -/
inductive Party where
  | receiver
  | sender
  deriving DecidableEq

/-- A call, with whether its `xTicksToWait` is not 0. -/
inductive QueueCall where
  | receive (xJustPeeking waits : Bool)
  | send (pvItemToQueue : Mem) (xCopyPosition : CopyPosition) (waits : Bool)

namespace QueueCall

def party : QueueCall → Party
  | .receive _ _ => .receiver
  | .send _ _ _ => .sender

def waits : QueueCall → Bool
  | .receive _ waits => waits
  | .send _ _ waits => waits

def op : QueueCall → QueueOp
  | .receive xJustPeeking _ => .receive xJustPeeking
  | .send pvItemToQueue xCopyPosition _ => .send pvItemToQueue xCopyPosition

end QueueCall

/-- Why the queue is unlocked: the task is in the list, or it tries again,
or its time is up. -/
inductive LockedResult where
  | placed
  | again
  | expired
  deriving DecidableEq

/-- What a task is about to do in its call. -/
inductive QueueSpot where
  | critical
  | suspendAll
  | lockQueue
  | checkForTimeOut
  | placeOnEventList
  | unlockTx (r : LockedResult)
  | unlockRx (r : LockedResult)
  | resumeAll (r : LockedResult)
  | blocked
  | lastLook
  deriving DecidableEq

/-- Where a task is: outside, or in a call. -/
abbrev TaskState := Option (QueueCall × QueueSpot)

/-- `queueUNLOCKED` and `queueLOCKED_UNMODIFIED`. -/
def queueUnlocked : Int8 := -1

def queueLockedUnmodified : Int8 := 0

/-- A queue and its tasks. `suspender` is the task that has suspended the
scheduler in its call; of the operations that have been done `history`
keeps the results. -/
structure QueueSystem (τ : Type*) where
  queue : RtosQueue
  eventList : Party → List τ
  lock : Party → Int8
  task : τ → TaskState
  suspender : Option τ
  history : List (QueueOp × QueueResult)

/-- `vListInsert`: behind those of the same priority. -/
def listInsert {τ : Type*} (uxPriority : τ → Nat) (t : τ) : List τ → List τ
  | [] => [t]
  | u :: rest =>
    if uxPriority u < uxPriority t then t :: u :: rest
    else u :: listInsert uxPriority t rest

/-- A task off the event list can run again. -/
def readied : TaskState → TaskState
  | some (c, .blocked) => some (c, .critical)
  | st => st

namespace QueueSystem

variable {τ : Type*} [DecidableEq τ] (s : QueueSystem τ)

/-- What a party waits for: messages, or places for them. -/
def available : Party → Nat
  | .receiver => s.queue.uxMessagesWaiting
  | .sender => s.queue.uxLength - s.queue.uxMessagesWaiting

/-- What a task does next. -/
def goto (t : τ) (st : TaskState) : QueueSystem τ :=
  { s with task := Function.update s.task t st }

/-- An operation on the queue has been done. -/
def done (q : RtosQueue) (op : QueueOp) (r : QueueResult) : QueueSystem τ :=
  { s with queue := q, history := s.history ++ [(op, r)] }

/-- `xTaskRemoveFromEventList`, if the list is not empty. -/
def wake (p : Party) : QueueSystem τ :=
  match s.eventList p with
  | [] => s
  | t :: rest =>
    { s with
      eventList := Function.update s.eventList p rest
      task := Function.update s.task t (readied (s.task t)) }

/-- `prvLockQueue`. -/
def prvLockQueue : QueueSystem τ :=
  { s with
    lock := fun p => if s.lock p = queueUnlocked then queueLockedUnmodified else s.lock p }

/-- The loop of `prvUnlockQueue`. -/
def unlockLoop (p : Party) : Nat → QueueSystem τ → QueueSystem τ
  | 0, s => s
  | n + 1, s =>
    match s.eventList p with
    | [] => s
    | _ :: _ => unlockLoop p n (s.wake p)

/-- One half of `prvUnlockQueue`. -/
def prvUnlock (p : Party) : QueueSystem τ :=
  let unlocked := unlockLoop p (s.lock p).toInt.toNat s
  { unlocked with lock := Function.update unlocked.lock p queueUnlocked }

/-- `prvIsQueueEmpty` for a receiver, `prvIsQueueFull` for a sender. -/
def findsNothing : Party → Bool
  | .receiver => s.queue.uxMessagesWaiting = 0
  | .sender => s.queue.uxMessagesWaiting = s.queue.uxLength

/-! ## The steps -/

/-- The critical section found nothing. -/
def unsuccessful (t : τ) (c : QueueCall) : QueueSystem τ :=
  if c.waits then s.goto t (some (c, .suspendAll)) else s.goto t none

/-- The critical section at the head of the loop. After a peek the message
is there for the next receiver. -/
def criticalSection (t : τ) : QueueCall → QueueSystem τ
  | .receive xJustPeeking waits =>
    match s.queue.receive xJustPeeking with
    | some (q, pvBuffer) =>
      -- a message that stays is there for another receiver, a place for a sender
      ((s.done q (.receive xJustPeeking) (.item pvBuffer)).wake
        (if xJustPeeking then .receiver else .sender)).goto t none
    | none => s.unsuccessful t (.receive xJustPeeking waits)
  | .send pvItemToQueue xCopyPosition waits =>
    match s.queue.send pvItemToQueue xCopyPosition with
    | some q =>
      ((s.done q (.send pvItemToQueue xCopyPosition) .pdPASS).wake .receiver).goto t none
    | none => s.unsuccessful t (.send pvItemToQueue xCopyPosition waits)

/-- What a task does when it has unlocked the queue and resumes the
scheduler. A receiver whose time is up looks once more. -/
def resumed (t : τ) (c : QueueCall) : LockedResult → TaskState
  -- it may have been taken off the list while it was still running
  | .placed => if t ∈ s.eventList c.party then some (c, .blocked) else some (c, .critical)
  | .again => some (c, .critical)
  | .expired =>
    -- a sender whose time is up gives up at once
    match c.party with
    | .receiver => some (c, .lastLook)
    | .sender => none

/-- A task runs on. Whether its time is up is for the tick to say. -/
def runTask (uxPriority : τ → Nat) (t : τ) (timedOut : Bool) (c : QueueCall) :
    QueueSpot → QueueSystem τ
  | .critical => s.criticalSection t c
  | .suspendAll => { s.goto t (some (c, .lockQueue)) with suspender := some t }
  | .lockQueue => s.prvLockQueue.goto t (some (c, .checkForTimeOut))
  | .checkForTimeOut =>
    if timedOut then s.goto t (some (c, .unlockTx .expired))
    -- what came after the critical section is seen here
    else if s.findsNothing c.party then s.goto t (some (c, .placeOnEventList))
    else s.goto t (some (c, .unlockTx .again))
  | .placeOnEventList =>
    { s.goto t (some (c, .unlockTx .placed)) with
      eventList := Function.update s.eventList c.party
        (listInsert uxPriority t (s.eventList c.party)) }
  | .unlockTx r => (s.prvUnlock .receiver).goto t (some (c, .unlockRx r))
  | .unlockRx r => (s.prvUnlock .sender).goto t (some (c, .resumeAll r))
  | .resumeAll r => { s.goto t (s.resumed t c r) with suspender := none }
  | .blocked => s
  | .lastLook =>
    if s.findsNothing .receiver then s.goto t none else s.goto t (some (c, .critical))

/-- With the scheduler suspended nobody else runs. -/
def MayRun (t : τ) : Prop := s.suspender = none ∨ s.suspender = some t

instance (t : τ) : Decidable (s.MayRun t) := inferInstanceAs (Decidable (_ ∨ _))

/-- An interrupt has done something a party may wait for. -/
def notifyFromISR (p : Party) : QueueSystem τ :=
  if s.lock p = queueUnlocked then s.wake p
  else { s with lock := Function.update s.lock p (s.lock p + 1) }

/-- `xQueueGenericSendFromISR`. -/
def sendFromISR (pvItemToQueue : Mem) (xCopyPosition : CopyPosition) : QueueSystem τ :=
  match s.queue.send pvItemToQueue xCopyPosition with
  | some q => (s.done q (.send pvItemToQueue xCopyPosition) .pdPASS).notifyFromISR .receiver
  | none => s

/-- `xQueueReceiveFromISR`. -/
def receiveFromISR : QueueSystem τ :=
  match s.queue.receive false with
  | some (q, pvBuffer) =>
    (s.done q (.receive false) (.item pvBuffer)).notifyFromISR .sender
  | none => s

/-- The block time of a task is over: the tick takes it off the list. With
the scheduler suspended the ticks are kept for later. -/
def unblock (t : τ) : QueueSystem τ :=
  match s.suspender, s.task t with
  | none, some (c, .blocked) =>
    { s.goto t (some (c, .critical)) with
      eventList := Function.update s.eventList c.party ((s.eventList c.party).erase t) }
  | _, _ => s

end QueueSystem

/-- What happens next. -/
inductive QueueAct (τ : Type*) where
  | call (t : τ) (c : QueueCall)
  | task (t : τ) (timedOut : Bool)
  | sendFromISR (pvItemToQueue : Mem) (xCopyPosition : CopyPosition)
  | receiveFromISR
  | timeout (t : τ)

namespace QueueSystem

variable {τ : Type*} [DecidableEq τ]

/-- One step. What cannot happen changes nothing. -/
def step (uxPriority : τ → Nat) (s : QueueSystem τ) : QueueAct τ → QueueSystem τ
  | .call t c =>
    if s.task t = none ∧ s.MayRun t then s.goto t (some (c, .critical)) else s
  | .task t timedOut =>
    match s.task t with
    | some (c, spot) => if s.MayRun t then s.runTask uxPriority t timedOut c spot else s
    | none => s
  | .sendFromISR pvItemToQueue xCopyPosition => s.sendFromISR pvItemToQueue xCopyPosition
  | .receiveFromISR => s.receiveFromISR
  | .timeout t => s.unblock t

/-- **What a step can do.** A property of the system is there after a step
if it was before, and each thing that can happen leaves it. -/
theorem step_rule {P : QueueSystem τ → Prop} {s : QueueSystem τ} {uxPriority : τ → Nat}
    {a : QueueAct τ} (hs : P s)
    (hcall : ∀ t c, a = .call t c → s.task t = none → s.MayRun t →
      P (s.goto t (some (c, .critical))))
    (htask : ∀ t timedOut c spot, a = .task t timedOut → s.task t = some (c, spot) →
      s.MayRun t → P (s.runTask uxPriority t timedOut c spot))
    (hsend : ∀ item pos q, a = .sendFromISR item pos → s.queue.send item pos = some q →
      P ((s.done q (.send item pos) .pdPASS).notifyFromISR .receiver))
    (hreceive : ∀ q bs, a = .receiveFromISR → s.queue.receive false = some (q, bs) →
      P ((s.done q (.receive false) (.item bs)).notifyFromISR .sender))
    (htimeout : ∀ t, a = .timeout t → P (s.unblock t)) : P (s.step uxPriority a) := by
  cases a with
  | call t c =>
    unfold step
    dsimp only
    split
    · next hcan => exact hcall t c rfl hcan.1 hcan.2
    · exact hs
  | task t timedOut =>
    unfold step
    dsimp only
    split
    · next c spot hspot =>
      split
      · next hrun => exact htask t timedOut c spot rfl hspot hrun
      · exact hs
    · exact hs
  | sendFromISR item pos =>
    unfold step sendFromISR
    dsimp only
    split
    · next q hq => exact hsend item pos q rfl hq
    · exact hs
  | receiveFromISR =>
    unfold step receiveFromISR
    dsimp only
    split
    · next q bs hq => exact hreceive q bs rfl hq
    · exact hs
  | timeout t => exact htimeout t rfl

/-- A new queue, and no task at it. -/
def init (τ : Type*) (n size head : Nat) (mem : Mem) : QueueSystem τ where
  queue := .prvInitialiseNewQueue n size head mem
  eventList _ := []
  lock _ := queueUnlocked
  task _ := none
  suspender := none
  history := []

end QueueSystem

end BusMonitor
