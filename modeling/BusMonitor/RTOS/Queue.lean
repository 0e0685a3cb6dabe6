import BusMonitor.Lib.Ring
import BusMonitor.Lib.Run
/-!
# The message queue

`queue.c`: items of one size are copied into a storage area that is used
as a ring, and copied out of it. Two pointers go round: `pcWriteTo` to the
place of the next item, `pcReadFrom` to the place that was read last.
`queue_refines` says that whatever is done with the queue, the callers see
a list of at most `uxLength` items, and nothing outside the storage area
changes. Queues that are mutexes are not modelled.
-/


namespace BusMonitor

open Stepwise Ring

/-! ## The queue -/

/-- `queueSEND_TO_BACK`, `queueSEND_TO_FRONT` and `queueOVERWRITE`. -/
inductive CopyPosition where
  | sendToBack
  | sendToFront
  | overwrite
  deriving DecidableEq

/-- `Queue_t`, less the locks and the lists of waiting tasks, with the
memory the storage area lies in. -/
structure RtosQueue where
  pcHead : Nat
  pcTail : Nat
  pcWriteTo : Nat
  pcReadFrom : Nat
  uxMessagesWaiting : Nat
  uxLength : Nat
  uxItemSize : Nat
  mem : Mem

namespace RtosQueue

variable (q : RtosQueue)

/-- `xQueueGenericReset`, before any task waits. -/
def xQueueGenericReset : RtosQueue :=
  { q with
    pcTail := q.pcHead + q.uxLength * q.uxItemSize
    uxMessagesWaiting := 0
    pcWriteTo := q.pcHead
    pcReadFrom := q.pcHead + (q.uxLength - 1) * q.uxItemSize }

/-- `prvInitialiseNewQueue`. What the fields held before does not matter. -/
def prvInitialiseNewQueue (uxQueueLength uxItemSize pucQueueStorage : Nat) (mem : Mem) : RtosQueue :=
  xQueueGenericReset
    { pcHead := pucQueueStorage
      pcTail := 0
      pcWriteTo := 0
      pcReadFrom := 0
      uxMessagesWaiting := 0
      uxLength := uxQueueLength
      uxItemSize := uxItemSize
      mem := mem }

/-- An item put in the place that was read last. -/
def copyToFront (pvItemToQueue : Mem) : RtosQueue :=
  let pcReadFrom := q.pcReadFrom - q.uxItemSize
  { q with
    mem := q.mem.write q.pcReadFrom (pvItemToQueue.read 0 q.uxItemSize)
    pcReadFrom := if pcReadFrom < q.pcHead then q.pcTail - q.uxItemSize else pcReadFrom }

/-- `prvCopyDataToQueue`. -/
def prvCopyDataToQueue (pvItemToQueue : Mem) (xPosition : CopyPosition) : RtosQueue :=
  let uxMessagesWaiting := q.uxMessagesWaiting
  if q.uxItemSize = 0 then { q with uxMessagesWaiting := uxMessagesWaiting + 1 }
  else
    match xPosition with
    | .sendToBack =>
      let pcWriteTo := q.pcWriteTo + q.uxItemSize
      { q with
        mem := q.mem.write q.pcWriteTo (pvItemToQueue.read 0 q.uxItemSize)
        pcWriteTo := if q.pcTail ≤ pcWriteTo then q.pcHead else pcWriteTo
        uxMessagesWaiting := uxMessagesWaiting + 1 }
    | .sendToFront =>
      { q.copyToFront pvItemToQueue with uxMessagesWaiting := uxMessagesWaiting + 1 }
    | .overwrite =>
      -- an item is not added but overwritten
      let uxMessagesWaiting :=
        if 0 < uxMessagesWaiting then uxMessagesWaiting - 1 else uxMessagesWaiting
      { q.copyToFront pvItemToQueue with uxMessagesWaiting := uxMessagesWaiting + 1 }

/-- `prvCopyDataFromQueue`: the queue, and what is copied to the buffer. -/
def prvCopyDataFromQueue : RtosQueue × List UInt8 :=
  if q.uxItemSize = 0 then (q, [])
  else
    let pcReadFrom := q.pcReadFrom + q.uxItemSize
    let pcReadFrom := if q.pcTail ≤ pcReadFrom then q.pcHead else pcReadFrom
    ({ q with pcReadFrom := pcReadFrom }, q.mem.read pcReadFrom q.uxItemSize)

/-- What `xQueueGenericSend` and `xQueueGenericSendFromISR` do to the queue
when it has room. -/
def send (pvItemToQueue : Mem) (xCopyPosition : CopyPosition) : Option RtosQueue :=
  if q.uxMessagesWaiting < q.uxLength ∨ xCopyPosition = .overwrite then
    some (q.prvCopyDataToQueue pvItemToQueue xCopyPosition)
  else none

/-- What `xQueueGenericReceive` and, without peeking, `xQueueReceiveFromISR`
do when the queue has a message. -/
def receive (xJustPeeking : Bool) : Option (RtosQueue × List UInt8) :=
  if 0 < q.uxMessagesWaiting then
    let (copied, pvBuffer) := q.prvCopyDataFromQueue
    -- a peek resets the read pointer
    some (if xJustPeeking then { copied with pcReadFrom := q.pcReadFrom }
      else { copied with uxMessagesWaiting := q.uxMessagesWaiting - 1 }, pvBuffer)
  else none

end RtosQueue

/-- What can be done with a queue. -/
inductive QueueOp where
  | send (pvItemToQueue : Mem) (xCopyPosition : CopyPosition)
  | receive (xJustPeeking : Bool)
  | reset

/-- What the caller is told. -/
inductive QueueResult where
  | pdPASS
  | item (pvBuffer : List UInt8)
  | errQueueFull
  | errQueueEmpty
  deriving DecidableEq

def RtosQueue.perform (q : RtosQueue) : QueueOp → RtosQueue × QueueResult
  | .send pvItemToQueue xCopyPosition =>
    match q.send pvItemToQueue xCopyPosition with
    | some q' => (q', .pdPASS)
    | none => (q, .errQueueFull)
  | .receive xJustPeeking =>
    match q.receive xJustPeeking with
    | some (q', pvBuffer) => (q', .item pvBuffer)
    | none => (q, .errQueueEmpty)
  | .reset => (q.xQueueGenericReset, .pdPASS)

/-! ## What it is for -/

/-- The items in their order. -/
abbrev Items := List (List UInt8)

namespace Items

/-- There is room for `n`. -/
def send (n : Nat) (items : Items) (x : List UInt8) : CopyPosition → Option Items
  | .sendToBack => if items.length < n then some (items ++ [x]) else none
  | .sendToFront => if items.length < n then some (x :: items) else none
  | .overwrite => some (x :: items.tail)

def receive (items : Items) (xJustPeeking : Bool) : Option (Items × List UInt8) :=
  match items with
  | [] => none
  | x :: rest => some (if xJustPeeking then x :: rest else rest, x)

def perform (n size : Nat) (items : Items) : QueueOp → Items × QueueResult
  | .send pvItemToQueue xCopyPosition =>
    match items.send n (pvItemToQueue.read 0 size) xCopyPosition with
    | some items' => (items', .pdPASS)
    | none => (items, .errQueueFull)
  | .receive xJustPeeking =>
    match items.receive xJustPeeking with
    | some (items', x) => (items', .item x)
    | none => (items, .errQueueEmpty)
  | .reset => ([], .pdPASS)

end Items

/-- Only a queue of one item is overwritten, which the queue asserts, and
only one whose items have bytes, which it does not: overwriting a full
semaphore would count past its length. -/
def CopyPosition.Allowed (n size : Nat) (xCopyPosition : CopyPosition) : Prop :=
  xCopyPosition = .overwrite → n = 1 ∧ 0 < size

instance (n size : Nat) (p : CopyPosition) : Decidable (p.Allowed n size) :=
  inferInstanceAs (Decidable (_ → _ ∧ _))

def QueueOp.Allowed (n size : Nat) : QueueOp → Prop
  | .send _ xCopyPosition => xCopyPosition.Allowed n size
  | _ => True

namespace RtosQueue

variable {q q' : RtosQueue} {items : Items} {item : Mem} {p : CopyPosition} {bs : List UInt8}

/-- The bytes of a place. -/
def slot (q : RtosQueue) (i : Nat) : List UInt8 :=
  q.mem.read (q.pcHead + i * q.uxItemSize) q.uxItemSize

/-- **The queue contains the items**, from the place behind the one that
was read last on. -/
structure Contains (q : RtosQueue) (items : Items) : Prop where
  head : q.uxItemSize ≤ q.pcHead
  tail : q.pcTail = q.pcHead + q.uxLength * q.uxItemSize
  count : q.uxMessagesWaiting = items.length
  ring : ∃ r < q.uxLength, q.pcReadFrom = q.pcHead + r * q.uxItemSize ∧
    q.pcWriteTo = q.pcHead + place q.uxLength r (1 + items.length) * q.uxItemSize ∧
    Carries q.uxLength q.slot (place q.uxLength r 1) items

/-- The one queue is what became of the other, by stores into its storage
area. -/
structure Follows (q q' : RtosQueue) : Prop where
  pcHead : q'.pcHead = q.pcHead
  uxLength : q'.uxLength = q.uxLength
  uxItemSize : q'.uxItemSize = q.uxItemSize
  outside : ∀ a, a < q.pcHead ∨ q.pcHead + q.uxLength * q.uxItemSize ≤ a → q'.mem a = q.mem a

/-! ## The pointers -/

/-- The pointer behind an item, where there are items to speak of. -/
def nextPlace (q : RtosQueue) (a : Nat) : Nat :=
  if q.uxItemSize = 0 then a
  else if q.pcTail ≤ a + q.uxItemSize then q.pcHead else a + q.uxItemSize

/-- The pointer before an item. -/
def previousPlace (q : RtosQueue) (a : Nat) : Nat :=
  if q.uxItemSize = 0 then a
  else if a - q.uxItemSize < q.pcHead then q.pcTail - q.uxItemSize else a - q.uxItemSize

theorem copy_back_eq : q.prvCopyDataToQueue item .sendToBack =
    { q with
      mem := q.mem.write q.pcWriteTo (item.read 0 q.uxItemSize)
      pcWriteTo := q.nextPlace q.pcWriteTo
      uxMessagesWaiting := q.uxMessagesWaiting + 1 } := by
  unfold prvCopyDataToQueue nextPlace
  by_cases hsize : q.uxItemSize = 0
  · have hnil : item.read 0 0 = [] := rfl
    simp only [hsize, if_true, hnil, Mem.write_nil]
  · simp only [hsize, if_false]

theorem copy_front_eq : q.prvCopyDataToQueue item .sendToFront =
    { q with
      mem := q.mem.write q.pcReadFrom (item.read 0 q.uxItemSize)
      pcReadFrom := q.previousPlace q.pcReadFrom
      uxMessagesWaiting := q.uxMessagesWaiting + 1 } := by
  unfold prvCopyDataToQueue previousPlace copyToFront
  by_cases hsize : q.uxItemSize = 0
  · have hnil : item.read 0 0 = [] := rfl
    simp only [hsize, if_true, hnil, Mem.write_nil]
  · simp only [hsize, if_false]

/-- Overwriting takes the count of what is overwritten back. -/
theorem copy_overwrite_eq (hsize : 0 < q.uxItemSize) : q.prvCopyDataToQueue item .overwrite =
    prvCopyDataToQueue { q with uxMessagesWaiting := q.uxMessagesWaiting - 1 } item
      .sendToFront := by
  have hne : ¬ q.uxItemSize = 0 := by omega
  have hcount : (if 0 < q.uxMessagesWaiting then q.uxMessagesWaiting - 1
      else q.uxMessagesWaiting) = q.uxMessagesWaiting - 1 := by
    split <;> omega
  simp only [prvCopyDataToQueue, copyToFront, hne, if_false, hcount]

theorem copy_from_eq : q.prvCopyDataFromQueue =
    ({ q with pcReadFrom := q.nextPlace q.pcReadFrom },
      q.mem.read (q.nextPlace q.pcReadFrom) q.uxItemSize) := by
  unfold prvCopyDataFromQueue nextPlace
  by_cases hsize : q.uxItemSize = 0
  · have hnil : q.mem.read q.pcReadFrom q.uxItemSize = [] := by rw [hsize]; rfl
    rw [if_pos hsize, if_pos hsize, hnil]
  · rw [if_neg hsize, if_neg hsize]

section pointers

variable {n size i j : Nat}

/-- A pointer goes on to the next place. -/
theorem nextPlace_eq (htail : q.pcTail = q.pcHead + q.uxLength * q.uxItemSize)
    (hi : i < q.uxLength) :
    q.nextPlace (q.pcHead + i * q.uxItemSize) =
      q.pcHead + place q.uxLength i 1 * q.uxItemSize := by
  unfold nextPlace place
  split
  · next hzero => rw [hzero, Nat.mul_zero, Nat.mul_zero]
  · have hmul : (i + 1) * q.uxItemSize = i * q.uxItemSize + q.uxItemSize := Nat.succ_mul i _
    rcases Nat.lt_or_ge (i + 1) q.uxLength with hlt | hge
    · have hle : (i + 2) * q.uxItemSize ≤ q.uxLength * q.uxItemSize :=
        Nat.mul_le_mul_right _ hlt
      have hsucc : (i + 2) * q.uxItemSize = (i + 1) * q.uxItemSize + q.uxItemSize :=
        Nat.succ_mul (i + 1) _
      rw [Nat.mod_eq_of_lt hlt, if_neg (by omega), hmul, Nat.add_assoc]
    · obtain hlast : i + 1 = q.uxLength := by omega
      rw [← hlast] at htail
      rw [hlast, Nat.mod_self, if_pos (by omega), Nat.zero_mul, Nat.add_zero]

/-- And back to the one before. -/
theorem previousPlace_eq (hhead : q.uxItemSize ≤ q.pcHead)
    (htail : q.pcTail = q.pcHead + q.uxLength * q.uxItemSize) (hi : i < q.uxLength) :
    q.previousPlace (q.pcHead + i * q.uxItemSize) =
      q.pcHead + place q.uxLength i (q.uxLength - 1) * q.uxItemSize := by
  unfold previousPlace place
  split
  · next hzero => rw [hzero, Nat.mul_zero, Nat.mul_zero]
  · cases i with
    | zero =>
      have hn : (q.uxLength - 1 + 1) * q.uxItemSize =
          (q.uxLength - 1) * q.uxItemSize + q.uxItemSize := Nat.succ_mul _ _
      rw [Nat.sub_add_cancel (by omega)] at hn
      rw [Nat.zero_mul, if_pos (by omega), Nat.zero_add, Nat.mod_eq_of_lt (by omega)]
      omega
    | succ i =>
      have hmul : (i + 1) * q.uxItemSize = i * q.uxItemSize + q.uxItemSize := Nat.succ_mul i _
      have hback : i + 1 + (q.uxLength - 1) = i + q.uxLength := by omega
      rw [if_neg (by omega), hback, Nat.add_mod_right, Nat.mod_eq_of_lt (by omega)]
      omega

/-- The place after the one before. -/
theorem place_previous (hi : i < n) (k : Nat) :
    place n (place n i (n - 1)) (1 + k) = place n i k := by
  have hround : n - 1 + (1 + k) = n + k := by omega
  rw [place_place, hround, place_full]

/-- An item is read back from its place. -/
theorem read_write_item {m : Mem} {a : Nat} (hlen : bs.length = size) :
    (m.write a bs).read a size = bs := by
  rw [← hlen]
  exact Mem.read_write_self

/-- An item written in one place leaves the others. -/
theorem read_write_place {m : Mem} {head : Nat} (hne : j ≠ i) (hlen : bs.length = size) :
    (m.write (head + i * size) bs).read (head + j * size) size =
      m.read (head + j * size) size := by
  refine Mem.read_write_disjoint ?_
  rcases Nat.lt_or_gt_of_ne hne with hlt | hgt
  · have hle : (j + 1) * size ≤ i * size := Nat.mul_le_mul_right size hlt
    rw [Nat.succ_mul] at hle
    omega
  · have hle : (i + 1) * size ≤ j * size := Nat.mul_le_mul_right size hgt
    rw [Nat.succ_mul] at hle
    omega

/-- And everything outside the storage area. -/
theorem write_place_outside {m : Mem} {head a : Nat} (hi : i < n) (hlen : bs.length = size)
    (ha : a < head ∨ head + n * size ≤ a) : m.write (head + i * size) bs a = m a := by
  have hle : (i + 1) * size ≤ n * size := Nat.mul_le_mul_right size hi
  rw [Nat.succ_mul] at hle
  exact Mem.write_of_disjoint (by omega)

end pointers

/-! ## One operation -/

theorem contains_reset (hn : 0 < q.uxLength) (hhead : q.uxItemSize ≤ q.pcHead) :
    q.xQueueGenericReset.Contains [] := by
  have hlast : q.uxLength - 1 < q.uxLength := Nat.sub_lt hn Nat.one_pos
  refine ⟨hhead, rfl, rfl, q.uxLength - 1, hlast, rfl, ?_, carries_nil (place_lt hn _ _)⟩
  have hround : place q.uxLength (q.uxLength - 1) 1 = 0 := by
    unfold place
    rw [Nat.sub_add_cancel hn, Nat.mod_self]
  change q.pcHead = q.pcHead + place q.uxLength (q.uxLength - 1) (1 + 0) * q.uxItemSize
  rw [Nat.add_zero, hround, Nat.zero_mul, Nat.add_zero]

theorem Contains.length_le (h : q.Contains items) : items.length ≤ q.uxLength := by
  obtain ⟨-, -, -, r, hr, -, -, hcarries⟩ := h
  exact hcarries.length_le

/-- An item sent to the back. -/
theorem Contains.back (h : q.Contains items) (hlt : items.length < q.uxLength) :
    (q.prvCopyDataToQueue item .sendToBack).Contains (items ++ [item.read 0 q.uxItemSize]) ∧
      q.Follows (q.prvCopyDataToQueue item .sendToBack) := by
  obtain ⟨hhead, htail, hcount, r, hr, hread, hwrite, hcarries⟩ := h
  have hn : 0 < q.uxLength := by omega
  have hlen : (item.read 0 q.uxItemSize).length = q.uxItemSize := Mem.length_read
  have hplace : place q.uxLength (place q.uxLength r 1) items.length =
      place q.uxLength r (1 + items.length) := place_place _ _ _ _
  rw [copy_back_eq, hwrite, nextPlace_eq htail (place_lt hn _ _), place_place]
  refine ⟨⟨hhead, htail, ?_, r, hr, hread, ?_, ?_⟩, rfl, rfl, rfl, fun a ha => ?_⟩
  · rw [List.length_append, ← hcount]
    rfl
  · rw [List.length_append, List.length_singleton, ← Nat.add_assoc]
  · refine hcarries.push_back hlt ?_ fun i _ hne => ?_
    · rw [hplace]
      exact read_write_item hlen
    · rw [hplace] at hne
      exact read_write_place hne hlen
  · exact write_place_outside (place_lt hn _ _) hlen ha

/-- An item sent to the front. -/
theorem Contains.front (h : q.Contains items) (hlt : items.length < q.uxLength) :
    (q.prvCopyDataToQueue item .sendToFront).Contains (item.read 0 q.uxItemSize :: items) ∧
      q.Follows (q.prvCopyDataToQueue item .sendToFront) := by
  obtain ⟨hhead, htail, hcount, r, hr, hread, hwrite, hcarries⟩ := h
  have hn : 0 < q.uxLength := by omega
  have hlen : (item.read 0 q.uxItemSize).length = q.uxItemSize := Mem.length_read
  have hback := place_lt hn r (q.uxLength - 1)
  have hfirst : place q.uxLength (place q.uxLength r (q.uxLength - 1)) 1 = r := by
    have hprev := place_previous hr 0
    rwa [place_zero hr] at hprev
  rw [copy_front_eq, hread, previousPlace_eq hhead htail hr]
  refine ⟨⟨hhead, htail, ?_, _, hback, rfl, ?_, ?_⟩, rfl, rfl, rfl, fun a ha => ?_⟩
  · rw [List.length_cons, ← hcount]
  · dsimp only
    rw [hwrite, List.length_cons, place_previous hr, Nat.add_comm 1]
  · dsimp only
    rw [hfirst]
    refine hcarries.push_front hr hlt (read_write_item hlen) fun i _ hne => ?_
    exact read_write_place hne hlen
  · exact write_place_outside hr hlen ha

/-- The item at the front, read. -/
theorem Contains.first {x : List UInt8} (h : q.Contains (x :: items)) :
    q.prvCopyDataFromQueue.2 = x ∧
      RtosQueue.Contains { q.prvCopyDataFromQueue.1 with
        uxMessagesWaiting := q.uxMessagesWaiting - 1 } items := by
  obtain ⟨hhead, htail, hcount, r, hr, hread, hwrite, hcarries⟩ := h
  have hn : 0 < q.uxLength := by omega
  obtain ⟨hslot, hrest⟩ := hcarries.pop_front
  rw [copy_from_eq, hread, nextPlace_eq htail hr]
  refine ⟨hslot, hhead, htail, ?_, _, place_lt hn r 1, rfl, ?_, hrest⟩
  · dsimp only
    rw [hcount, List.length_cons, Nat.add_sub_cancel]
  · dsimp only
    rw [hwrite, place_place, List.length_cons, Nat.add_comm items.length]

/-- With one item taken off the count there is room for one. -/
theorem Contains.overwritten (h : q.Contains items) (hone : q.uxLength = 1)
    (hsize : 0 < q.uxItemSize) :
    (q.prvCopyDataToQueue item .overwrite).Contains
        (item.read 0 q.uxItemSize :: items.tail) ∧
      q.Follows (q.prvCopyDataToQueue item .overwrite) := by
  have hle := h.length_le
  obtain ⟨hhead, htail, hcount, r, hr, hread, hwrite, -⟩ := h
  have hn : 0 < q.uxLength := by omega
  have htail0 : items.tail = [] := List.eq_nil_of_length_eq_zero (by rw [List.length_tail]; omega)
  have hempty : RtosQueue.Contains { q with uxMessagesWaiting := q.uxMessagesWaiting - 1 } [] := by
    refine ⟨hhead, htail, ?_, r, hr, hread, ?_, carries_nil (place_lt hn _ _)⟩
    · have hzero : q.uxMessagesWaiting - 1 = 0 := by omega
      exact hzero
    · -- every place of a ring of one is the first
      have hzero : ∀ k, place q.uxLength r k = 0 := by
        intro k
        unfold place
        rw [hone, Nat.mod_one]
      dsimp only
      rw [hwrite, hzero, hzero]
  have hroom : ([] : Items).length < q.uxLength := by
    rw [List.length_nil, hone]
    exact Nat.one_pos
  rw [copy_overwrite_eq hsize, htail0]
  refine (hempty.front hroom).imp_right fun hfollows => ?_
  exact ⟨hfollows.pcHead, hfollows.uxLength, hfollows.uxItemSize, hfollows.outside⟩

theorem Follows.refl (q : RtosQueue) : Follows q q := ⟨rfl, rfl, rfl, fun _ _ => rfl⟩

theorem Follows.trans {q'' : RtosQueue} (h : Follows q q') (h' : Follows q' q'') :
    Follows q q'' := by
  refine ⟨h'.pcHead.trans h.pcHead, h'.uxLength.trans h.uxLength,
    h'.uxItemSize.trans h.uxItemSize, fun a ha => ?_⟩
  refine (h'.outside a ?_).trans (h.outside a ha)
  rwa [h.pcHead, h.uxLength, h.uxItemSize]

/-- There is room exactly when there is room in the list. -/
theorem Contains.send_none (h : q.Contains items) :
    q.send item p = none ↔ items.send q.uxLength (item.read 0 q.uxItemSize) p = none := by
  unfold send Items.send
  rw [h.count]
  cases p <;> simp

/-- **A send** is one to the list. -/
theorem Contains.send (h : q.Contains items) (hp : p.Allowed q.uxLength q.uxItemSize)
    (hq : q.send item p = some q') :
    ∃ items', items.send q.uxLength (item.read 0 q.uxItemSize) p = some items' ∧
      q'.Contains items' ∧ q.Follows q' := by
  unfold RtosQueue.send at hq
  split at hq
  · next hroom =>
    obtain rfl := Option.some.inj hq
    rw [h.count] at hroom
    cases p with
    | sendToBack =>
      have hlt : items.length < q.uxLength := hroom.resolve_right (by decide)
      exact ⟨_, if_pos hlt, h.back hlt⟩
    | sendToFront =>
      have hlt : items.length < q.uxLength := hroom.resolve_right (by decide)
      exact ⟨_, if_pos hlt, h.front hlt⟩
    | overwrite =>
      obtain ⟨hone, hsize⟩ := hp rfl
      exact ⟨_, rfl, h.overwritten hone hsize⟩
  · cases hq

/-- **A receive** is one from the list. -/
theorem Contains.receive (h : q.Contains items) (peek : Bool) :
    match items.receive peek with
    | some (items', x) => ∃ q', q.receive peek = some (q', x) ∧ q'.Contains items' ∧ q.Follows q'
    | none => q.receive peek = none := by
  unfold RtosQueue.receive Items.receive
  cases items with
  | nil =>
    rw [h.count]
    rfl
  | cons x items =>
    have hpos : 0 < q.uxMessagesWaiting := by
      rw [h.count]
      exact Nat.succ_pos _
    obtain ⟨hfirst, hrest⟩ := h.first
    rw [if_pos hpos]
    dsimp only
    refine ⟨_, congrArg some (Prod.ext rfl hfirst), ?_, ?_⟩
    · cases peek with
      | false => exact hrest
      | true =>
        rw [copy_from_eq]
        exact h
    · rw [copy_from_eq]
      cases peek <;> exact ⟨rfl, rfl, rfl, fun _ _ => rfl⟩

theorem perform_send (hq : q.send item p = some q') :
    q.perform (.send item p) = (q', .pdPASS) := by
  simp only [RtosQueue.perform, hq]

theorem perform_full (hq : q.send item p = none) :
    q.perform (.send item p) = (q, .errQueueFull) := by
  simp only [RtosQueue.perform, hq]

theorem perform_receive {peek : Bool} (hq : q.receive peek = some (q', bs)) :
    q.perform (.receive peek) = (q', .item bs) := by
  simp only [RtosQueue.perform, hq]

theorem perform_empty {peek : Bool} (hq : q.receive peek = none) :
    q.perform (.receive peek) = (q, .errQueueEmpty) := by
  simp only [RtosQueue.perform, hq]

/-- **One operation**: the caller is told what the list tells. -/
theorem Contains.perform (h : q.Contains items) (hn : 0 < q.uxLength) {op : QueueOp}
    (hop : op.Allowed q.uxLength q.uxItemSize) :
    (q.perform op).2 = (items.perform q.uxLength q.uxItemSize op).2 ∧
      (q.perform op).1.Contains (items.perform q.uxLength q.uxItemSize op).1 ∧
      q.Follows (q.perform op).1 := by
  cases op with
  | send item p =>
    cases hq : q.send item p with
    | none =>
      have hitems := h.send_none.1 hq
      simp only [perform_full hq, Items.perform, hitems]
      exact ⟨trivial, h, .refl q⟩
    | some q' =>
      obtain ⟨items', hitems, hcontains, hfollows⟩ := h.send hop hq
      simp only [perform_send hq, Items.perform, hitems]
      exact ⟨trivial, hcontains, hfollows⟩
  | receive peek =>
    have hreceive := h.receive peek
    cases hitems : items.receive peek with
    | none =>
      rw [hitems] at hreceive
      simp only [perform_empty hreceive, Items.perform, hitems]
      exact ⟨trivial, h, .refl q⟩
    | some r =>
      rw [hitems] at hreceive
      obtain ⟨q', hq, hcontains, hfollows⟩ := hreceive
      simp only [perform_receive hq, Items.perform, hitems]
      exact ⟨trivial, hcontains, hfollows⟩
  | reset => exact ⟨rfl, contains_reset hn h.head, rfl, rfl, rfl, fun _ _ => rfl⟩

end RtosQueue

/-! ## Whole runs -/

/-- The queue, and what its callers were told so far. -/
def queueStep (s : RtosQueue × List QueueResult) (op : QueueOp) : RtosQueue × List QueueResult :=
  ((s.1.perform op).1, s.2 ++ [(s.1.perform op).2])

/-- The same of a list. -/
def itemsStep (n size : Nat) (s : Items × List QueueResult) (op : QueueOp) :
    Items × List QueueResult :=
  ((s.1.perform n size op).1, s.2 ++ [(s.1.perform n size op).2])

/-- **The queue is a list of at most `uxLength` items.** In every run from
its creation the callers are told what a list would tell them, the queue
counts its items, and nothing outside the storage area changes. -/
theorem queue_refines {n size head : Nat} (mem : Mem) (hn : 0 < n) (hhead : size ≤ head)
    (ops : List QueueOp) (hops : ∀ op ∈ ops, op.Allowed n size) :
    let q := run queueStep (.prvInitialiseNewQueue n size head mem, []) ops
    let l := run (itemsStep n size) ([], []) ops
    q.2 = l.2 ∧ q.1.uxMessagesWaiting = l.1.length ∧ l.1.length ≤ n ∧
      ∀ a, a < head ∨ head + n * size ≤ a → q.1.mem a = mem a := by
  set q₀ := RtosQueue.prvInitialiseNewQueue n size head mem with hq₀
  -- the two go together
  have hmeets : Meets queueStep (fun _ op => op.Allowed n size) (q₀, []) ops :=
    (meets_forall _ ops).2 hops
  have hsim : (run queueStep (q₀, []) ops).2 = (run (itemsStep n size) ([], []) ops).2 ∧
      (run queueStep (q₀, []) ops).1.Contains (run (itemsStep n size) ([], []) ops).1 ∧
      q₀.Follows (run queueStep (q₀, []) ops).1 :=
    hmeets.simulation (t := (([], []) : Items × List QueueResult))
      (R := fun s t => s.2 = t.2 ∧ s.1.Contains t.1 ∧ q₀.Follows s.1)
      ⟨rfl, RtosQueue.contains_reset hn hhead, .refl q₀⟩ ?_
  · obtain ⟨hresults, hcontains, hfollows⟩ := hsim
    have hle := hcontains.length_le
    rw [hfollows.uxLength] at hle
    exact ⟨hresults, hcontains.count, hle, hfollows.outside⟩
  · rintro ⟨q, results⟩ ⟨items, results'⟩ op ⟨hresults, hcontains, hfollows⟩ hop
    dsimp only at hresults hcontains hfollows
    have hlen : q.uxLength = n := hfollows.uxLength
    have hsize : q.uxItemSize = size := hfollows.uxItemSize
    rw [← hlen, ← hsize] at hop
    obtain ⟨hresult, hnext, hgrown⟩ := hcontains.perform (by omega) hop
    rw [hlen, hsize] at hresult hnext
    unfold queueStep itemsStep
    refine ⟨?_, hnext, hfollows.trans hgrown⟩
    dsimp only
    rw [hresults, hresult]

/-- Four bytes that all are `b`. -/
def fourOf (b : UInt8) : Mem := fun _ => b

/-- Two places, gone round, with a send that finds the queue full, one to
the front and a peek. -/
theorem queue_refines_round :
    let ops : List QueueOp := [.send (fourOf 1) .sendToBack, .send (fourOf 2) .sendToBack,
      .send (fourOf 3) .sendToBack, .receive false, .send (fourOf 4) .sendToFront, .receive true,
      .receive false, .receive false, .receive false]
    let q := run queueStep (.prvInitialiseNewQueue 2 4 76 fun _ => 0, []) ops
    let l := run (itemsStep 2 4) ([], []) ops
    q.2 = l.2 ∧ q.1.uxMessagesWaiting = l.1.length ∧ l.1.length ≤ 2 ∧
      ∀ a, a < 76 ∨ 76 + 2 * 4 ≤ a → q.1.mem a = 0 := by
  have hback : CopyPosition.sendToBack.Allowed 2 4 := by decide
  have hfront : CopyPosition.sendToFront.Allowed 2 4 := by decide
  refine queue_refines (fun _ => 0) (by omega) (by omega) _ ?_
  simp only [List.forall_mem_cons, List.not_mem_nil, false_imp_iff, implies_true, and_true]
  exact ⟨hback, hback, hback, trivial, hfront, trivial, trivial, trivial, trivial⟩

end BusMonitor
