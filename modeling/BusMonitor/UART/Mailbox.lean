import BusMonitor.Lib.Mem
import BusMonitor.Lib.Run
/-!
# The mailbox between the interrupt and the task

Each of the two serial channels has one receive message. The DMA stores
the bytes of a frame in its buffer, the idle interrupt notes their number,
points the DMA at the same buffer again and puts a pointer to the message
in a queue of depth 10; the task takes pointers and handles the message.
`frames_kept_iff` says in which runs the task handles the frames that were
received: a frame that arrives while others wait has to repeat them.
-/


namespace BusMonitor

open Stepwise

/-! ## The message -/

/-- `Rx_Buffer` has `PC_RxLen` bytes on both channels. -/
def rxBufferLen : Nat := 1024

/-- The depth of `PC_QueueHandle` and `SUB_QueueHandle`. -/
def queueDepth : Nat := 10

/-- The two channels. -/
inductive Channel where
  | pc
  | sub

/-- The bytes the DMA is set to transfer: `PC_RxLen` and `SUB_RxLen`. -/
def Channel.rxLen : Channel → Nat
  | .pc => 1024
  | .sub => 1152

/-- The receive message of a channel, the bytes its DMA may still
transfer, and its queue, of which every entry is the one pointer. The
memory starts at `Rx_Buffer`. -/
structure Mailbox where
  rxBuffer : Mem
  rxLen : Nat
  ndtr : Nat
  queue : Nat

namespace Mailbox

variable {c : Channel} {m : Mailbox}

/-- Where the DMA stores the next byte. -/
def target (c : Channel) (m : Mailbox) : Nat := c.rxLen - m.ndtr

/-- The DMA on a byte. At the end of its transfer it stops. -/
def dmaByte (c : Channel) (m : Mailbox) (b : UInt8) : Mailbox :=
  if m.ndtr = 0 then m
  else { m with rxBuffer := m.rxBuffer.write (m.target c) [b], ndtr := m.ndtr - 1 }

/-- The idle interrupt. A full queue refuses the pointer. -/
def uartRxIdle (c : Channel) (m : Mailbox) : Mailbox :=
  { m with
    rxLen := c.rxLen - m.ndtr
    ndtr := c.rxLen
    queue := if m.queue < queueDepth then m.queue + 1 else m.queue }

/-- The bytes the task hands to its handler. -/
def msg (m : Mailbox) : List UInt8 := m.rxBuffer.read 0 m.rxLen

/-- One turn of `PC_TaskFun` or `SUB_TaskFun`. -/
def taskFun (m : Mailbox) : Mailbox := { m with queue := m.queue - 1 }

/-- The DMA waits for a first byte. -/
def armed (c : Channel) (mem : Mem) : Mailbox := ⟨mem, 0, c.rxLen, 0⟩

end Mailbox

/-! ## Runs -/

/-- What can come next: a byte on the line, the line falling idle, the task
getting its turn. -/
inductive MailOp where
  | byte (b : UInt8)
  | idle
  | handle
  deriving DecidableEq

/-- The mailbox with what passed it: the bytes since the line was idle, the
frames received, the frames the handler was given, the places the DMA
stored at. -/
structure MailRun where
  box : Mailbox
  arriving : List UInt8
  received : List (List UInt8)
  handled : List (List UInt8)
  stored : List Nat

namespace MailRun

variable {c : Channel} {r : MailRun}

/-- One step. The line falls idle after a byte only. -/
def step (c : Channel) (r : MailRun) : MailOp → MailRun
  | .byte b =>
    { r with
      box := r.box.dmaByte c b
      arriving := r.arriving ++ [b]
      stored := if r.box.ndtr = 0 then r.stored else r.stored ++ [r.box.target c] }
  | .idle =>
    if r.arriving = [] then r
    else { r with
      box := r.box.uartRxIdle c
      arriving := []
      received := r.received ++ [r.arriving] }
  | .handle =>
    if r.box.queue = 0 then r
    else { r with box := r.box.taskFun, handled := r.handled ++ [r.box.msg] }

def init (c : Channel) (mem : Mem) : MailRun := ⟨.armed c mem, [], [], [], []⟩

/-- The frames handled are the first ones received, the others are waiting,
and the DMA kept to the buffer. -/
structure Faithful (r : MailRun) : Prop where
  handled : r.handled <+: r.received
  waiting : r.received.length = r.handled.length + r.box.queue
  inside : ∀ a ∈ r.stored, a < rxBufferLen

/-- Faithful now, and however many turns the task gets next. -/
def Right (c : Channel) (r : MailRun) : Prop :=
  ∀ n, Faithful (run (step c) r (List.replicate n .handle))

def StepRight (c : Channel) (r : MailRun) (op : MailOp) : Prop := Right c (step c r op)

/-- The condition on a step. A byte the DMA has room for is stored inside
the buffer and, while frames wait, does not change what they are read
from; a frame that ends fits the transfer, finds room in the queue and has
the length of those that wait. -/
def StepOk (c : Channel) (r : MailRun) : MailOp → Prop
  | .byte b =>
    r.arriving.length < c.rxLen → r.arriving.length < rxBufferLen ∧
      (r.box.queue ≠ 0 → r.arriving.length < r.box.rxLen → r.box.rxBuffer r.arriving.length = b)
  | .idle =>
    r.arriving ≠ [] → r.arriving.length ≤ c.rxLen ∧ r.box.queue < queueDepth ∧
      (r.box.queue ≠ 0 → r.arriving.length = r.box.rxLen)
  | .handle => True

instance (c : Channel) (r : MailRun) : ∀ op, Decidable (StepOk c r op)
  | .byte _ => inferInstanceAs (Decidable (_ → _ ∧ (_ → _ → _)))
  | .idle => inferInstanceAs (Decidable (_ → _ ∧ _ ∧ (_ → _)))
  | .handle => isTrue trivial

/-! ## The steps -/

theorem step_quiet (h : r.arriving = []) : step c r .idle = r := if_pos h

theorem step_idle (h : r.arriving ≠ []) :
    step c r .idle =
      { r with
        box := r.box.uartRxIdle c
        arriving := []
        received := r.received ++ [r.arriving] } := if_neg h

theorem step_handle_none (h : r.box.queue = 0) : step c r .handle = r := if_pos h

theorem step_handle (h : r.box.queue ≠ 0) :
    step c r .handle =
      { r with box := r.box.taskFun, handled := r.handled ++ [r.box.msg] } := if_neg h

/-! ## The turns of the task -/

@[simp] theorem msg_taskFun (m : Mailbox) : m.taskFun.msg = m.msg := rfl

/-- The next turns of the task all read the same message. -/
theorem run_handle (n : Nat) :
    run (step c) r (List.replicate n .handle) =
      { r with
        box := { r.box with queue := r.box.queue - n }
        handled := r.handled ++ List.replicate (min n r.box.queue) r.box.msg } := by
  induction n generalizing r with
  | zero => simp
  | succ n ih =>
    rw [List.replicate_succ, run_cons, ih]
    by_cases hq : r.box.queue = 0
    · simp [step, hq]
    · have hmin : min (n + 1) r.box.queue = min n (r.box.queue - 1) + 1 := by omega
      simp only [step, hq, if_false, Mailbox.taskFun, hmin, List.replicate_succ,
        List.append_assoc, List.cons_append, List.nil_append, Nat.sub_sub, Nat.add_comm 1 n]
      rfl

/-- **What is right.** The frames received are those handled and then, for
each entry of the queue, the message as it is. -/
theorem right_iff : Right c r ↔
    r.received = r.handled ++ List.replicate r.box.queue r.box.msg ∧
      ∀ a ∈ r.stored, a < rxBufferLen := by
  constructor
  · intro h
    -- after as many turns as the queue has entries all frames are handled
    have hend := h r.box.queue
    rw [run_handle, Nat.min_self] at hend
    have hlen : (r.handled ++ List.replicate r.box.queue r.box.msg).length =
        r.received.length := by
      have hwait := (h 0).waiting
      simp only [List.replicate_zero, run_nil] at hwait
      rw [List.length_append, List.length_replicate, hwait]
    exact ⟨(hend.handled.eq_of_length hlen).symm, hend.inside⟩
  · rintro ⟨hrec, hin⟩ n
    rw [run_handle]
    refine ⟨?_, ?_, hin⟩
    · -- the entries that are left are the rest
      obtain ⟨k, hk⟩ := Nat.exists_eq_add_of_le (Nat.min_le_right n r.box.queue)
      refine ⟨List.replicate k r.box.msg, ?_⟩
      rw [hrec, List.append_assoc, List.replicate_append_replicate, ← hk]
    · simp only [hrec, List.length_append, List.length_replicate]
      omega

/-! ## The invariant -/

/-- The bytes of the arriving frame are in their places. -/
structure Placed (c : Channel) (r : MailRun) : Prop where
  ndtr : r.box.ndtr = c.rxLen - r.arriving.length
  bytes : ∀ i < r.arriving.length, i < c.rxLen → r.box.rxBuffer i = r.arriving.getD i 0

/-- A byte the DMA has room for. -/
theorem Placed.step_byte (h : Placed c r) (hlt : r.arriving.length < c.rxLen) (b : UInt8) :
    step c r (.byte b) =
      { r with
        box := { r.box with
          rxBuffer := r.box.rxBuffer.write r.arriving.length [b]
          ndtr := r.box.ndtr - 1 }
        arriving := r.arriving ++ [b]
        stored := r.stored ++ [r.arriving.length] } := by
  have hn := h.ndtr
  have hne : r.box.ndtr ≠ 0 := by omega
  have htarget : r.box.target c = r.arriving.length := by
    unfold Mailbox.target
    omega
  simp only [step, Mailbox.dmaByte, hne, if_false, htarget]

/-- A byte behind the transfer is lost. -/
theorem Placed.step_lost (h : Placed c r) (hge : c.rxLen ≤ r.arriving.length) (b : UInt8) :
    step c r (.byte b) = { r with arriving := r.arriving ++ [b] } := by
  have hn := h.ndtr
  have hz : r.box.ndtr = 0 := by omega
  simp only [step, Mailbox.dmaByte, hz, if_true]

/-- What a frame that fits the transfer left in the buffer. -/
theorem Placed.read_arriving (h : Placed c r) (hle : r.arriving.length ≤ c.rxLen) :
    r.box.rxBuffer.read 0 r.arriving.length = r.arriving := by
  refine List.ext_getElem (by simp) fun i _ hi => ?_
  simp only [Mem.read, List.getElem_map, List.getElem_range, Nat.zero_add]
  rw [h.bytes i hi (by omega), List.getD_eq_getElem _ _ hi]

/-- The message is the frame that just ended if and only if that fitted
the transfer. -/
theorem Placed.msg_idle (h : Placed c r) :
    r.arriving = (r.box.uartRxIdle c).msg ↔ r.arriving.length ≤ c.rxLen := by
  have hn := h.ndtr
  constructor
  · intro heq
    have hlen := congrArg List.length heq
    simp only [Mailbox.msg, Mailbox.uartRxIdle, Mem.length_read] at hlen
    omega
  · intro hle
    have hlen : c.rxLen - r.box.ndtr = r.arriving.length := by omega
    simp only [Mailbox.msg, Mailbox.uartRxIdle, hlen]
    exact (h.read_arriving hle).symm

/-- The frames that wait read as the one that just ended if and only if
they have its length. -/
theorem Placed.msg_eq_arriving (h : Placed c r) (hle : r.arriving.length ≤ c.rxLen) :
    r.box.msg = r.arriving ↔ r.arriving.length = r.box.rxLen := by
  constructor
  · intro heq
    have hlen := congrArg List.length heq
    rw [Mailbox.msg, Mem.length_read] at hlen
    exact hlen.symm
  · intro hlen
    rw [Mailbox.msg, ← hlen]
    exact h.read_arriving hle

theorem replicate_concat {α : Type*} {x y z : α} {q n : Nat} :
    List.replicate q x ++ [y] = List.replicate n z ↔ n = q + 1 ∧ y = z ∧ (q ≠ 0 → x = z) := by
  rw [List.eq_replicate_iff]
  simp only [List.length_append, List.length_replicate, List.length_singleton, List.mem_append,
    List.mem_replicate, List.mem_singleton]
  constructor
  · rintro ⟨hlen, hall⟩
    exact ⟨hlen.symm, hall y (.inr rfl), fun hq => hall x (.inl ⟨hq, rfl⟩)⟩
  · rintro ⟨hn, hy, hx⟩
    refine ⟨hn.symm, ?_⟩
    rintro b (⟨hq, rfl⟩ | rfl)
    · exact hx hq
    · exact hy

/-! ## The condition -/

/-- Right so far, with the arriving bytes in their places. -/
structure Sound (c : Channel) (r : MailRun) : Prop where
  right : Right c r
  placed : Placed c r

theorem sound_init (c : Channel) (mem : Mem) : Sound c (init c mem) where
  right := right_iff.2 ⟨rfl, by simp [init]⟩
  placed := ⟨rfl, by simp [init]⟩

theorem Sound.byte_iff (h : Sound c r) (b : UInt8) :
    StepRight c r (.byte b) ↔ StepOk c r (.byte b) := by
  obtain ⟨hrec, hin⟩ := right_iff.1 h.right
  unfold StepRight
  rcases Nat.lt_or_ge r.arriving.length c.rxLen with hlt | hge
  · rw [h.placed.step_byte hlt, right_iff]
    -- the frames that wait are read from the buffer with the byte in it
    have hsame : List.replicate r.box.queue r.box.msg =
        List.replicate r.box.queue ((r.box.rxBuffer.write r.arriving.length [b]).read 0 r.box.rxLen)
          ↔ (r.box.queue ≠ 0 → r.arriving.length < r.box.rxLen →
              r.box.rxBuffer r.arriving.length = b) := by
      rw [← Mem.read_write_byte, List.replicate_right_inj']
      exact ⟨fun hor hq => (hor.resolve_left hq).symm, fun himp =>
        (eq_or_ne r.box.queue 0).imp_right fun hq => (himp hq).symm⟩
    dsimp only [Mailbox.msg] at hsame hrec ⊢
    rw [hrec, List.append_cancel_left_eq]
    constructor
    · rintro ⟨hwait, hstored⟩ -
      exact ⟨hstored _ (by simp), hsame.1 hwait⟩
    · intro hok
      obtain ⟨hpos, hkeep⟩ := hok hlt
      refine ⟨hsame.2 hkeep, fun a ha => ?_⟩
      rcases List.mem_append.1 ha with hold | hnew
      · exact hin a hold
      · rw [List.mem_singleton.1 hnew]
        exact hpos
  · rw [h.placed.step_lost hge, right_iff]
    exact iff_of_true ⟨hrec, hin⟩ fun hlt => absurd hlt (by omega)

theorem Sound.idle_iff (h : Sound c r) : StepRight c r .idle ↔ StepOk c r .idle := by
  obtain ⟨hrec, hin⟩ := right_iff.1 h.right
  unfold StepRight
  by_cases hne : r.arriving = []
  · rw [step_quiet hne]
    exact iff_of_true h.right fun hc => absurd hne hc
  · have hmsg := h.placed.msg_idle
    have hold := h.placed.msg_eq_arriving
    have hroom : (r.box.uartRxIdle c).queue = r.box.queue + 1 ↔ r.box.queue < queueDepth := by
      simp only [Mailbox.uartRxIdle]
      split <;> omega
    rw [step_idle hne, right_iff]
    dsimp only
    rw [hrec, List.append_assoc, List.append_cancel_left_eq, replicate_concat, hmsg, hroom]
    constructor
    · rintro ⟨⟨hq, hle, hwait⟩, -⟩ -
      refine ⟨hle, hq, fun hq0 => (hold hle).1 ?_⟩
      rw [hwait hq0, ← hmsg.2 hle]
    · intro hok
      obtain ⟨hle, hq, hlen⟩ := hok hne
      refine ⟨⟨hq, hle, fun hq0 => ?_⟩, hin⟩
      rw [← hmsg.2 hle]
      exact (hold hle).2 (hlen hq0)

/-- A turn of the task leaves what is right as it is. -/
theorem Right.handle (h : Right c r) : Right c (step c r .handle) := by
  intro n
  exact h (n + 1)

theorem Sound.stepRight_iff (h : Sound c r) (op : MailOp) :
    StepRight c r op ↔ StepOk c r op := by
  cases op with
  | byte b => exact h.byte_iff b
  | idle => exact h.idle_iff
  | handle => exact iff_of_true h.right.handle trivial

/-- Whatever the step, the bytes of the arriving frame are in their places. -/
theorem Placed.step (h : Placed c r) (op : MailOp) : Placed c (step c r op) := by
  have hn := h.ndtr
  cases op with
  | byte b =>
    rcases Nat.lt_or_ge r.arriving.length c.rxLen with hlt | hge
    · rw [h.step_byte hlt]
      refine ⟨by simp only [List.length_append, List.length_singleton]; omega, fun i hi hic => ?_⟩
      simp only [List.length_append, List.length_singleton] at hi
      dsimp only
      rcases Nat.lt_or_ge i r.arriving.length with hold | hnew
      · -- the new byte is stored behind the others
        rw [Mem.write_of_disjoint (.inl hold), h.bytes i hold hic, List.getD_append _ _ _ _ hold]
      · obtain rfl : i = r.arriving.length := by omega
        simp
    · rw [h.step_lost hge]
      refine ⟨by simp only [List.length_append, List.length_singleton]; omega, fun i hi hic => ?_⟩
      have hold : i < r.arriving.length := by omega
      dsimp only
      rw [h.bytes i hold hic, List.getD_append _ _ _ _ hold]
  | idle =>
    by_cases hne : r.arriving = []
    · rw [step_quiet hne]
      exact h
    · rw [step_idle hne]
      exact ⟨rfl, by simp⟩
  | handle =>
    by_cases hq : r.box.queue = 0
    · rw [step_handle_none hq]
      exact h
    · rw [step_handle hq]
      exact ⟨h.ndtr, h.bytes⟩

/-- **One step** that is right. -/
theorem Sound.step (h : Sound c r) {op : MailOp} (hr : StepRight c r op) :
    Sound c (step c r op) :=
  ⟨hr, h.placed.step op⟩

/-- **The frames are kept** in exactly the runs whose steps meet the
condition. -/
theorem frames_kept_iff (c : Channel) (mem : Mem) (ops : List MailOp) :
    Meets (MailRun.step c) (StepRight c) (init c mem) ops ↔
      Meets (MailRun.step c) (StepOk c) (init c mem) ops :=
  meets_congr ops (sound_init c mem) (fun _ _ h hr => h.step hr) fun _ op h => h.stepRight_iff op

/-! ## Long frames and quick ones -/

theorem arriving_bytes (bs : List UInt8) :
    (run (MailRun.step c) r (bs.map .byte)).arriving = r.arriving ++ bs := by
  induction bs generalizing r with
  | nil => simp
  | cons b bs ih =>
    rw [List.map_cons, run_cons, ih]
    simp [MailRun.step]

theorem Sound.run {ops : List MailOp} (h : Sound c r)
    (hm : Meets (MailRun.step c) (StepRight c) r ops) : Sound c (run (MailRun.step c) r ops) :=
  hm.invariant h fun _ _ h hr => h.step hr

/-- A frame the DMA would store behind the buffer. -/
theorem long_frame {bs : List UInt8} {b : UInt8} (hlen : bs.length = rxBufferLen)
    (hlt : rxBufferLen < c.rxLen) (mem : Mem) :
    ¬ Meets (MailRun.step c) (StepRight c) (init c mem) ((bs ++ [b]).map .byte) := by
  intro hm
  rw [List.map_append, meets_append] at hm
  have hsound := (sound_init c mem).run hm.1
  have hok := (hsound.byte_iff b).1 hm.2.1
  have harr : (Stepwise.run (MailRun.step c) (init c mem) (bs.map .byte)).arriving = bs :=
    arriving_bytes bs
  simp only [StepOk, harr, hlen] at hok
  exact absurd (hok hlt).1 (Nat.lt_irrefl _)

/-- Two frames of one byte before the task gets its turn. -/
def overtaken : MailRun :=
  run (MailRun.step .pc) (init .pc fun _ => 0) [.byte 1, .idle, .byte 2, .idle, .handle, .handle]

/-- The task is given the second of two frames twice. On the channel of the
sub-modules a frame of 1025 bytes is stored behind the buffer. -/
theorem frames_lost :
    (overtaken.received = [[1], [2]] ∧ overtaken.handled = [[2], [2]]) ∧
    ¬ Meets (MailRun.step .pc) (StepRight .pc) (init .pc fun _ => 0)
      [.byte 1, .idle, .byte 2, .idle] ∧
    ¬ Meets (MailRun.step .sub) (StepRight .sub) (init .sub fun _ => 0)
      ((List.replicate 1024 (0 : UInt8) ++ [0]).map .byte) := by
  have hlt : rxBufferLen < Channel.rxLen .sub := by decide
  refine ⟨by decide, fun hm => ?_, long_frame List.length_replicate hlt _⟩
  obtain ⟨hrec, -⟩ := right_iff.1 hm.2.2.2.1
  exact absurd hrec (by decide)

/-- The task is done with the frame before, and the buffer has room. -/
def Prompt (r : MailRun) : MailOp → Prop
  | .byte _ => r.box.queue = 0 ∧ r.arriving.length < rxBufferLen
  | _ => True

theorem rxBufferLen_le (c : Channel) : rxBufferLen ≤ c.rxLen := by
  cases c <;> decide

/-- **A quick task.** Where no byte arrives while a frame waits, and no
frame is longer than the buffer, every step meets the condition. -/
theorem stepOk_of_prompt {mem : Mem} {ops : List MailOp}
    (h : Meets (MailRun.step c) Prompt (init c mem) ops) :
    Meets (MailRun.step c) (StepOk c) (init c mem) ops := by
  have hle := rxBufferLen_le c
  -- a frame that has begun to arrive does so to an empty queue
  refine h.imp (I := fun r => (r.arriving ≠ [] → r.box.queue = 0) ∧
    r.arriving.length ≤ rxBufferLen) ⟨fun hc => absurd rfl hc, Nat.zero_le _⟩ ?_ ?_
  · rintro r (b | _ | _) ⟨hq, hlen⟩ hok
    · obtain ⟨hq0, hlt⟩ := hok
      refine ⟨fun _ => ?_, by simpa [MailRun.step, Nat.succ_le_iff] using hlt⟩
      simp only [MailRun.step, Mailbox.dmaByte]
      split <;> exact hq0
    · by_cases hne : r.arriving = []
      · rw [step_quiet hne]
        exact ⟨hq, hlen⟩
      · rw [step_idle hne]
        exact ⟨fun hc => absurd rfl hc, Nat.zero_le _⟩
    · by_cases hq0 : r.box.queue = 0
      · rw [step_handle_none hq0]
        exact ⟨hq, hlen⟩
      · rw [step_handle hq0]
        exact ⟨fun hne => absurd (hq hne) hq0, hlen⟩
  · rintro r (b | _ | _) ⟨hq, hlen⟩ hok
    · obtain ⟨hq0, hlt⟩ := hok
      exact fun _ => ⟨hlt, fun hc => absurd hq0 hc⟩
    · intro hne
      refine ⟨le_trans hlen hle, ?_, fun hc => absurd (hq hne) hc⟩
      rw [hq hne]
      decide
    · trivial

end MailRun

end BusMonitor
