import BusMonitor.Lib.Ring
import BusMonitor.Lib.Run
import BusMonitor.Lib.Segments
import BusMonitor.TCP.Client
/-!
# Frames to the Ethernet

`low_level_output` of `ethernetif.c` copies the pbufs of a frame into the
buffers of the transmit descriptors, and `HAL_ETH_TransmitFrame` gives these
to the DMA. The DMA works on the same descriptors all the time. What it has
done is looked at wherever the code looks at what the DMA writes or writes
what the DMA looks at, and how far it got by then is a schedule: a number of
its steps for each of these moments.
-/


namespace BusMonitor

open Ring Segment

def ethTxBufSize : Nat := 1524
def ethTxBufNb : Nat := 4

/-- `ETH_DMATXDESC_TBS1`, the bits of a buffer's size. -/
def ethDMATxDescTBS1 : Nat := 0x1FFF

/-- `ERR_USE` of lwIP. -/
def errUse : Int := -8

/-- A descriptor, with three bits of its `Status`, and the buffer that
`Buffer1Addr` points to. -/
structure TxDesc where
  own : Bool
  fs : Bool
  ls : Bool
  controlBufferSize : Nat
  buffer2NextDescAddr : Nat
  buffer1 : Mem

/-- What the DMA sends of it. -/
def TxDesc.segment (d : TxDesc) : Segment UInt8 :=
  ⟨d.fs, d.ls, d.buffer1.read 0 d.controlBufferSize⟩

/-- That, when the descriptor is its own. -/
def TxDesc.given (d : TxDesc) : Option (Segment UInt8) := if d.own then some d.segment else none

/-- The descriptors, the next one to use, the flag of the DMA for a
descriptor it did not get, and the DMA itself: where it is, whether it waits
for a poll demand, and what it has sent. `moment` counts the looks. -/
structure EthTx where
  dscrTab : Nat → TxDesc
  txDesc : Nat
  tbus : Bool
  current : Nat
  suspended : Bool
  line : Inbox UInt8
  moment : Nat

namespace EthTx

def setDesc (s : EthTx) (i : Nat) (d : TxDesc) : EthTx :=
  { s with dscrTab := Function.update s.dscrTab i d }

/-- One step of the DMA: it sends the segment of its descriptor and gives
the descriptor back, or waits when the descriptor is not its own. -/
def dma (s : EthTx) : EthTx :=
  let d := s.dscrTab s.current
  if s.suspended then s
  else if d.own then
    { s.setDesc s.current { d with own := false } with
      current := d.buffer2NextDescAddr
      line := s.line.take d.segment }
  else { s with suspended := true, tbus := true }

/-- What the DMA does up to the next look. -/
def look (sched : Nat → Nat) (s : EthTx) : EthTx :=
  { dma^[sched s.moment] s with moment := s.moment + 1 }

/-- `HAL_ETH_DMATxDescListInit`: the DMA begins at the first descriptor. -/
def halETHDMATxDescListInit (buffers : Nat → Mem) : EthTx where
  dscrTab i := ⟨false, false, false, 0, if i < ethTxBufNb - 1 then i + 1 else 0, buffers i⟩
  txDesc := 0
  tbus := false
  current := 0
  suspended := false
  line := ⟨[], []⟩
  moment := 0

/-- The descriptor `TxDesc` is given to the DMA. -/
def give (sched : Nat → Nat) (fs ls : Bool) (size : Nat) (s : EthTx) : EthTx :=
  let s := s.look sched
  let d := s.dscrTab s.txDesc
  { s.setDesc s.txDesc { d with
      fs := fs, ls := ls, controlBufferSize := size &&& ethDMATxDescTBS1, own := true } with
    txDesc := d.buffer2NextDescAddr }

/-- The loop over `bufcount` descriptors, from the one before last `n` on. -/
def giveLoop (sched : Nat → Nat) (frameLength bufcount : Nat) : Nat → EthTx → EthTx
  | 0, s => s
  | n + 1, s =>
    let i := bufcount - (n + 1)
    let s :=
      if i = bufcount - 1 then
        s.give sched (i = 0) true (frameLength - (bufcount - 1) * ethTxBufSize)
      else s.give sched (i = 0) false ethTxBufSize
    giveLoop sched frameLength bufcount n s

/-- `HAL_ETH_TransmitFrame`. -/
def halETHTransmitFrame (sched : Nat → Nat) (frameLength : Nat) (s : EthTx) : EthTx :=
  if frameLength = 0 then s
  else
    let s := s.look sched
    -- only the first descriptor is looked at
    if (s.dscrTab s.txDesc).own then s
    else
      let bufcount :=
        if frameLength > ethTxBufSize then
          if frameLength % ethTxBufSize ≠ 0 then frameLength / ethTxBufSize + 1
          else frameLength / ethTxBufSize
        else 1
      let s :=
        if bufcount = 1 then s.give sched true true frameLength
        else s.giveLoop sched frameLength bufcount bufcount
      let s := s.look sched
      -- the DMA has come to a descriptor before it was given it
      if s.tbus then
        let s := { s with tbus := false }
        let s := s.look sched
        { s with suspended := false }
      else s

/-- Where the copying of a frame is. -/
structure Copying where
  dmaTxDesc : Nat
  bufferoffset : Nat
  framelength : Nat

/-- `memcpy` to the buffer of a descriptor. -/
def memcpy (s : EthTx) (i bufferoffset : Nat) (bs : List UInt8) : EthTx :=
  let d := s.dscrTab i
  s.setDesc i { d with buffer1 := d.buffer1.write bufferoffset bs }

/-- The copying of one pbuf: `left` are the bytes from `payloadoffset` on,
`byteslefttocopy` of them. `none` is the jump to `error`. -/
def copyPbuf (sched : Nat → Nat) (left : List UInt8) (c : Copying) (s : EthTx) :
    Option Copying × EthTx :=
  let room := ethTxBufSize - c.bufferoffset
  if ethTxBufSize < left.length + c.bufferoffset then
    let s := s.memcpy c.dmaTxDesc c.bufferoffset (left.take room)
    let next := (s.dscrTab c.dmaTxDesc).buffer2NextDescAddr
    let s := s.look sched
    -- the next buffer is still being sent
    if (s.dscrTab next).own then (none, s)
    else copyPbuf sched (left.drop room) ⟨next, 0, c.framelength + room⟩ s
  else
    (some { c with
        bufferoffset := c.bufferoffset + left.length
        framelength := c.framelength + left.length },
      s.memcpy c.dmaTxDesc c.bufferoffset left)
termination_by left.length + c.bufferoffset
decreasing_by
  have hsize : ethTxBufSize = 1524 := rfl
  rw [List.length_drop]
  omega

/-- The loop over the pbufs of the frame. -/
def copyPbufs (sched : Nat → Nat) : List (List UInt8) → Copying → EthTx → Option Copying × EthTx
  | [], c, s => (some c, s)
  | q :: qs, c, s =>
    let s := s.look sched
    if (s.dscrTab c.dmaTxDesc).own then (none, s)
    else
      match copyPbuf sched q c s with
      | (none, s) => (none, s)
      | (some c, s) => copyPbufs sched qs c s

/-- `low_level_output`. Left out are the transmit underflow, whose flag it
clears at its end, and the lock of the HAL, which turns a call away that is
made in the middle of another one. -/
def lowLevelOutput (sched : Nat → Nat) (p : List (List UInt8)) (s : EthTx) : Int × EthTx :=
  match copyPbufs sched p ⟨s.txDesc, 0, 0⟩ s with
  | (none, s) => (errUse, s)
  | (some c, s) => (errOk, s.halETHTransmitFrame sched c.framelength)

/-! ## The ring -/

/-- What the DMA has of the descriptors. -/
def given (s : EthTx) : Nat → Option (Segment UInt8) := TxDesc.given ∘ s.dscrTab

def nexts (s : EthTx) : Nat → Nat := TxDesc.buffer2NextDescAddr ∘ s.dscrTab

def buffers (s : EthTx) : Nat → Mem := TxDesc.buffer1 ∘ s.dscrTab

variable {s s' : EthTx} {q : List (Segment UInt8)} {b : Inbox UInt8} {sched : Nat → Nat}

@[simp] theorem given_setDesc (s : EthTx) (i : Nat) (d : TxDesc) :
    (s.setDesc i d).given = Function.update s.given i d.given := Function.comp_update ..

@[simp] theorem nexts_setDesc (s : EthTx) (i : Nat) (d : TxDesc) :
    (s.setDesc i d).nexts = Function.update s.nexts i d.buffer2NextDescAddr :=
  Function.comp_update ..

@[simp] theorem buffers_setDesc (s : EthTx) (i : Nat) (d : TxDesc) :
    (s.setDesc i d).buffers = Function.update s.buffers i d.buffer1 := Function.comp_update ..

theorem nexts_setDesc_self {i : Nat} {d : TxDesc} (h : d.buffer2NextDescAddr = s.nexts i) :
    (s.setDesc i d).nexts = s.nexts := by
  rw [nexts_setDesc, h, Function.update_eq_self]

theorem buffers_setDesc_self {i : Nat} {d : TxDesc} (h : d.buffer1 = s.buffers i) :
    (s.setDesc i d).buffers = s.buffers := by
  rw [buffers_setDesc, h, Function.update_eq_self]

/-- The DMA has the segments `q`, from where it is up to the descriptor to
use next, and what it has sent and these together are `b`. -/
structure Sound (s : EthTx) (q : List (Segment UInt8)) (b : Inbox UInt8) : Prop where
  shows : Ring.Shows ethTxBufNb s.given s.current q
  next : ∀ i < ethTxBufNb, s.nexts i = place ethTxBufNb i 1
  txDesc : s.txDesc = place ethTxBufNb s.current q.length
  line : s.line.takeAll q = b

/-- A DMA that waits for a poll demand has set its flag. -/
def Told (s : EthTx) : Prop := s.suspended = true → s.tbus = true

/-- The DMA does not wait for a poll demand with something to send. -/
def Awake (s : EthTx) (q : List (Segment UInt8)) : Prop := s.suspended = true → q = []

/-- What the program alone writes is as it was. -/
structure Same (s' s : EthTx) : Prop where
  txDesc : s'.txDesc = s.txDesc
  nexts : s'.nexts = s.nexts
  buffers : s'.buffers = s.buffers

theorem Same.refl (s : EthTx) : Same s s := ⟨rfl, rfl, rfl⟩

theorem Same.trans {s₁ s₂ s₃ : EthTx} (h : Same s₁ s₂) (h' : Same s₂ s₃) : Same s₁ s₃ :=
  ⟨h.txDesc.trans h'.txDesc, h.nexts.trans h'.nexts, h.buffers.trans h'.buffers⟩

theorem sound_init (buffers : Nat → Mem) :
    (halETHDMATxDescListInit buffers).Sound [] ⟨[], []⟩ := by
  refine ⟨shows_nil (Nat.zero_lt_succ 3) fun _ _ => rfl, fun i hi => ?_, rfl, rfl⟩
  change (if i < 4 - 1 then i + 1 else 0) = (i + 1) % 4
  have hi : i < 4 := hi
  split <;> omega

theorem dma_suspended (h : s.suspended = true) : s.dma = s := if_pos h

theorem dma_own (h : s.suspended = false) (hown : (s.dscrTab s.current).own = true) :
    s.dma = { s.setDesc s.current { s.dscrTab s.current with own := false } with
      current := s.nexts s.current
      line := s.line.take (s.dscrTab s.current).segment } :=
  (if_neg (ne_true_of_eq_false h)).trans (if_pos hown)

theorem dma_free (h : s.suspended = false) (hown : (s.dscrTab s.current).own = false) :
    s.dma = { s with suspended := true, tbus := true } :=
  (if_neg (ne_true_of_eq_false h)).trans (if_neg (ne_true_of_eq_false hown))

/-- A step of the DMA leaves alone what the program writes. -/
theorem same_dma (s : EthTx) : Same s.dma s := by
  cases hsusp : s.suspended with
  | true => rw [dma_suspended hsusp]; exact .refl s
  | false =>
    cases hown : (s.dscrTab s.current).own with
    | true =>
      rw [dma_own hsusp hown]
      exact ⟨rfl, nexts_setDesc_self rfl, buffers_setDesc_self rfl⟩
    | false => rw [dma_free hsusp hown]; exact ⟨rfl, rfl, rfl⟩

/-- The descriptor the DMA is at is its own if there is a segment. -/
theorem Sound.given_current (hs : s.Sound q b) :
    (s.dscrTab s.current).given = q.head? := hs.shows.get_head

theorem Sound.own_nil (hs : s.Sound [] b) : (s.dscrTab s.current).own = false := by
  have hhead := hs.given_current
  by_contra hc
  rw [TxDesc.given, if_pos (by simpa using hc)] at hhead
  exact absurd hhead (Option.some_ne_none _)

theorem Sound.own_cons {x : Segment UInt8} (hs : s.Sound (x :: q) b) :
    (s.dscrTab s.current).own = true ∧ (s.dscrTab s.current).segment = x := by
  have hhead := hs.given_current
  unfold TxDesc.given at hhead
  split at hhead
  · exact ⟨‹_›, Option.some.inj hhead⟩
  · exact absurd hhead.symm (Option.some_ne_none _)

/-- **One step of the DMA** takes the segment at the head, or waits when
there is none. -/
theorem Sound.dma (hs : s.Sound q b) :
    s.dma.Sound (if s.suspended then q else q.tail) b ∧ (s.Told → s.dma.Told) ∧
    (s.Awake q → s.dma.Awake (if s.suspended then q else q.tail)) := by
  have hsame := same_dma s
  cases hsusp : s.suspended with
  | true =>
    rw [dma_suspended hsusp]
    exact ⟨hs, id, id⟩
  | false =>
    cases q with
    | nil =>
      rw [dma_free hsusp hs.own_nil]
      exact ⟨⟨hs.shows, hs.next, hs.txDesc, hs.line⟩, fun _ _ => rfl, fun _ _ => rfl⟩
    | cons x q =>
      obtain ⟨hown, hseg⟩ := hs.own_cons
      rw [dma_own hsusp hown, hseg, hs.next _ hs.shows.head_lt] at hsame ⊢
      refine ⟨⟨?_, fun i hi => ?_, ?_, hs.line⟩, id, fun _ hc => ?_⟩
      · refine hs.shows.pop.congr fun i _ => ?_
        exact congrFun (given_setDesc ..) i
      · rw [hsame.nexts]
        exact hs.next i hi
      · rw [List.tail_cons, place_place, Nat.add_comm]
        exact hs.txDesc
      · exact absurd hc (ne_true_of_eq_false hsusp)

/-- The DMA has gone on, and the program has given it nothing. -/
structure Later (s' : EthTx) (q' : List (Segment UInt8)) (s : EthTx) (q : List (Segment UInt8))
    (b : Inbox UInt8) : Prop where
  sound : s'.Sound q' b
  length_le : q'.length ≤ q.length
  txDesc : s'.txDesc = s.txDesc
  told : s.Told → s'.Told
  awake : s.Awake q → s'.Awake q'

theorem Sound.refl (hs : s.Sound q b) : Later s q s q b := ⟨hs, le_rfl, rfl, id, id⟩

theorem Later.trans {s₁ s₂ s₃ : EthTx} {q₁ q₂ q₃ : List (Segment UInt8)}
    (h : Later s₁ q₁ s₂ q₂ b) (h' : Later s₂ q₂ s₃ q₃ b) : Later s₁ q₁ s₃ q₃ b :=
  ⟨h.sound, h.length_le.trans h'.length_le, h.txDesc.trans h'.txDesc, h.told ∘ h'.told,
    h.awake ∘ h'.awake⟩

theorem Sound.iterate (hs : s.Sound q b) (n : Nat) :
    (∃ q', Later (EthTx.dma^[n] s) q' s q b) ∧ Same (EthTx.dma^[n] s) s := by
  induction n generalizing s q with
  | zero => exact ⟨⟨q, hs.refl⟩, .refl s⟩
  | succ n ih =>
    obtain ⟨hdma, htold, hawake⟩ := hs.dma
    have hsame := same_dma s
    obtain ⟨⟨q', hlater⟩, hsame'⟩ := ih hdma
    refine ⟨⟨q', hlater.trans ⟨hdma, ?_, hsame.txDesc, htold, hawake⟩⟩, hsame'.trans hsame⟩
    split
    · exact le_rfl
    · exact List.length_tail ▸ Nat.sub_le _ _

theorem same_look (sched : Nat → Nat) (hs : s.Sound q b) : Same (s.look sched) s :=
  let ⟨_, hsame⟩ := hs.iterate (sched s.moment)
  ⟨hsame.txDesc, hsame.nexts, hsame.buffers⟩

/-- **A look** finds no more than what the program gave. -/
theorem Sound.look (hs : s.Sound q b) (sched : Nat → Nat) :
    ∃ q', Later (s.look sched) q' s q b := by
  obtain ⟨⟨q', hsound, hle, htx, htold, hawake⟩, -⟩ := hs.iterate (sched s.moment)
  exact ⟨q', ⟨hsound.shows, hsound.next, hsound.txDesc, hsound.line⟩, hle, htx, htold, hawake⟩

/-! ## Room -/

variable {j : Nat}

/-- A descriptor that the program has: there is room up to it. -/
theorem Sound.room (hs : s.Sound q b) (hj : j < ethTxBufNb)
    (hown : (s.dscrTab (place ethTxBufNb s.txDesc j)).own = false) : q.length + j < ethTxBufNb := by
  refine hs.shows.room hj ?_
  rw [← place_place, ← hs.txDesc]
  exact if_neg (ne_true_of_eq_false hown)

/-- Where there is room, the program has the descriptor. -/
theorem Sound.own (hs : s.Sound q b) (hj : q.length + j < ethTxBufNb) :
    (s.dscrTab (place ethTxBufNb s.txDesc j)).own = false := by
  have hfree := hs.shows.free hj
  rw [← place_place, ← hs.txDesc] at hfree
  by_contra hc
  rw [given, Function.comp_apply, TxDesc.given, if_pos (by simpa using hc)] at hfree
  exact absurd hfree (Option.some_ne_none _)

end EthTx

end BusMonitor
