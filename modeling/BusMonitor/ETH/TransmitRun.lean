import BusMonitor.ETH.Transmit
/-!
# Frames on the wire

Whatever the DMA does between any two looks of the program, the frames that
`low_level_output` has taken come out on the wire whole, once and in order,
and the DMA never waits with a frame before it.
-/


namespace BusMonitor

open Ring Segment Stepwise

namespace EthTx

variable {s : EthTx} {q : List (Segment UInt8)} {b : Inbox UInt8} {sched : Nat → Nat}
  {c : Copying} {copied : List UInt8} {j : Nat}

/-! ## Copying -/

/-- The buffers from `TxDesc` on hold what was copied of the frame, `j` of
them full. -/
structure Copied (s : EthTx) (c : Copying) (copied : List UInt8) (j : Nat) : Prop where
  dmaTxDesc : c.dmaTxDesc = place ethTxBufNb s.txDesc j
  framelength : c.framelength = copied.length
  length : copied.length = j * ethTxBufSize + c.bufferoffset
  offset_le : c.bufferoffset ≤ ethTxBufSize
  read : (flat ethTxBufSize ethTxBufNb s.txDesc s.buffers).read 0 copied.length = copied

theorem Copied.same {s' : EthTx} (hc : Copied s c copied j) (hsame : Same s' s) :
    Copied s' c copied j := by
  refine ⟨?_, hc.framelength, hc.length, hc.offset_le, ?_⟩
  · rw [hsame.txDesc]
    exact hc.dmaTxDesc
  · rw [hsame.txDesc, hsame.buffers]
    exact hc.read

/-- `memcpy` to a descriptor that the program has. -/
theorem Sound.memcpy (hs : s.Sound q b) (hj : q.length + j < ethTxBufNb) (o : Nat)
    (bs : List UInt8) : Later (s.memcpy (place ethTxBufNb s.txDesc j) o bs) q s q b := by
  have hown := hs.own hj
  refine ⟨⟨hs.shows.congr fun i _ => ?_, fun i hi => ?_, hs.txDesc, hs.line⟩, le_rfl, rfl, id,
    id⟩
  · have hnone : s.given (place ethTxBufNb s.txDesc j) = none :=
      if_neg (ne_true_of_eq_false hown)
    unfold EthTx.memcpy
    rw [given_setDesc, TxDesc.given, if_neg (ne_true_of_eq_false hown), ← hnone,
      Function.update_eq_self]
  · unfold EthTx.memcpy
    rw [nexts_setDesc]
    exact (congrFun (Function.update_eq_self _ s.nexts) i).trans (hs.next i hi)

/-- The bytes up to the end of a buffer. -/
theorem Copied.memcpy (hc : Copied s c copied j) (hj : j < ethTxBufNb) (bs : List UInt8)
    (hin : c.bufferoffset + bs.length ≤ ethTxBufSize) :
    Copied (s.memcpy c.dmaTxDesc c.bufferoffset bs)
      { c with
        bufferoffset := c.bufferoffset + bs.length
        framelength := c.framelength + bs.length } (copied ++ bs) j := by
  refine ⟨hc.dmaTxDesc, ?_, ?_, hin, ?_⟩
  · rw [List.length_append, hc.framelength]
  · rw [List.length_append, hc.length, Nat.add_assoc]
  · unfold EthTx.memcpy
    rw [buffers_setDesc, hc.dmaTxDesc]
    exact flat_append hc.read hc.length hj hin

/-- To the buffer behind a full one. -/
theorem Copied.next (hc : Copied s c copied j) (hfull : c.bufferoffset = ethTxBufSize) :
    Copied s ⟨place ethTxBufNb s.txDesc (j + 1), 0, c.framelength⟩ copied (j + 1) := by
  refine ⟨rfl, hc.framelength, ?_, Nat.zero_le _, hc.read⟩
  rw [hc.length, hfull, Nat.succ_mul, Nat.add_zero]

/-- The copying ends in the last buffer that the frame needs. -/
def Copied.Settled (c : Copying) (j : Nat) : Prop := 0 < j → 0 < c.bufferoffset

theorem Copied.count (hc : Copied s c copied j) (hset : Settled c j) :
    count ethTxBufSize copied.length = j + 1 := by
  have hlen := hc.length
  have hle := hc.offset_le
  unfold ethTxBufSize at hlen hle
  unfold Segment.count ethTxBufSize
  unfold Settled at hset
  omega

/-- Filling a buffer, with more to come, and the look at the next one. -/
theorem Sound.fill (hs : s.Sound q b) {left : List UInt8} (hc : Copied s c copied j)
    (hroom : q.length + j < ethTxBufNb) (hmore : ethTxBufSize < left.length + c.bufferoffset)
    (sched : Nat → Nat) :
    let room := ethTxBufSize - c.bufferoffset
    let m := s.memcpy c.dmaTxDesc c.bufferoffset (left.take room)
    let next := (m.dscrTab c.dmaTxDesc).buffer2NextDescAddr
    next = place ethTxBufNb s.txDesc (j + 1) ∧
    Copied (m.look sched) ⟨next, 0, c.framelength + room⟩ (copied ++ left.take room) (j + 1) ∧
    ∃ q', Later (m.look sched) q' s q b := by
  intro room m next
  have hsize : ethTxBufSize = 1524 := rfl
  have hoff := hc.offset_le
  have htake : (left.take room).length = room := List.length_take_of_le (by omega)
  have hfill := hc.memcpy (Nat.lt_of_le_of_lt (Nat.le_add_left _ _) hroom) (left.take room)
    (by omega)
  have hmem := hs.memcpy hroom c.bufferoffset (left.take room)
  rw [← hc.dmaTxDesc] at hmem
  have hnext : next = place ethTxBufNb s.txDesc (j + 1) := by
    rw [← place_place, ← hc.dmaTxDesc]
    exact hmem.sound.next _ (hc.dmaTxDesc ▸ place_lt (by decide) _ _)
  obtain ⟨q', hlook⟩ := hmem.sound.look sched
  have hfull := (hfill.next (by dsimp only; omega)).same (same_look sched hmem.sound)
  rw [htake, hmem.txDesc, ← hnext] at hfull
  exact ⟨hnext, hfull, q', hlook.trans hmem⟩

/-- A descriptor that the DMA still has: the frame needs more of them than
the program has. -/
theorem Sound.full (hs : s.Sound q b) (hown : (s.dscrTab (place ethTxBufNb s.txDesc j)).own = true) :
    ethTxBufNb ≤ q.length + j := by
  by_contra hc
  have hfree := hs.own (Nat.lt_of_not_le hc)
  exact absurd (hown.symm.trans hfree) (by decide)

/-- **One pbuf** is copied behind what was copied before, unless the DMA
has a descriptor that the frame needs. -/
theorem Sound.copyPbuf {s : EthTx} {q : List (Segment UInt8)} {c : Copying} {copied : List UInt8}
    {j : Nat} (hs : s.Sound q b) (sched : Nat → Nat) (left : List UInt8) (hc : Copied s c copied j)
    (hroom : q.length + j < ethTxBufNb)
    (hmax : copied.length + left.length ≤ ethTxBufNb * ethTxBufSize)
    (hset : 0 < left.length ∨ Copied.Settled c j) :
    ∃ q', Later (copyPbuf sched left c s).2 q' s q b ∧
      (((copyPbuf sched left c s).1 = none ∧
        ethTxBufNb < q.length + count ethTxBufSize (copied ++ left).length) ∨
      ∃ c' j', (copyPbuf sched left c s).1 = some c' ∧
        Copied (copyPbuf sched left c s).2 c' (copied ++ left) j' ∧ Copied.Settled c' j' ∧
        q'.length + j' < ethTxBufNb) := by
  have hoff : c.bufferoffset ≤ 1524 := hc.offset_le
  have hlen : copied.length = j * 1524 + c.bufferoffset := hc.length
  have hmax' : copied.length + left.length ≤ 6096 := hmax
  rw [EthTx.copyPbuf]
  dsimp only
  split
  next hmore =>
    have hmore' : 1524 < left.length + c.bufferoffset := hmore
    have hroom' : ethTxBufSize - c.bufferoffset = 1524 - c.bufferoffset := rfl
    have hdrop : (left.drop (ethTxBufSize - c.bufferoffset)).length =
        left.length - (1524 - c.bufferoffset) := by rw [List.length_drop, hroom']
    have htake : (left.take (ethTxBufSize - c.bufferoffset)).length = 1524 - c.bufferoffset := by
      rw [hroom', List.length_take_of_le (by omega)]
    obtain ⟨hnext, hfull, q₁, hlater⟩ := hs.fill hc hroom hmore sched
    have hle := hlater.length_le
    have hj : j + 1 < ethTxBufNb := by
      change j + 1 < 4
      omega
    split
    next hown =>
      -- the DMA has the next descriptor
      -- so that the frame needs more than are free
      refine ⟨q₁, hlater, .inl ⟨rfl, ?_⟩⟩
      rw [hnext, ← hlater.txDesc] at hown
      have hgone : 4 ≤ q₁.length + (j + 1) := hlater.sound.full hown
      rw [List.length_append]
      change 4 < q.length + ((copied.length + left.length - 1) / 1524 + 1)
      omega
    next hown =>
      have hfree := Bool.eq_false_of_not_eq_true hown
      rw [hnext, ← hlater.txDesc] at hfree
      -- the rest of the pbuf, from the start of the next buffer on
      obtain ⟨q', hlater', hend⟩ := Sound.copyPbuf hlater.sound sched
        (left.drop (ethTxBufSize - c.bufferoffset)) hfull (hlater.sound.room hj hfree)
        (by rw [List.length_append, htake, hdrop]; change _ ≤ 6096; omega)
        (.inl (by rw [hdrop]; omega))
      rw [List.append_assoc, List.take_append_drop] at hend
      refine ⟨q', hlater'.trans hlater, hend.imp_left fun ⟨hnone, hlt⟩ => ⟨hnone, ?_⟩⟩
      omega
  next hless =>
    have hless' : ¬ 1524 < left.length + c.bufferoffset := hless
    have hin : c.bufferoffset + left.length ≤ ethTxBufSize := by
      change _ ≤ 1524
      omega
    have hmem := hs.memcpy hroom c.bufferoffset left
    rw [← hc.dmaTxDesc] at hmem
    refine ⟨q, hmem, .inr ⟨_, j, rfl, hc.memcpy (by omega) left hin, fun hj => ?_, hroom⟩⟩
    dsimp only
    rcases hset with hpos | hset
    · omega
    · exact Nat.lt_of_lt_of_le (hset hj) (Nat.le_add_right _ _)
termination_by left.length + c.bufferoffset

/-- **A chain of pbufs** is copied, unless the DMA has a descriptor that
the frame needs. -/
theorem Sound.copyPbufs (hs : s.Sound q b) (sched : Nat → Nat) (ps : List (List UInt8))
    (hc : Copied s c copied j) (hset : Copied.Settled c j)
    (hmax : copied.length + ps.flatten.length ≤ ethTxBufNb * ethTxBufSize) :
    ∃ q', Later (copyPbufs sched ps c s).2 q' s q b ∧
      (((copyPbufs sched ps c s).1 = none ∧
        ethTxBufNb < q.length + count ethTxBufSize (copied ++ ps.flatten).length) ∨
      ∃ c' j', (copyPbufs sched ps c s).1 = some c' ∧
        Copied (copyPbufs sched ps c s).2 c' (copied ++ ps.flatten) j' ∧
        Copied.Settled c' j' ∧
        (ps ≠ [] ∨ q.length + j < ethTxBufNb → q'.length + j' < ethTxBufNb)) := by
  induction ps generalizing s q c copied j with
  | nil =>
    rw [List.flatten_nil, List.append_nil]
    exact ⟨q, hs.refl, .inr ⟨c, j, rfl, hc, hset, fun hor => hor.resolve_left fun hne => hne rfl⟩⟩
  | cons p ps ih =>
    obtain ⟨q₁, hlook⟩ := hs.look sched
    have hc₁ := hc.same (same_look sched hs)
    have hcount := hc.count hset
    rw [List.flatten_cons, List.length_append] at hmax
    have hj : j < ethTxBufNb := by
      have hlen : copied.length = j * 1524 + c.bufferoffset := hc.length
      have hmax' : copied.length + (p.length + ps.flatten.length) ≤ 6096 := hmax
      have hnb : ethTxBufNb = 4 := rfl
      unfold Copied.Settled at hset
      omega
    have hle := hlook.length_le
    rw [EthTx.copyPbufs, List.flatten_cons, ← List.append_assoc]
    split
    next hown =>
      rw [hc₁.dmaTxDesc] at hown
      have hgone := hlook.sound.full hown
      have hmono := count_mono ethTxBufSize (n := copied.length)
        (m := (copied ++ p ++ ps.flatten).length) (by rw [List.append_assoc]; simp)
      exact ⟨q₁, hlook, .inl ⟨rfl, by omega⟩⟩
    next hown =>
      rw [hc₁.dmaTxDesc] at hown
      have hroom := hlook.sound.room hj (Bool.eq_false_of_not_eq_true hown)
      obtain ⟨q₂, hcopy, ⟨hnone, hlt⟩ | ⟨c₂, j₂, hsome, hc₂, hset₂, hroom₂⟩⟩ :=
        hlook.sound.copyPbuf sched p hc₁ hroom (by omega) (.inr hset)
      · have hmono := count_mono ethTxBufSize (n := (copied ++ p).length)
          (m := (copied ++ p ++ ps.flatten).length) (by simp)
        rcases hr : EthTx.copyPbuf sched p c (s.look sched) with ⟨r, s₂⟩
        rw [hr] at hnone hcopy
        obtain rfl : r = none := hnone
        exact ⟨q₂, hcopy.trans hlook, .inl ⟨rfl, by omega⟩⟩
      · rcases hr : EthTx.copyPbuf sched p c (s.look sched) with ⟨r, s₂⟩
        rw [hr] at hsome hcopy hc₂
        obtain rfl : r = some c₂ := hsome
        have hle₂ := hcopy.length_le
        obtain ⟨q₃, hlater, hend⟩ := ih hcopy.sound hc₂ hset₂
          (by rw [List.length_append]; omega)
        refine ⟨q₃, hlater.trans (hcopy.trans hlook), hend.imp ?_ ?_⟩
        · rintro ⟨hnone, hlt⟩
          exact ⟨hnone, by omega⟩
        · rintro ⟨c₃, j₃, hsome, hc₃, hset₃, hroom₃⟩
          exact ⟨c₃, j₃, hsome, hc₃, hset₃, fun _ => hroom₃ (.inr hroom₂)⟩

/-! ## Giving -/

/-- The descriptor to use next, as it is given. -/
theorem give_eq (sched : Nat → Nat) (fs ls : Bool) (size : Nat) (s : EthTx) :
    s.give sched fs ls size =
      let m := s.look sched
      { m.setDesc m.txDesc { m.dscrTab m.txDesc with
          fs := fs, ls := ls, controlBufferSize := size &&& ethDMATxDescTBS1, own := true } with
        txDesc := m.nexts m.txDesc } := rfl

/-- **One descriptor** is given to the DMA. -/
theorem Sound.give (hs : s.Sound q b) (sched : Nat → Nat) (hroom : q.length < ethTxBufNb) (fs ls : Bool)
    (size : Nat) :
    ∃ q', (s.give sched fs ls size).Sound q'
        (b.take ⟨fs, ls, (s.buffers s.txDesc).read 0 (size &&& ethDMATxDescTBS1)⟩) ∧
      q'.length ≤ q.length + 1 ∧ (s.give sched fs ls size).txDesc = place ethTxBufNb s.txDesc 1 ∧
      (s.give sched fs ls size).buffers = s.buffers ∧
      (s.Told → (s.give sched fs ls size).Told) := by
  obtain ⟨q₁, hlook⟩ := hs.look sched
  have hsame := same_look sched hs
  have hs₁ := hlook.sound
  have hlt : q₁.length < ethTxBufNb := Nat.lt_of_le_of_lt hlook.length_le hroom
  have hnext : (s.look sched).nexts (s.look sched).txDesc =
      place ethTxBufNb (s.look sched).txDesc 1 :=
    hs₁.next _ (hs₁.txDesc ▸ place_lt (by decide) _ _)
  rw [give_eq, ← hsame.txDesc, ← hsame.buffers]
  generalize s.look sched = m at hlook hs₁ hlt hnext
  dsimp only
  refine ⟨q₁ ++ [⟨fs, ls, (m.buffers m.txDesc).read 0 (size &&& ethDMATxDescTBS1)⟩],
    ⟨?_, fun i hi => ?_, ?_, ?_⟩, ?_, hnext, ?_, hlook.told⟩
  · refine (hs₁.shows.push hlt).congr fun i _ => ?_
    rw [← hs₁.txDesc]
    exact congrFun (given_setDesc ..) i
  · refine Eq.trans (congrFun (nexts_setDesc_self ?_) i) (hs₁.next i hi)
    rfl
  · rw [List.length_append, ← place_place]
    exact hnext.trans (congrArg (place ethTxBufNb · 1) hs₁.txDesc)
  · rw [Inbox.takeAll_append]
    exact congrArg (fun x : Inbox UInt8 => x.take _) hs₁.line
  · rw [List.length_append]
    exact Nat.add_le_add_right hlook.length_le 1
  · exact buffers_setDesc_self rfl

variable {frame : List UInt8} {t : Nat}

/-- The buffers from `t` on hold the frame. -/
def Loaded (s : EthTx) (t : Nat) (frame : List UInt8) : Prop :=
  (flat ethTxBufSize ethTxBufNb t s.buffers).read 0 frame.length = frame

/-- What the descriptor `i` of a frame is given for: its segment `i`. -/
theorem Loaded.segment {i size : Nat} (hl : Loaded s t frame)
    (hsize : size = min ethTxBufSize (frame.length - i * ethTxBufSize)) :
    (s.buffers (place ethTxBufNb t i)).read 0 (size &&& ethDMATxDescTBS1) =
      (nth ethTxBufSize frame i).data := by
  have hle : size ≤ ethTxBufSize := hsize ▸ Nat.min_le_left _ _
  have hmask : size &&& ethDMATxDescTBS1 = size := by
    have hbits : ethDMATxDescTBS1 = 2 ^ 13 - 1 := by decide
    rw [hbits]
    exact Nat.and_two_pow_sub_one_of_lt_two_pow (Nat.lt_of_le_of_lt hle (by decide))
  have hread := Mem.take_drop_read (flat ethTxBufSize ethTxBufNb t s.buffers) 0 frame.length
    (i * ethTxBufSize) ethTxBufSize
  rw [hl, Nat.zero_add, ← hsize] at hread
  have hslot : (flat ethTxBufSize ethTxBufNb t s.buffers).read (i * ethTxBufSize + 0) size = _ :=
    flat_read (by omega)
  rw [Nat.add_zero] at hslot
  rw [hmask, nth, hread, hslot]

/-- **The segments** of a frame are given one after the other. -/
theorem Sound.giveLoop {i : Nat} (hs : s.Sound q (b.takeAll ((cut ethTxBufSize frame).take i)))
    (sched : Nat → Nat) (n : Nat)
    (hi : i + n = count ethTxBufSize frame.length) (hpos : frame ≠ [])
    (ht : s.txDesc = place ethTxBufNb t i) (hl : Loaded s t frame)
    (hroom : q.length + n ≤ ethTxBufNb) :
    ∃ q', (s.giveLoop sched frame.length (count ethTxBufSize frame.length) n).Sound q'
        (b.takeAll (cut ethTxBufSize frame)) ∧
      (s.Told → (s.giveLoop sched frame.length (count ethTxBufSize frame.length) n).Told) := by
  induction n generalizing s q i with
  | zero =>
    rw [List.take_of_length_le (by rw [length_cut]; omega)] at hs
    exact ⟨q, hs, id⟩
  | succ n ih =>
    have hcur : count ethTxBufSize frame.length - (n + 1) = i := by omega
    have hlt := mul_lt_length (by decide) hpos (i := i) (c := ethTxBufSize) (by omega)
    have hmost := length_le_mul (c := ethTxBufSize) (by decide) frame
    -- the size that the descriptor is given with
    obtain ⟨size, hsize, hgive⟩ : ∃ size,
        size = min ethTxBufSize (frame.length - i * ethTxBufSize) ∧
        s.giveLoop sched frame.length (count ethTxBufSize frame.length) (n + 1) =
          (s.give sched (nth ethTxBufSize frame i).first (nth ethTxBufSize frame i).last
            size).giveLoop sched frame.length (count ethTxBufSize frame.length) n := by
      rw [EthTx.giveLoop, hcur]
      -- only the last segment is shorter than a buffer
      by_cases hlast : i + 1 = count ethTxBufSize frame.length
      · refine ⟨frame.length - i * ethTxBufSize, ?_, ?_⟩
        · rw [← hlast, Nat.succ_mul] at hmost
          omega
        · have hend : i = count ethTxBufSize frame.length - 1 := by omega
          have htrue : (nth ethTxBufSize frame i).last = true := decide_eq_true hlast
          rw [if_pos hend, htrue, ← hend]
          rfl
      · refine ⟨ethTxBufSize, ?_, ?_⟩
        · have hfull := mul_lt_length (by decide) hpos (i := i + 1) (c := ethTxBufSize) (by omega)
          rw [Nat.succ_mul] at hfull
          omega
        · have hend : ¬ i = count ethTxBufSize frame.length - 1 := by omega
          have hfalse : (nth ethTxBufSize frame i).last = false := decide_eq_false hlast
          rw [if_neg hend, hfalse]
          rfl
    obtain ⟨q', hs', hlen', ht', hbuf', htold'⟩ := hs.give sched (by omega)
      (nth ethTxBufSize frame i).first (nth ethTxBufSize frame i).last size
    rw [ht, hl.segment hsize, ← Inbox.takeAll_nil (Inbox.take _ _), ← Inbox.takeAll_cons,
      ← Inbox.takeAll_append, ← Option.toList_some, ← getElem?_cut (by omega),
      ← List.take_add_one] at hs'
    rw [ht, place_place] at ht'
    obtain ⟨q'', hs'', htold''⟩ := ih hs' (by omega) ht' (by unfold Loaded; rw [hbuf']; exact hl)
      (by omega)
    rw [hgive]
    exact ⟨q'', hs'', htold'' ∘ htold'⟩

/-- The number of descriptors that `HAL_ETH_TransmitFrame` takes. -/
theorem bufcount_eq {frameLength : Nat} (hpos : 0 < frameLength) :
    (if frameLength > ethTxBufSize then
      if frameLength % ethTxBufSize ≠ 0 then frameLength / ethTxBufSize + 1
      else frameLength / ethTxBufSize
    else 1) = count ethTxBufSize frameLength := by
  have hsize : ethTxBufSize = 1524 := rfl
  unfold Segment.count
  rw [hsize]
  split_ifs <;> omega

/-- **A poll demand** when the flag is set: the DMA does not wait after it. -/
theorem Sound.resume (hs : s.Sound q b) (htold : s.Told) :
    ∃ q', (if s.tbus then
        { ({ s with tbus := false } : EthTx).look sched with suspended := false }
      else s).Sound q' b ∧
      (if s.tbus then
        { ({ s with tbus := false } : EthTx).look sched with suspended := false }
      else s).suspended = false := by
  cases htbus : s.tbus with
  | false =>
    refine ⟨q, hs, ?_⟩
    -- a DMA that waits would have set the flag
    by_contra hc
    have hset := htold (by simpa using hc)
    rw [htbus] at hset
    exact absurd hset (by decide)
  | true =>
    have hclear : Sound { s with tbus := false } q b := ⟨hs.shows, hs.next, hs.txDesc, hs.line⟩
    obtain ⟨q', hlook⟩ := hclear.look sched
    have hs' := hlook.sound
    exact ⟨q', ⟨hs'.shows, hs'.next, hs'.txDesc, hs'.line⟩, rfl⟩

/-- **A frame in the buffers** is given to the DMA, which is told of it. -/
theorem Sound.transmit (hs : s.Sound q b) (sched : Nat → Nat) (htold : s.Told) (hpos : frame ≠ [])
    (hl : Loaded s s.txDesc frame)
    (hroom : q.length + count ethTxBufSize frame.length ≤ ethTxBufNb) :
    ∃ q', (s.halETHTransmitFrame sched frame.length).Sound q'
        (b.takeAll (cut ethTxBufSize frame)) ∧
      (s.halETHTransmitFrame sched frame.length).suspended = false := by
  have hlen := List.length_pos_iff.2 hpos
  have hcount := count_pos ethTxBufSize frame.length
  obtain ⟨q₁, hlook⟩ := hs.look sched
  have hsame := same_look sched hs
  have hs₁ := hlook.sound
  have hle := hlook.length_le
  have hl₁ : Loaded (s.look sched) (s.look sched).txDesc frame := by
    unfold Loaded
    rw [hsame.txDesc, hsame.buffers]
    exact hl
  have hbase : (s.look sched).txDesc = place ethTxBufNb (s.look sched).txDesc 0 :=
    (place_zero (hs₁.txDesc ▸ place_lt (by decide) _ _)).symm
  have hown : ((s.look sched).dscrTab (s.look sched).txDesc).own = false := by
    rw [hbase]
    exact hs₁.own (by omega)
  obtain ⟨q₂, hs₂, htold₂⟩ := hs₁.giveLoop sched (i := 0) _ (Nat.zero_add _) hpos hbase
    hl₁ (by omega)
  obtain ⟨q₃, hlook₃⟩ := hs₂.look sched
  have hone : (if count ethTxBufSize frame.length = 1 then
        (s.look sched).give sched true true frame.length
      else (s.look sched).giveLoop sched frame.length (count ethTxBufSize frame.length)
        (count ethTxBufSize frame.length)) =
      (s.look sched).giveLoop sched frame.length (count ethTxBufSize frame.length)
        (count ethTxBufSize frame.length) := by
    split
    next h => rw [h]; rfl
    next => rfl
  unfold EthTx.halETHTransmitFrame
  rw [if_neg hlen.ne']
  dsimp only
  rw [if_neg (ne_true_of_eq_false hown), bufcount_eq hlen, hone]
  exact hlook₃.sound.resume (hlook₃.told (htold₂ (hlook.told htold)))

/-! ## Frames -/

/-- **One call** takes the frame whole, or refuses it and has done nothing.
It refuses it only when the DMA has descriptors that the frame needs. -/
theorem Sound.output (hs : s.Sound q b) (htold : s.Told) (hawake : s.Awake q)
    (sched : Nat → Nat) {p : List (List UInt8)} (hp : p ≠ [])
    (hmax : p.flatten.length ≤ ethTxBufNb * ethTxBufSize) :
    ∃ q', (s.lowLevelOutput sched p).2.Told ∧ (s.lowLevelOutput sched p).2.Awake q' ∧
      (((s.lowLevelOutput sched p).1 = errUse ∧ (s.lowLevelOutput sched p).2.Sound q' b ∧
        ethTxBufNb < q.length + count ethTxBufSize p.flatten.length) ∨
      ((s.lowLevelOutput sched p).1 = errOk ∧ (s.lowLevelOutput sched p).2.Sound q'
        (if p.flatten = [] then b else b.takeAll (cut ethTxBufSize p.flatten)))) := by
  have hbase : s.txDesc = place ethTxBufNb s.txDesc 0 :=
    (place_zero (hs.txDesc ▸ place_lt (by decide) _ _)).symm
  have hstart : Copied s ⟨s.txDesc, 0, 0⟩ [] 0 := ⟨hbase, rfl, rfl, Nat.zero_le _, rfl⟩
  obtain ⟨q₁, hlater, hend⟩ := hs.copyPbufs sched p hstart (fun hc => absurd hc (lt_irrefl 0))
    (by rw [List.length_nil, Nat.zero_add]; exact hmax)
  rw [List.nil_append] at hend
  unfold EthTx.lowLevelOutput
  generalize EthTx.copyPbufs sched p ⟨s.txDesc, 0, 0⟩ s = r at hlater hend
  obtain ⟨r, s₁⟩ := r
  dsimp only at hlater hend
  rcases hend with ⟨rfl, hlt⟩ | ⟨c, j, rfl, hc, hset, hroom⟩
  · exact ⟨q₁, hlater.told htold, hlater.awake hawake, .inl ⟨rfl, hlater.sound, hlt⟩⟩
  · dsimp only
    rw [hc.framelength]
    -- an empty frame is copied and never given
    by_cases hnil : p.flatten = []
    · rw [if_pos hnil, hnil]
      exact ⟨q₁, hlater.told htold, hlater.awake hawake, .inr ⟨rfl, hlater.sound⟩⟩
    · have hneed := hc.count hset
      have hfree := hroom (.inl hp)
      obtain ⟨q₂, hsound, hwoken⟩ := hlater.sound.transmit sched (hlater.told htold) hnil
        (by unfold Loaded; exact hc.read) (by omega)
      rw [if_neg hnil]
      refine ⟨q₂, fun hw => ?_, fun hw => ?_, .inr ⟨rfl, hsound⟩⟩
      · exact absurd (hwoken.symm.trans hw) (by decide)
      · exact absurd (hwoken.symm.trans hw) (by decide)

/-- Calls one after the other, with their results. -/
def outputs (sched : Nat → Nat) : EthTx → List (List (List UInt8)) → List Int × EthTx
  | s, [] => ([], s)
  | s, p :: ps =>
    let r := s.lowLevelOutput sched p
    let rest := outputs sched r.2 ps
    (r.1 :: rest.1, rest.2)

/-- The frames that were taken: those with `ERR_OK`, but for empty ones. -/
def framesTaken : List (List (List UInt8)) → List Int → List (List UInt8)
  | [], _ => []
  | _, [] => []
  | p :: ps, e :: es =>
    (if e = errOk ∧ p.flatten ≠ [] then [p.flatten] else []) ++ framesTaken ps es

/-- A chain with a pbuf, that the buffers have room for. -/
def Fitting (p : List (List UInt8)) : Prop :=
  p ≠ [] ∧ p.flatten.length ≤ ethTxBufNb * ethTxBufSize

instance (p : List (List UInt8)) : Decidable (Fitting p) := inferInstanceAs (Decidable (_ ∧ _))

theorem Sound.outputs (hs : s.Sound q b) (hb : b.part = []) (htold : s.Told) (hawake : s.Awake q)
    (sched : Nat → Nat) {ps : List (List (List UInt8))} (hps : ∀ p ∈ ps, Fitting p) :
    ∃ q', (s.outputs sched ps).2.Sound q'
        ⟨[], b.frames ++ framesTaken ps (s.outputs sched ps).1⟩ ∧
      (s.outputs sched ps).2.Told ∧ (s.outputs sched ps).2.Awake q' := by
  induction ps generalizing s q b with
  | nil =>
    obtain ⟨part, frames⟩ := b
    obtain rfl : part = [] := hb
    refine ⟨q, ?_, htold, hawake⟩
    rw [EthTx.outputs, framesTaken, List.append_nil]
    exact hs
  | cons p ps ih =>
    obtain ⟨⟨hp, hmax⟩, hps⟩ := List.forall_mem_cons.1 hps
    obtain ⟨q₁, htold₁, hawake₁, hend⟩ := hs.output htold hawake sched hp hmax
    -- after each call the frames are whole again
    obtain ⟨b₁, hs₁, hb₁, hframes⟩ : ∃ b₁ : Inbox UInt8,
        (s.lowLevelOutput sched p).2.Sound q₁ b₁ ∧ b₁.part = [] ∧ b₁.frames = b.frames ++
          if (s.lowLevelOutput sched p).1 = errOk ∧ p.flatten ≠ [] then [p.flatten] else [] := by
      rcases hend with ⟨huse, hs₁, -⟩ | ⟨hok, hs₁⟩
      · refine ⟨b, hs₁, hb, ?_⟩
        rw [if_neg (fun hc => absurd (huse.symm.trans hc.1) (by decide)), List.append_nil]
      · by_cases hnil : p.flatten = []
        · rw [if_pos hnil] at hs₁
          refine ⟨b, hs₁, hb, ?_⟩
          rw [if_neg (fun hc => hc.2 hnil), List.append_nil]
        · rw [if_neg hnil, Inbox.takeAll_cut (by decide)] at hs₁
          refine ⟨_, hs₁, rfl, ?_⟩
          rw [if_pos ⟨hok, hnil⟩]
    obtain ⟨q', hs', htold', hawake'⟩ := ih hs₁ hb₁ htold₁ hawake₁ hps
    refine ⟨q', ?_, htold', hawake'⟩
    rw [hframes, List.append_assoc] at hs'
    exact hs'

/-- Left alone, the DMA sends all that it has. -/
theorem Sound.drain (hs : s.Sound q b) (hawake : s.Awake q) {n : Nat} (hn : q.length ≤ n) :
    (EthTx.dma^[n] s).line = b := by
  induction n generalizing s q with
  | zero =>
    obtain rfl := List.length_eq_zero_iff.1 (Nat.le_zero.1 hn)
    exact hs.line
  | succ n ih =>
    obtain ⟨hs', -, hawake'⟩ := hs.dma
    refine ih hs' (hawake' hawake) ?_
    split
    next hsusp =>
      rw [hawake hsusp]
      exact Nat.zero_le n
    next =>
      rw [List.length_tail]
      omega

/-- **The frames on the wire.** Whatever the DMA does in the meantime, it
has sent a beginning of the frames that were taken, whole and in order, and
left alone it sends all of them with no further call. -/
theorem frames_sent (buffers : Nat → Mem) (sched : Nat → Nat) {ps : List (List (List UInt8))}
    (hps : ∀ p ∈ ps, Fitting p) :
    let r := (halETHDMATxDescListInit buffers).outputs sched ps
    (∀ n, (EthTx.dma^[n] r.2).line.frames <+: framesTaken ps r.1) ∧
    ∀ n ≥ ethTxBufNb, (EthTx.dma^[n] r.2).line = ⟨[], framesTaken ps r.1⟩ := by
  intro r
  obtain ⟨q, hs, -, hawake⟩ := (sound_init buffers).outputs rfl
    (fun hc => absurd hc Bool.false_ne_true) (fun hc => absurd hc Bool.false_ne_true) sched hps
  rw [List.nil_append] at hs
  refine ⟨fun n => ?_, fun n hn => hs.drain hawake (hs.shows.length_le.trans hn)⟩
  obtain ⟨⟨q', hlater⟩, -⟩ := hs.iterate n
  have hpre := Inbox.frames_isPrefix (EthTx.dma^[n] r.2).line q'
  rw [hlater.sound.line] at hpre
  exact hpre

/-- A DMA that is held up at first. -/
def lateDMA (moment : Nat) : Nat := if moment = 3 then 2 else if 20 ≤ moment then 1 else 0

/-- Three pbufs, two frames of two buffers, and an empty one. -/
def fiveChains : List (List (List UInt8)) :=
  [[[1, 2], [], [3]], [List.replicate 2000 7], [[]], [[4], List.replicate 1600 9], [[5]]]

theorem frames_sent_late :
    let r := (halETHDMATxDescListInit fun _ _ => 0).outputs lateDMA fiveChains
    r.1 = [errOk, errOk, errOk, errUse, errOk] ∧
    (EthTx.dma^[4] r.2).line = ⟨[], [[1, 2, 3], List.replicate 2000 7, [5]]⟩ :=
  ⟨by decide +kernel, ((frames_sent _ lateDMA (by decide +kernel)).2 4 le_rfl).trans
    (by decide +kernel)⟩

/-- How many descriptors the DMA has. -/
def owned (s : EthTx) : Nat := (List.range ethTxBufNb).countP fun i => (s.dscrTab i).own

theorem Sound.owned_eq (hs : s.Sound q b) : s.owned = q.length := by
  rw [← hs.shows.countP]
  refine List.countP_congr fun i _ => ?_
  rw [given, Function.comp_apply, TxDesc.given]
  split <;> simp_all

/-- **Room.** After any calls, a frame is taken if the descriptors that the
DMA does not have are enough for it, and whatever the DMA does then. -/
theorem room_for_frame (buffers : Nat → Mem) (sched : Nat → Nat) {ps : List (List (List UInt8))}
    (hps : ∀ p ∈ ps, Fitting p) {p : List (List UInt8)} (hp : p ≠ [])
    (hroom : ((halETHDMATxDescListInit buffers).outputs sched ps).2.owned +
      count ethTxBufSize p.flatten.length ≤ ethTxBufNb) :
    (((halETHDMATxDescListInit buffers).outputs sched ps).2.lowLevelOutput sched p).1 = errOk := by
  obtain ⟨q, hs, htold, hawake⟩ := (sound_init buffers).outputs rfl
    (fun hc => absurd hc Bool.false_ne_true) (fun hc => absurd hc Bool.false_ne_true) sched hps
  rw [hs.owned_eq] at hroom
  have hmax := (count_le (c := ethTxBufSize) (by decide) (by decide)).1
    ((Nat.le_add_left _ _).trans hroom)
  obtain ⟨-, -, -, ⟨-, -, hlt⟩ | ⟨hok, -⟩⟩ := hs.output htold hawake sched hp hmax
  · omega
  · exact hok

theorem room_for_frame_late :
    (((halETHDMATxDescListInit fun _ _ => 0).outputs lateDMA fiveChains).2.lowLevelOutput lateDMA
      [List.replicate 1000 1, List.replicate 500 2]).1 = errOk :=
  room_for_frame _ lateDMA (by decide +kernel) (by decide) (by decide +kernel)

end EthTx

end BusMonitor
