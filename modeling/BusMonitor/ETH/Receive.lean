import BusMonitor.Lib.Ring
import BusMonitor.Lib.Run
import BusMonitor.Lib.Segments
/-!
# Frames from the Ethernet

The DMA writes what arrives to the receive descriptors that it has.
`HAL_ETH_GetReceivedFrame_IT` looks for a frame in those that it gave back,
and goes on there at its next call when the frame was not complete;
`low_level_input` of `ethernetif.c` copies the frame into pbufs and gives
the descriptors to the DMA. As with the frames that are sent, a schedule
says what has happened up to each look of the program.
-/


namespace BusMonitor

open Ring Segment

def ethRxBufSize : Nat := 1524
def ethRxBufNb : Nat := 4

/-- A descriptor, with the parts of its `Status`, and the buffer that
`Buffer1Addr` points to. -/
structure RxDesc where
  own : Bool
  fs : Bool
  ls : Bool
  fl : Nat
  buffer2NextDescAddr : Nat
  buffer1 : Mem

/-- A part of a frame that the DMA has to write, and the frame's length. -/
abbrev RxPart : Type := Segment UInt8 × Nat

/-- What a descriptor says, when the program has it. -/
def RxDesc.held (d : RxDesc) : Option RxDesc := if d.own then none else some d

/-- The descriptor was written with the part. -/
structure RxDesc.Carries (d : RxDesc) (x : RxPart) : Prop where
  fs : d.fs = x.1.first
  ls : d.ls = x.1.last
  fl : d.fl = x.2
  data : d.buffer1.read 0 x.1.data.length = x.1.data

/-- The descriptors, the next one to look at, the frame that was found or
is being looked for, the flag of the DMA for a descriptor it did not get,
and the DMA itself: where it is, whether it waits for a poll demand, what it
has to write of the frame that arrived last, and the frames that it has
taken. `moment` counts the looks. -/
structure EthRx where
  dscrTab : Nat → RxDesc
  rxDesc : Nat
  fsRxDesc : Nat
  segCount : Nat
  length : UInt32
  rbus : Bool
  current : Nat
  suspended : Bool
  pending : List RxPart
  arrived : List (List UInt8)
  moment : Nat

/-- A frame arrives, with its CRC, or the DMA makes a step. -/
inductive RxEvent
  | arrive (frame : List UInt8)
  | dma

/-- The parts of a frame. -/
def rxParts (frame : List UInt8) : List RxPart :=
  (cut ethRxBufSize frame).map fun g => (g, frame.length)

namespace EthRx

def setDesc (s : EthRx) (i : Nat) (d : RxDesc) : EthRx :=
  { s with dscrTab := Function.update s.dscrTab i d }

/-- One step of the DMA: it writes a part to its descriptor and gives the
descriptor back, or waits when the descriptor is not its own. In the middle
of a frame it is assumed to wait as well, and to go on with the frame when
it is polled; the descriptor error of the header, with which it would give
up the frame, is not modelled. -/
def dma (s : EthRx) : EthRx :=
  let d := s.dscrTab s.current
  match s.pending with
  | [] => s
  | x :: rest =>
    if s.suspended then s
    else if d.own then
      { s.setDesc s.current { d with
          own := false, fs := x.1.first, ls := x.1.last, fl := x.2,
          buffer1 := d.buffer1.write 0 x.1.data } with
        current := d.buffer2NextDescAddr
        pending := rest }
    else { s with suspended := true, rbus := true }

/-- A frame is lost while the DMA waits, or is not through with the one
before. -/
def happen (s : EthRx) : RxEvent → EthRx
  | .arrive frame =>
    if s.suspended = false ∧ s.pending = [] then
      { s with pending := rxParts frame, arrived := s.arrived ++ [frame] }
    else s
  | .dma => s.dma

/-- What happens up to the next look. -/
def look (sched : Nat → List RxEvent) (s : EthRx) : EthRx :=
  { (sched s.moment).foldl happen s with moment := s.moment + 1 }

/-- `HAL_ETH_DMARxDescListInit`, over what the variables of the handle are:
`RxFrameInfos` is not set by it, and 0 from the start. -/
def halETHDMARxDescListInit (buffers : Nat → Mem) : EthRx where
  dscrTab i := ⟨true, false, false, 0, if i < ethRxBufNb - 1 then i + 1 else 0, buffers i⟩
  rxDesc := 0
  fsRxDesc := 0
  segCount := 0
  length := 0
  rbus := false
  current := 0
  suspended := false
  pending := []
  arrived := []
  moment := 0

/-- The loop of `HAL_ETH_GetReceivedFrame_IT`, with the descriptors it may
still look at. -/
def scan (sched : Nat → List RxEvent) : Nat → EthRx → Bool × EthRx
  | 0, s => (false, s.look sched)
  | n + 1, s =>
    let s := s.look sched
    let d := s.dscrTab s.rxDesc
    if d.own then (false, s)
    -- the first descriptor of several
    else if d.fs ∧ ¬ d.ls then
      scan sched n { s with
        fsRxDesc := s.rxDesc, segCount := 1, rxDesc := d.buffer2NextDescAddr }
    -- one in the middle
    else if ¬ d.ls ∧ ¬ d.fs then
      scan sched n { s with segCount := s.segCount + 1, rxDesc := d.buffer2NextDescAddr }
    else
      -- the last one, which may be the first as well
      (true, { s with
        segCount := s.segCount + 1
        fsRxDesc := if s.segCount + 1 = 1 then s.rxDesc else s.fsRxDesc
        length := UInt32.ofNat d.fl - 4
        rxDesc := d.buffer2NextDescAddr })

/-- `HAL_ETH_GetReceivedFrame_IT`: whether there is a frame. -/
def halETHGetReceivedFrameIT (sched : Nat → List RxEvent) (s : EthRx) : Bool × EthRx :=
  scan sched ethRxBufNb s

/-- Where the copying of a frame is. -/
structure Reading where
  dmarxdesc : Nat
  bufferoffset : Nat

/-- The copying to one pbuf of which `byteslefttocopy` bytes are to come. -/
def fillPbuf (sched : Nat → List RxEvent) (byteslefttocopy : Nat) (c : Reading) (s : EthRx) :
    List UInt8 × Reading × EthRx :=
  let s := s.look sched
  let d := s.dscrTab c.dmarxdesc
  let room := ethRxBufSize - c.bufferoffset
  if ethRxBufSize < byteslefttocopy + c.bufferoffset then
    let r := fillPbuf sched (byteslefttocopy - room) ⟨d.buffer2NextDescAddr, 0⟩ s
    (d.buffer1.read c.bufferoffset room ++ r.1, r.2)
  else
    (d.buffer1.read c.bufferoffset byteslefttocopy,
      { c with bufferoffset := c.bufferoffset + byteslefttocopy }, s)
termination_by byteslefttocopy + c.bufferoffset
decreasing_by
  have hsize : ethRxBufSize = 1524 := rfl
  omega

/-- The loop over the pbufs, whose lengths are given. -/
def fillPbufs (sched : Nat → List RxEvent) : List Nat → Reading → EthRx →
    List (List UInt8) × EthRx
  | [], _, s => ([], s)
  | len :: lens, c, s =>
    let r := s.fillPbuf sched len c
    let rest := fillPbufs sched lens r.2.1 r.2.2
    (r.1 :: rest.1, rest.2)

/-- The descriptors are given back to the DMA, from `dmarxdesc` on. -/
def release (sched : Nat → List RxEvent) : Nat → Nat → EthRx → EthRx
  | 0, _, s => s
  | n + 1, dmarxdesc, s =>
    let s := s.look sched
    let d := s.dscrTab dmarxdesc
    release sched n d.buffer2NextDescAddr (s.setDesc dmarxdesc { d with own := true })

/-- A poll demand, if the flag is set. -/
def resume (sched : Nat → List RxEvent) (s : EthRx) : EthRx :=
  let s := s.look sched
  if s.rbus then
    let s := { s with rbus := false }
    let s := s.look sched
    { s with suspended := false }
  else s

/-- `low_level_input`. `alloc` is `pbuf_alloc` at this moment: the lengths
of the pbufs of the chain, or `none` for `NULL`. -/
def lowLevelInput (sched : Nat → List RxEvent) (alloc : Nat → Nat → Option (List Nat))
    (s : EthRx) : Option (List (List UInt8)) × EthRx :=
  let f := s.halETHGetReceivedFrameIT sched
  if f.1 then
    let s := f.2
    let len := s.length.toUInt16.toNat
    let lens := if 0 < len then alloc s.moment len else none
    let p := lens.map fun lens => fillPbufs sched lens ⟨s.fsRxDesc, 0⟩ s
    let s := (p.map Prod.snd).getD s
    -- with or without pbufs, the descriptors go back
    let s := { s.release sched s.segCount s.fsRxDesc with segCount := 0 }
    (p.map Prod.fst, s.resume sched)
  else (none, f.2)

/-! ## The ring -/

/-- What the program has of the descriptors. -/
def held (s : EthRx) : Nat → Option RxDesc := RxDesc.held ∘ s.dscrTab

def nexts (s : EthRx) : Nat → Nat := RxDesc.buffer2NextDescAddr ∘ s.dscrTab

variable {s s' : EthRx} {h : Nat} {q q' : List RxDesc} {due due' : List RxPart}

@[simp] theorem held_setDesc (s : EthRx) (i : Nat) (d : RxDesc) :
    (s.setDesc i d).held = Function.update s.held i d.held := Function.comp_update ..

theorem nexts_setDesc {i : Nat} {d : RxDesc} (hd : d.buffer2NextDescAddr = s.nexts i) :
    (s.setDesc i d).nexts = s.nexts := by
  refine (Function.comp_update ..).trans ?_
  rw [hd]
  exact Function.update_eq_self _ _

/-- The program has the descriptors `q`, from `h` up to where the DMA is,
and they and what the DMA has to write are the parts `due`. -/
structure Holds (s : EthRx) (h : Nat) (q : List RxDesc) (due : List RxPart) : Prop where
  shows : Ring.Shows ethRxBufNb s.held h q
  next : ∀ i < ethRxBufNb, s.nexts i = place ethRxBufNb i 1
  current : s.current = place ethRxBufNb h q.length
  carries : ∃ xs, List.Forall₂ RxDesc.Carries q xs ∧ xs ++ s.pending = due

/-- A DMA that waits for a poll demand has set its flag. -/
def Told (s : EthRx) : Prop := s.suspended = true → s.rbus = true

/-- And it waits only when the program has all descriptors. -/
def Full (s : EthRx) (q : List RxDesc) : Prop := s.suspended = true → q.length = ethRxBufNb

/-- What the program alone writes is as it was. -/
structure Same (s' s : EthRx) : Prop where
  rxDesc : s'.rxDesc = s.rxDesc
  fsRxDesc : s'.fsRxDesc = s.fsRxDesc
  segCount : s'.segCount = s.segCount
  length : s'.length = s.length

theorem Same.trans {s₁ s₂ s₃ : EthRx} (h : Same s₁ s₂) (h' : Same s₂ s₃) : Same s₁ s₃ :=
  ⟨h.rxDesc.trans h'.rxDesc, h.fsRxDesc.trans h'.fsRxDesc, h.segCount.trans h'.segCount,
    h.length.trans h'.length⟩

/-- Time has gone by: the DMA may have given back more descriptors, and
taken the frames `new`. -/
structure Later (s' : EthRx) (q' : List RxDesc) (s : EthRx) (h : Nat) (q : List RxDesc)
    (due : List RxPart) (new : List (List UInt8)) : Prop where
  holds : s'.Holds h q' (due ++ new.flatMap rxParts)
  isPrefix : q <+: q'
  same : Same s' s
  arrived : s'.arrived = s.arrived ++ new
  told : s.Told → s'.Told
  full : s.Full q → s'.Full q'

theorem Holds.refl (hs : s.Holds h q due) : Later s q s h q due [] := by
  refine ⟨?_, List.prefix_rfl, ⟨rfl, rfl, rfl, rfl⟩, (List.append_nil _).symm, id, id⟩
  rw [List.flatMap_nil, List.append_nil]
  exact hs

theorem Later.trans {s₁ s₂ s₃ : EthRx} {q₁ q₂ q₃ : List RxDesc} {new new' : List (List UInt8)}
    (hl : Later s₁ q₁ s₂ h q₂ (due ++ new'.flatMap rxParts) new)
    (hl' : Later s₂ q₂ s₃ h q₃ due new') : Later s₁ q₁ s₃ h q₃ due (new' ++ new) := by
  refine ⟨?_, hl'.isPrefix.trans hl.isPrefix, hl.same.trans hl'.same, ?_, hl.told ∘ hl'.told,
    hl.full ∘ hl'.full⟩
  · rw [List.flatMap_append, ← List.append_assoc]
    exact hl.holds
  · rw [hl.arrived, hl'.arrived, List.append_assoc]

theorem holds_init (buffers : Nat → Mem) : (halETHDMARxDescListInit buffers).Holds 0 [] [] := by
  refine ⟨shows_nil (Nat.zero_lt_succ 3) fun _ _ => rfl, fun i hi => ?_, rfl, [], .nil, rfl⟩
  change (if i < 4 - 1 then i + 1 else 0) = (i + 1) % 4
  have hi : i < 4 := hi
  split <;> omega

/-- The descriptor the DMA is at is its own unless the program has all. -/
theorem Holds.own_current (hs : s.Holds h q due) :
    (s.dscrTab s.current).own = true ↔ q.length < ethRxBufNb := by
  rw [← hs.shows.free_iff, ← hs.current, held, Function.comp_apply, RxDesc.held]
  split <;> simp_all

/-- **One step of the DMA** writes the next part, if there is one, and
waits if there is no descriptor for it. -/
theorem Holds.dma (hs : s.Holds h q due) :
    ∃ q', Later s.dma q' s h q due [] ∧
      (s.pending = [] ∨ s.suspended = true ∨ q.length = ethRxBufNb ∨ q'.length = q.length + 1) := by
  obtain ⟨xs, hxs, hdue⟩ := hs.carries
  unfold EthRx.dma
  dsimp only
  split
  next hnil => exact ⟨q, hs.refl, .inl hnil⟩
  next x rest hpend =>
    split
    next hsusp => exact ⟨q, hs.refl, .inr (.inl hsusp)⟩
    next hsusp =>
      split
      next hown =>
        have hlt := hs.own_current.1 hown
        have hnext : (s.dscrTab s.current).buffer2NextDescAddr = place ethRxBufNb s.current 1 :=
          hs.next _ (hs.current ▸ place_lt (by decide) _ _)
        refine ⟨q ++ [{ s.dscrTab s.current with
          own := false, fs := x.1.first, ls := x.1.last, fl := x.2,
          buffer1 := (s.dscrTab s.current).buffer1.write 0 x.1.data }],
          ⟨⟨?_, fun i hi => ?_, ?_, xs ++ [x], ?_, ?_⟩, List.prefix_append _ _,
            ⟨rfl, rfl, rfl, rfl⟩, (List.append_nil _).symm, id, fun _ hc => absurd hc hsusp⟩,
          .inr (.inr (.inr List.length_append))⟩
        · refine (hs.shows.push hlt).congr fun i _ => ?_
          rw [← hs.current]
          exact congrFun (held_setDesc ..) i
        · refine Eq.trans (congrFun (nexts_setDesc ?_) i) (hs.next i hi)
          rfl
        · rw [List.length_append, ← place_place, ← hs.current]
          exact hnext
        · exact List.rel_append hxs (.cons ⟨rfl, rfl, rfl, Mem.read_write_self⟩ .nil)
        · rw [List.flatMap_nil, List.append_nil, ← hdue, hpend, List.append_assoc]
          rfl
      next hown =>
        have hfull : q.length = ethRxBufNb :=
          Nat.le_antisymm hs.shows.length_le (Nat.le_of_not_lt fun hc => hown (hs.own_current.2 hc))
        refine ⟨q, ⟨⟨hs.shows, hs.next, hs.current, xs, hxs, ?_⟩, List.prefix_rfl,
          ⟨rfl, rfl, rfl, rfl⟩, (List.append_nil _).symm, fun _ _ => rfl, fun _ _ => hfull⟩,
          .inr (.inr (.inl hfull))⟩
        rw [List.flatMap_nil, List.append_nil]
        exact hdue

/-- **One event.** -/
theorem Holds.happen (hs : s.Holds h q due) (e : RxEvent) :
    ∃ q' new, Later (s.happen e) q' s h q due new ∧ ∀ f ∈ new, e = .arrive f := by
  cases e with
  | dma =>
    obtain ⟨q', hl, -⟩ := hs.dma
    exact ⟨q', [], hl, fun _ hf => absurd hf List.not_mem_nil⟩
  | arrive frame =>
    obtain ⟨xs, hxs, hdue⟩ := hs.carries
    unfold EthRx.happen
    dsimp only
    split
    next hfree =>
      refine ⟨q, [frame], ⟨⟨hs.shows, hs.next, hs.current, xs, hxs, ?_⟩, List.prefix_rfl,
        ⟨rfl, rfl, rfl, rfl⟩, rfl, id, id⟩, fun f hf => ?_⟩
      · rw [← hdue, hfree.2, List.append_nil, List.flatMap_singleton]
      · rw [List.mem_singleton.1 hf]
    next => exact ⟨q, [], hs.refl, fun _ hf => absurd hf List.not_mem_nil⟩

theorem Holds.foldl_happen (hs : s.Holds h q due) (es : List RxEvent) :
    ∃ q' new, Later (es.foldl EthRx.happen s) q' s h q due new ∧
      ∀ f ∈ new, .arrive f ∈ es := by
  induction es generalizing s q due with
  | nil => exact ⟨q, [], hs.refl, fun _ hf => absurd hf List.not_mem_nil⟩
  | cons e es ih =>
    obtain ⟨q₁, new₁, hl₁, hnew₁⟩ := hs.happen e
    obtain ⟨q₂, new₂, hl₂, hnew₂⟩ := ih hl₁.holds
    refine ⟨q₂, new₁ ++ new₂, hl₂.trans hl₁, fun f hf => ?_⟩
    rcases List.mem_append.1 hf with hf | hf
    · exact List.mem_cons.2 (.inl (hnew₁ f hf).symm)
    · exact List.mem_cons_of_mem _ (hnew₂ f hf)

/-- **A look.** -/
theorem Holds.look (hs : s.Holds h q due) (sched : Nat → List RxEvent) :
    ∃ q' new, Later (s.look sched) q' s h q due new ∧
      ∀ f ∈ new, .arrive f ∈ sched s.moment := by
  obtain ⟨q', new, ⟨⟨hshows, hnext, hcur, hcarries⟩, hpre, hsame, harr, htold, hfull⟩, hnew⟩ :=
    hs.foldl_happen (sched s.moment)
  exact ⟨q', new, ⟨⟨hshows, hnext, hcur, hcarries⟩, hpre,
    ⟨hsame.rxDesc, hsame.fsRxDesc, hsame.segCount, hsame.length⟩, harr, htold, hfull⟩, hnew⟩

theorem foldl_dma_nil (hnil : s.pending = []) {es : List RxEvent} (hes : ∀ e ∈ es, e = .dma) :
    es.foldl EthRx.happen s = s := by
  induction es with
  | nil => rfl
  | cons e es ih =>
    obtain ⟨rfl, htail⟩ := List.forall_mem_cons.1 hes
    have hstep : s.happen .dma = s := by
      unfold EthRx.happen EthRx.dma
      rw [hnil]
    rw [List.foldl_cons, hstep]
    exact ih htail

/-- **Time for the DMA.** With no new frames, it gives back a descriptor at
each of its steps until it has nothing more to write or no descriptor. -/
theorem Holds.foldl_dma (hs : s.Holds h q due) (hfull : s.Full q) {es : List RxEvent}
    (hes : ∀ e ∈ es, e = .dma) :
    ∃ q', Later (es.foldl EthRx.happen s) q' s h q due [] ∧
      ((es.foldl EthRx.happen s).pending = [] ∨
        min (q.length + es.length) ethRxBufNb ≤ q'.length) := by
  induction es generalizing s q due with
  | nil => exact ⟨q, hs.refl, .inr (Nat.min_le_left _ _)⟩
  | cons e es ih =>
    by_cases hnil : s.pending = []
    · rw [foldl_dma_nil hnil hes]
      exact ⟨q, hs.refl, .inl hnil⟩
    · obtain ⟨rfl, htail⟩ := List.forall_mem_cons.1 hes
      obtain ⟨q₁, hl₁, hstep⟩ := hs.dma
      obtain ⟨q₂, hl₂, hend⟩ := ih hl₁.holds (hl₁.full hfull) htail
      refine ⟨q₂, hl₂.trans hl₁, hend.imp_right fun hle => ?_⟩
      have hmono₁ := hl₁.isPrefix.length_le
      have hmono₂ := hl₂.isPrefix.length_le
      rw [List.length_cons]
      rcases hstep with hc | hsusp | hall | hone
      · exact absurd hc hnil
      · have hall := hfull hsusp
        omega
      · omega
      · omega

/-- A schedule with no new frames, and time for the DMA at each look. -/
def Quiet (sched : Nat → List RxEvent) : Prop :=
  ∀ m, ethRxBufNb ≤ (sched m).length ∧ ∀ e ∈ sched m, e = .dma

/-- **A look** at such a time finds all that is due, or all descriptors. -/
theorem Holds.look_quiet (hs : s.Holds h q due) (hfull : s.Full q)
    {sched : Nat → List RxEvent} (hquiet : Quiet sched) :
    ∃ q', Later (s.look sched) q' s h q due [] ∧ min due.length ethRxBufNb ≤ q'.length := by
  obtain ⟨hlen, hes⟩ := hquiet s.moment
  obtain ⟨q', ⟨⟨hshows, hnext, hcur, xs, hxs, hdue⟩, hpre, hsame, harr, htold, hfull⟩, hend⟩ :=
    hs.foldl_dma hfull hes
  refine ⟨q', ⟨⟨hshows, hnext, hcur, xs, hxs, hdue⟩, hpre,
    ⟨hsame.rxDesc, hsame.fsRxDesc, hsame.segCount, hsame.length⟩, harr, htold, hfull⟩, ?_⟩
  rcases hend with hnil | hmin
  · rw [hnil, List.append_nil, List.flatMap_nil, List.append_nil] at hdue
    rw [← hdue, ← hxs.length_eq]
    exact Nat.min_le_left _ _
  · omega

end EthRx

end BusMonitor
