import BusMonitor.Lib.Run
import BusMonitor.RTOS.HeapBlocks
/-!
# Runs of the heap

The application allocates, frees what it was given, and writes to what it
has. From the first call on, in any order, no such run comes to an
assertion or an endless loop; the blocks it has are apart, a request fails
only when there is no room for it, and what was free at the start is free
again when all is given back.
-/


namespace BusMonitor

open Extent Stepwise

/-- A pointer the application has: its block, and how much it asked for. -/
structure Live where
  block : Extent
  wanted : Nat
  deriving DecidableEq

/-- The pointer. -/
def Live.pv (l : Live) : Nat := l.block.addr + xHeapStructSize

/-- What the application may write to. -/
def Live.Payload (l : Live) (y : Nat) : Prop := l.pv ≤ y ∧ y < l.pv + l.wanted

instance (l : Live) (y : Nat) : Decidable (l.Payload y) := inferInstanceAs (Decidable (_ ∧ _))

/-- The heap and the pointers the application has. -/
structure HeapUse where
  heap : RtosHeap
  live : List Live

/-- A request, a pointer given back, a write to a granule. -/
inductive HeapOp
  | malloc (xWantedSize : UInt32)
  | free (pv : Nat)
  | poke (y : Nat) (granule : BlockLink)

namespace RtosHeap

variable {pl : HeapPlace} {h : RtosHeap} {F U : List Extent} {b : Extent}

/-- The heap `pvPortMalloc` goes by, set up by the first call. -/
def ready (pl : HeapPlace) (h : RtosHeap) : RtosHeap := if h.pxEnd = 0 then prvHeapInit pl h else h

theorem top_pos (pl : HeapPlace) : 0 < pl.top := by
  have htop := pl.top_bounds
  omega

/-- The headers `prvHeapInit` writes, and the variables. -/
theorem prvHeapInit_spec (pl : HeapPlace) (h : RtosHeap) :
    (prvHeapInit pl h).mem pl.xStart = ⟨pl.base, 0⟩ ∧
    (prvHeapInit pl h).mem pl.base = ⟨pl.top, pl.top - pl.base⟩ ∧
    (prvHeapInit pl h).mem pl.top = ⟨0, 0⟩ ∧
    (prvHeapInit pl h).pxEnd = pl.top ∧
    (prvHeapInit pl h).xFreeBytesRemaining = pl.top - pl.base ∧
    (prvHeapInit pl h).xMinimumEverFreeBytesRemaining = pl.top - pl.base ∧
    (prvHeapInit pl h).xBlockAllocatedBit = blockAllocatedBit := by
  obtain ⟨-, hle, -⟩ := pl.base_bounds
  obtain ⟨-, hlt, htop⟩ := pl.top_bounds
  have hapart := pl.xStart_apart
  have hxb : pl.xStart ≠ pl.base := by omega
  have hxt : pl.xStart ≠ pl.top := (top_ne_xStart pl).symm
  have hbt : pl.base ≠ pl.top := by omega
  unfold prvHeapInit
  dsimp only
  rw [← HeapPlace.base, ← HeapPlace.top]
  simp only [setNext, setSize, size, hxb, hxt, hbt, hbt.symm, if_true, if_false]
  refine ⟨?_, ?_, ?_, ?_, ?_, ?_, ?_⟩ <;> trivial

/-- The application writes a granule. -/
def poke (h : RtosHeap) (y : Nat) (granule : BlockLink) : RtosHeap :=
  { h with mem := fun z => if z = y then granule else h.mem z }

/-- **A write inside of a block in use** leaves the headers alone. -/
theorem Represents.poke (hr : Represents pl h F U) (hb : b ∈ U) {y : Nat} (hlo : b.addr < y)
    (hhi : y < b.stop) (granule : BlockLink) : Represents pl (h.poke y granule) F U := by
  have hF : ∀ e ∈ F, e.addr ≠ y := by
    intro e he hc
    have hzero := hr.cover_free_of_used hb ⟨hlo.le, hhi⟩
    have hone := holds_le_cover he y
    have hpos := hr.separated.size_pos he
    rw [holds_eq_one.2 ⟨hc.le, hc ▸ Nat.lt_add_of_pos_right hpos⟩] at hone
    omega
  have hU : ∀ e ∈ U, e.addr ≠ y := by
    intro e he hc
    have hpos := hr.used_pos e he
    have hne : e ≠ b := fun heq => by rw [heq] at hc; omega
    have hestop : e.stop = e.addr + e.size := rfl
    rcases hr.pairwise.forall he hb hne with hor | hor <;> omega
  obtain ⟨hbase, htop⟩ := hr.used_bounds hb
  have hx : pl.xStart ≠ y := by
    obtain ⟨-, hle, -⟩ := pl.base_bounds
    obtain ⟨-, -, htop'⟩ := pl.top_bounds
    have hapart := pl.xStart_apart
    omega
  refine ⟨hr.toTiles, hr.pxEnd, hr.bit, ?_, hr.linked.congr ?_, fun u hu => ?_, hr.remaining⟩
  · have hne : pl.top ≠ y := by omega
    exact (if_neg hne).trans hr.end_mem
  · exact List.forall_mem_cons.2 ⟨if_neg hx, fun e he => if_neg (hF e he)⟩
  · exact (if_neg (hU u hu)).trans (hr.used u hu)

/-- **Setting up** leaves one free block, whatever was there. -/
theorem init_represents (pl : HeapPlace) (h : RtosHeap) :
    Represents pl (prvHeapInit pl h) [⟨pl.base, pl.top - pl.base⟩] [] := by
  obtain ⟨hx, hb, ht, hend, hfree, -, hbit⟩ := prvHeapInit_spec pl h
  obtain ⟨h8, -, -⟩ := pl.base_bounds
  obtain ⟨h8', hlt, -⟩ := pl.top_bounds
  have hstop : (⟨pl.base, pl.top - pl.base⟩ : Extent).stop = pl.top := by
    unfold stop
    dsimp only
    omega
  refine ⟨⟨⟨le_rfl, by dsimp only; omega, trivial⟩, fun x => ?_, ?_, ?_, ?_, ?_⟩, hend, hbit,
    ?_, ?_, ?_, ?_⟩
  · rw [cover_cons, cover_nil, holds, hstop]
    rfl
  · exact aligned_cons.2 ⟨⟨h8, Nat.dvd_sub h8' h8⟩, fun e he => absurd he List.not_mem_nil⟩
  · exact fun e he => absurd he List.not_mem_nil
  · exact fun e he => absurd he List.not_mem_nil
  · rfl
  · exact ht
  · exact ⟨congrArg BlockLink.xBlockSize hx, congrArg BlockLink.pxNextFreeBlock hx,
      congrArg BlockLink.xBlockSize hb, congrArg BlockLink.pxNextFreeBlock hb, trivial⟩
  · exact fun e he => absurd he List.not_mem_nil
  · exact hfree

theorem Represents.pxEnd_ne (hr : Represents pl h F U) : h.pxEnd ≠ 0 := by
  rw [hr.pxEnd]
  exact (top_pos pl).ne'

/-- A heap that has been set up is ready. -/
theorem Represents.ready (hr : Represents pl h F U) : h.ready pl = h := if_neg hr.pxEnd_ne

theorem malloc_ready (hr : Represents pl (ready pl h) F U) (n : UInt32) :
    pvPortMalloc pl h n = pvPortMalloc pl (ready pl h) n := by
  unfold pvPortMalloc
  dsimp only
  rw [← RtosHeap.ready, ← RtosHeap.ready, hr.ready]

end RtosHeap

namespace HeapUse

variable {pl : HeapPlace} {s s' : HeapUse}

/-- Before the first call. -/
def boot (mem : Nat → BlockLink) : HeapUse := ⟨RtosHeap.boot mem, []⟩

/-- The block a pointer is to, by its header. -/
def blockOf (h : RtosHeap) (pv : Nat) : Extent :=
  ⟨pv - xHeapStructSize, h.size (pv - xHeapStructSize) &&& (2 ^ 32 - 1 - h.xBlockAllocatedBit)⟩

/-- One operation, unless it does not return. -/
def step (pl : HeapPlace) (s : HeapUse) : HeapOp → Option HeapUse
  | .malloc xWantedSize => (s.heap.pvPortMalloc pl xWantedSize).map fun r =>
    if r.1 = 0 then ⟨r.2, s.live⟩ else ⟨r.2, ⟨blockOf r.2 r.1, xWantedSize.toNat⟩ :: s.live⟩
  | .free pv => (s.heap.vPortFree pl pv).map fun h => ⟨h, s.live.eraseP fun l => l.pv = pv⟩
  | .poke y granule => some ⟨s.heap.poke y granule, s.live⟩

/-- A run, as long as the operations return. -/
def runFrom (pl : HeapPlace) (s : HeapUse) (ops : List HeapOp) : Option HeapUse :=
  run (fun o op => o.bind (step pl · op)) (some s) ops

/-- The application gives back what it has, or a null pointer, and writes
to what it has. -/
def Fair (s : HeapUse) : HeapOp → Prop
  | .malloc _ => True
  | .free pv => pv = 0 ∨ ∃ l ∈ s.live, l.pv = pv
  | .poke y _ => portByteAlignment ∣ y ∧ ∃ l ∈ s.live, l.Payload y

instance (s : HeapUse) : (op : HeapOp) → Decidable (s.Fair op)
  | .malloc _ => isTrue trivial
  | .free pv => inferInstanceAs (Decidable (pv = 0 ∨ ∃ l ∈ s.live, l.pv = pv))
  | .poke y _ => inferInstanceAs (Decidable (portByteAlignment ∣ y ∧ ∃ l ∈ s.live, l.Payload y))

/-- Every operation of a run is fair in the state it is taken from. -/
def FairRun (pl : HeapPlace) (s : HeapUse) (ops : List HeapOp) : Prop :=
  Meets (fun o op => o.bind (step pl · op)) (fun o op => ∀ s ∈ o, s.Fair op) (some s) ops

instance (pl : HeapPlace) (s : HeapUse) (ops : List HeapOp) : Decidable (FairRun pl s ops) :=
  decidableMeets (some s) ops

/-- The blocks the application has. -/
def blocks (s : HeapUse) : List Extent := s.live.map Live.block

/-- The headers hold some free blocks and those of the application, each of
them large enough for what was asked for. -/
def Sound (pl : HeapPlace) (s : HeapUse) : Prop :=
  (∃ F, (s.heap.ready pl).Represents pl F s.blocks) ∧
  (s.heap.pxEnd = 0 → s.live = []) ∧
  ∀ l ∈ s.live, 0 < l.wanted ∧ RtosHeap.wantedSize l.wanted ≤ l.block.size

theorem sound_boot (pl : HeapPlace) (mem : Nat → BlockLink) : Sound pl (boot mem) :=
  ⟨⟨_, RtosHeap.init_represents pl _⟩, fun _ => rfl, fun _ hl => absurd hl List.not_mem_nil⟩

/-- A pointer of the application is not null. -/
theorem pv_ne (l : Live) : l.pv ≠ 0 := Nat.succ_ne_zero _

/-- The header of a block in use gives the block. -/
theorem blockOf_used {h : RtosHeap} {F U : List Extent} {b : Extent}
    (hr : h.Represents pl F (b :: U)) : blockOf h (b.addr + xHeapStructSize) = b := by
  have hmem : b ∈ b :: U := List.mem_cons_self ..
  have hsize : h.size b.addr = b.size ||| blockAllocatedBit :=
    congrArg BlockLink.xBlockSize (hr.used b hmem)
  have hlt := hr.size_lt (.inr hmem) (hr.used_pos b hmem)
  unfold blockOf
  rw [Nat.add_sub_cancel, hsize, hr.bit, unmark hlt]

theorem Sound.malloc (hs : s.Sound pl) (n : UInt32) :
    ∃ s', step pl s (.malloc n) = some s' ∧ s'.Sound pl := by
  obtain ⟨⟨F, hr⟩, -, hlive⟩ := hs
  rw [step, RtosHeap.malloc_ready hr]
  -- a null pointer leaves the heap as it is, but for its set-up
  rcases RtosHeap.malloc_spec hr n with ⟨hnull, -⟩ | ⟨b, F', h', hsome, hpos, -, hfit, -, hr', -, -⟩
  · rw [hnull]
    refine ⟨_, rfl, ⟨F, ?_⟩, fun hc => absurd hc hr.pxEnd_ne, hlive⟩
    change ((s.heap.ready pl).ready pl).Represents pl F s.blocks
    rw [hr.ready]
    exact hr
  · rw [hsome]
    refine ⟨⟨h', ⟨b, n.toNat⟩ :: s.live⟩, ?_, ⟨F', ?_⟩, fun hc => absurd hc hr'.pxEnd_ne,
      List.forall_mem_cons.2 ⟨⟨hpos, hfit⟩, hlive⟩⟩
    · have hpv : b.addr + xHeapStructSize ≠ 0 := Nat.succ_ne_zero _
      rw [Option.map_some]
      dsimp only
      rw [if_neg hpv, blockOf_used hr']
    · change (h'.ready pl).Represents pl F' (b :: s.blocks)
      rw [hr'.ready]
      exact hr'

/-- With a pointer of the application the heap is set up. -/
theorem Sound.represents (hs : s.Sound pl) (hne : s.live ≠ []) :
    ∃ F, s.heap.Represents pl F s.blocks := by
  obtain ⟨⟨F, hr⟩, hend, -⟩ := hs
  rw [RtosHeap.ready, if_neg fun hc => hne (hend hc)] at hr
  exact ⟨F, hr⟩

/-- A pointer of the application given back. -/
theorem Sound.free_live (hs : s.Sound pl) {l : Live} (hl : l ∈ s.live) :
    ∃ k l₁ l₂ h' F, s.live = l₁ ++ k :: l₂ ∧ k.pv = l.pv ∧
      step pl s (.free l.pv) = some ⟨h', l₁ ++ l₂⟩ ∧
      h'.Represents pl F ((l₁ ++ l₂).map Live.block) ∧
      RtosHeap.Keeps ((l₁ ++ l₂).map Live.block) h' s.heap := by
  obtain ⟨F, hr⟩ := hs.represents (List.ne_nil_of_mem hl)
  obtain ⟨k, l₁, l₂, -, hk, hsplit, herase⟩ :=
    List.exists_of_eraseP (p := fun k => k.pv = l.pv) hl (by simp)
  have hperm : s.blocks.Perm (k.block :: (l₁ ++ l₂).map Live.block) := by
    unfold blocks
    rw [hsplit]
    exact List.perm_middle.map Live.block
  obtain ⟨h', hfree, hr', hkeep, -⟩ := RtosHeap.free_spec (hr.perm hperm)
  have hpv : k.block.addr + xHeapStructSize = l.pv := of_decide_eq_true hk
  refine ⟨k, l₁, l₂, h', k.block.insert F, hsplit, hpv, ?_, hr', hkeep⟩
  rw [step, ← hpv, hfree, hpv, herase]
  rfl

/-- A null pointer given back is no operation. -/
theorem free_null (s : HeapUse) : step pl s (.free 0) = some s := by
  have hkeep : s.live.eraseP (fun l => l.pv = 0) = s.live :=
    List.eraseP_of_forall_not fun l _ => by simpa using pv_ne l
  rw [step, RtosHeap.vPortFree, if_neg (fun hc => hc rfl), Option.map_some, hkeep]

theorem Sound.free (hs : s.Sound pl) {pv : Nat} (hf : s.Fair (.free pv)) :
    ∃ s', step pl s (.free pv) = some s' ∧ s'.Sound pl := by
  rcases hf with rfl | ⟨l, hl, rfl⟩
  · exact ⟨s, free_null s, hs⟩
  · obtain ⟨k, l₁, l₂, h', F, hsplit, -, hstep, hr', -⟩ := hs.free_live hl
    refine ⟨_, hstep, ⟨F, ?_⟩, fun hc => absurd hc hr'.pxEnd_ne, fun j hj => hs.2.2 j ?_⟩
    · change (h'.ready pl).Represents pl F ((l₁ ++ l₂).map Live.block)
      rw [hr'.ready]
      exact hr'
    · rw [hsplit]
      exact (List.perm_middle.mem_iff).2 (List.mem_cons_of_mem _ hj)

/-- What is written to lies in a block, behind its header. -/
theorem Sound.payload (hs : s.Sound pl) {l : Live} (hl : l ∈ s.live) {y : Nat} (hy : l.Payload y) :
    l.block.addr < y ∧ y < l.block.stop := by
  obtain ⟨hpos, hfit⟩ := hs.2.2 l hl
  have hwanted := (RtosHeap.wantedSize_spec hpos).2.2
  obtain ⟨hlo, hhi⟩ := hy
  have hpv : l.pv = l.block.addr + 8 := rfl
  have hstop : l.block.stop = l.block.addr + l.block.size := rfl
  have hhead : xHeapStructSize = 8 := rfl
  omega

theorem Sound.poke (hs : s.Sound pl) {y : Nat} {granule : BlockLink}
    (hf : s.Fair (.poke y granule)) :
    ∃ s', step pl s (.poke y granule) = some s' ∧ s'.Sound pl := by
  obtain ⟨-, l, hl, hy⟩ := hf
  obtain ⟨hlo, hhi⟩ := hs.payload hl hy
  have hne := List.ne_nil_of_mem hl
  obtain ⟨F, hr⟩ := hs.represents hne
  have hmem : l.block ∈ s.blocks := List.mem_map_of_mem hl
  refine ⟨_, rfl, ⟨F, ?_⟩, fun hc => absurd (hs.2.1 hc) hne, hs.2.2⟩
  have hr' := hr.poke hmem hlo hhi granule
  change ((s.heap.poke y granule).ready pl).Represents pl F s.blocks
  rw [hr'.ready]
  exact hr'

/-- **One operation** of the application returns, and keeps the blocks
sound. -/
theorem Sound.step (hs : s.Sound pl) {op : HeapOp} (hf : s.Fair op) :
    ∃ s', step pl s op = some s' ∧ s'.Sound pl := by
  cases op with
  | malloc n => exact hs.malloc n
  | free pv => exact hs.free hf
  | poke y granule => exact hs.poke hf

/-- **A run** returns. -/
theorem Sound.run (hs : s.Sound pl) {ops : List HeapOp} (hm : FairRun pl s ops) :
    ∃ s', runFrom pl s ops = some s' ∧ s'.Sound pl := by
  refine Meets.invariant (I := fun o : Option HeapUse => ∃ s', o = some s' ∧ s'.Sound pl) hm
    ⟨s, rfl, hs⟩ ?_
  rintro _ op ⟨s, rfl, hs⟩ hf
  exact hs.step (hf s rfl)

/-! ## The blocks of the application -/

/-- The pointers are aligned, what was asked for lies in `ucHeap` and in a
block no other pointer has a byte of, and the variable counts the rest. -/
structure Tidy (pl : HeapPlace) (s : HeapUse) : Prop where
  aligned : ∀ l ∈ s.live, portByteAlignment ∣ l.pv
  inside : ∀ l ∈ s.live, pl.ucHeap ≤ l.block.addr ∧ l.pv + l.wanted ≤ l.block.stop ∧
    l.block.stop ≤ pl.ucHeap + configTotalHeapSize
  apart : s.live.Pairwise fun l k => l.block.Disjoint k.block
  counted : s.heap.pxEnd ≠ 0 →
    s.heap.xFreeBytesRemaining + total s.blocks = pl.top - pl.base

theorem Sound.tidy (hs : s.Sound pl) : s.Tidy pl := by
  obtain ⟨⟨F, hr⟩, -, hlive⟩ := hs
  have hblock : ∀ l ∈ s.live, l.block ∈ s.blocks := fun l hl => List.mem_map_of_mem hl
  refine ⟨fun l hl => ?_, fun l hl => ?_, List.pairwise_map.1 hr.pairwise, fun hne => ?_⟩
  · exact Nat.dvd_add (hr.used_aligned _ (hblock l hl)).1 ⟨1, rfl⟩
  · obtain ⟨hlo, hhi⟩ := hr.used_bounds (hblock l hl)
    obtain ⟨-, hle, -⟩ := pl.base_bounds
    obtain ⟨-, -, htop⟩ := pl.top_bounds
    obtain ⟨hpos, hfit⟩ := hlive l hl
    have hwanted := (RtosHeap.wantedSize_spec hpos).2.2
    have hpv : l.pv = l.block.addr + xHeapStructSize := rfl
    have hstop : l.block.stop = l.block.addr + l.block.size := rfl
    refine ⟨by omega, by omega, by omega⟩
  · rw [RtosHeap.ready, if_neg hne] at hr
    rw [hr.remaining]
    exact hr.totals

/-- **The heap in use.** Whatever the application asks for, gives back and
writes, in any order, no call comes to an assertion or an endless loop, and
its blocks are tidy. -/
theorem heap_tidy (pl : HeapPlace) (mem : Nat → BlockLink) {ops : List HeapOp}
    (hm : FairRun pl (boot mem) ops) :
    ∃ s, runFrom pl (boot mem) ops = some s ∧ s.Tidy pl := by
  obtain ⟨s, hrun, hs⟩ := (sound_boot pl mem).run hm
  exact ⟨s, hrun, hs.tidy⟩

/-- A place that is not aligned. -/
def oddPlace : HeapPlace := ⟨0x20000104, 0x20000000, by decide, by decide⟩

/-- Three blocks, the second of them given back, and a smaller one in its
place. -/
def shortRun : List HeapOp :=
  [.free 0, .malloc 100, .malloc 40, .poke 0x20000110 ⟨1, 2⟩, .malloc 24, .free 0x20000180,
    .malloc 0, .malloc 9, .malloc 0xFFFFFFFF]

theorem heap_tidy_short : ∃ s, runFrom oddPlace (boot fun _ => ⟨0, 0⟩) shortRun = some s ∧
    s.Tidy oddPlace :=
  heap_tidy oddPlace _ (by decide +kernel)

/-! ## Requests -/

/-- Room for `w` bytes at `a`, between the ends of the heap and apart from
the blocks the application has. -/
def Fits (pl : HeapPlace) (s : HeapUse) (w a : Nat) : Prop :=
  pl.base ≤ a ∧ a + w ≤ pl.top ∧ ∀ l ∈ s.live, (⟨a, w⟩ : Extent).Disjoint l.block

/-- Room is what is in no block in use. -/
theorem Fits.cover {F : List Extent} {w a : Nat} (ht : RtosHeap.Tiles pl F s.blocks)
    (hf : s.Fits pl w a) {x : Nat} (hlo : a ≤ x) (hhi : x < a + w) : cover F x = 1 := by
  obtain ⟨hbase, htop, hapart⟩ := hf
  have hcov := ht.covers x
  rw [if_pos ⟨hbase.trans hlo, by omega⟩] at hcov
  have hzero : Extent.cover s.blocks x = 0 := by
    refine cover_eq_zero fun b hb => ?_
    obtain ⟨l, hl, rfl⟩ := List.mem_map.1 hb
    have hor := hapart l hl
    unfold Extent.Disjoint stop at hor
    rw [holds_eq_zero]
    unfold stop
    dsimp only at hor
    omega
  omega

/-- A free block has room. -/
theorem fits_of_free {F : List Extent} {e : Extent} {w : Nat} (ht : RtosHeap.Tiles pl F s.blocks)
    (he : e ∈ F) (hle : w ≤ e.size) : s.Fits pl w e.addr := by
  obtain ⟨hlo, hhi⟩ := ht.free_bounds he
  have hestop : e.stop = e.addr + e.size := rfl
  refine ⟨hlo, by omega, fun l hl => ?_⟩
  have hor := ht.disjoint he (List.mem_map_of_mem hl : l.block ∈ s.blocks)
  unfold Extent.Disjoint stop at hor ⊢
  dsimp only
  omega

/-- **A request** of the application is answered with the lowest address
that has room for it, and by a null pointer if and only if there is none,
whatever has been allocated and given back before. -/
theorem heap_lowest (pl : HeapPlace) (mem : Nat → BlockLink) {ops : List HeapOp}
    (hm : FairRun pl (boot mem) ops) (n : UInt32) :
    ∃ s pv h, runFrom pl (boot mem) ops = some s ∧ s.heap.pvPortMalloc pl n = some (pv, h) ∧
      (pv ≠ 0 ↔ 0 < n.toNat ∧ n.toNat < 2 ^ 31 ∧ ∃ a, s.Fits pl (RtosHeap.wantedSize n.toNat) a) ∧
      (pv ≠ 0 → s.Fits pl (RtosHeap.wantedSize n.toNat) (pv - xHeapStructSize) ∧
        ∀ a, s.Fits pl (RtosHeap.wantedSize n.toNat) a → pv - xHeapStructSize ≤ a) := by
  obtain ⟨s, hrun, ⟨F, hr⟩, -, -⟩ := (sound_boot pl mem).run hm
  rcases RtosHeap.malloc_spec hr n with
    ⟨hnull, hwhy⟩ | ⟨b, F', h', hsome, hpos, hlt, -, ⟨e, he, haddr, hfit, hleast⟩, -⟩
  · refine ⟨s, 0, _, hrun, (RtosHeap.malloc_ready hr n).trans hnull, ⟨fun hc => absurd rfl hc, ?_⟩,
      fun hc => absurd rfl hc⟩
    rintro ⟨hpos, hlt, a, hfits⟩
    have hw := (RtosHeap.wantedSize_spec hpos).1
    -- more than there is in all is more than any block has
    have hall : ∀ e ∈ F, e.size < RtosHeap.wantedSize n.toNat := by
      rcases hwhy with hzero | hge | hall
      · omega
      · omega
      · exact hall
    obtain ⟨e, he, hle⟩ := (hr.separated.exists_size_iff hw).2
      ⟨a, fun x hx hx' => hfits.cover hr.toTiles hx hx'⟩
    exact absurd hle (Nat.not_le_of_lt (hall e he))
  · have hw := (RtosHeap.wantedSize_spec hpos).1
    have hfits := fits_of_free hr.toTiles he hfit
    rw [haddr] at hfits hleast
    have hpv : b.addr + xHeapStructSize ≠ 0 := Nat.succ_ne_zero _
    refine ⟨s, _, h', hrun, (RtosHeap.malloc_ready hr n).trans hsome,
      ⟨fun _ => ⟨hpos, hlt, b.addr, hfits⟩, fun _ => hpv⟩, fun _ => ?_⟩
    rw [Nat.add_sub_cancel]
    refine ⟨hfits, fun a ha => ?_⟩
    -- room lies in one free block, as no two of them touch
    obtain ⟨f, hf, hle, hle'⟩ := hr.separated.exists_mem hw
      fun x hx hx' => ha.cover hr.toTiles hx hx'
    have hfsize : f.stop = f.addr + f.size := rfl
    exact (hleast f hf (by omega)).trans hle

theorem heap_lowest_short :
    ∃ s pv h, runFrom oddPlace (boot fun _ => ⟨0, 0⟩) shortRun = some s ∧
      s.heap.pvPortMalloc oddPlace 20 = some (pv, h) ∧
      (pv ≠ 0 ↔ 0 < (20 : UInt32).toNat ∧ (20 : UInt32).toNat < 2 ^ 31 ∧
        ∃ a, s.Fits oddPlace (RtosHeap.wantedSize (20 : UInt32).toNat) a) ∧
      (pv ≠ 0 → s.Fits oddPlace (RtosHeap.wantedSize (20 : UInt32).toNat) (pv - xHeapStructSize) ∧
        ∀ a, s.Fits oddPlace (RtosHeap.wantedSize (20 : UInt32).toNat) a →
          pv - xHeapStructSize ≤ a) :=
  heap_lowest oddPlace _ (by decide +kernel) 20

/-! ## All given back -/

/-- The heap is one free block from end to end. -/
structure Whole (pl : HeapPlace) (h : RtosHeap) : Prop where
  start : h.mem pl.xStart = ⟨pl.base, 0⟩
  block : h.mem pl.base = ⟨pl.top, pl.top - pl.base⟩
  marker : h.mem pl.top = ⟨0, 0⟩
  pxEnd : h.pxEnd = pl.top
  remaining : h.xFreeBytesRemaining = pl.top - pl.base

theorem whole_of_represents {h : RtosHeap} {F : List Extent} (hr : h.Represents pl F []) :
    Whole pl h := by
  have hinit := RtosHeap.init_represents pl h
  -- the same addresses are free as at the start, and they determine the list
  obtain rfl : F = [⟨pl.base, pl.top - pl.base⟩] := by
    refine hr.separated.ext hinit.separated fun x => ?_
    have hcov := hr.covers x
    rw [← hinit.covers x] at hcov
    exact hcov
  obtain ⟨hxsize, hxnext, hbsize, hbnext, -⟩ := hr.linked
  exact ⟨congrArg₂ BlockLink.mk hxnext hxsize, congrArg₂ BlockLink.mk hbnext hbsize, hr.end_mem,
    hr.pxEnd, hr.remaining⟩

/-- **Nothing is left behind.** Where the application has given back all it
had, in whatever order, the heap is one free block again. -/
theorem heap_restored (pl : HeapPlace) (mem : Nat → BlockLink) {ops : List HeapOp}
    (hm : FairRun pl (boot mem) ops) :
    ∃ s, runFrom pl (boot mem) ops = some s ∧
      (s.heap.pxEnd ≠ 0 → s.live = [] → Whole pl s.heap) := by
  obtain ⟨s, hrun, ⟨F, hr⟩, -, -⟩ := (sound_boot pl mem).run hm
  refine ⟨s, hrun, fun hne hnil => whole_of_represents (F := F) ?_⟩
  have hblocks : s.blocks = [] := by rw [blocks, hnil, List.map_nil]
  rw [RtosHeap.ready, if_neg hne, hblocks] at hr
  exact hr

/-- The blocks of `shortRun` given back, the first one first. -/
def shortRunBack : List HeapOp :=
  shortRun ++ [.free 0x20000110, .free 0x200001B0, .free 0x20000180]

theorem heap_restored_short :
    ∃ s, runFrom oddPlace (boot fun _ => ⟨0, 0⟩) shortRunBack = some s ∧
      s.heap.pxEnd ≠ 0 ∧ s.live = [] ∧ Whole oddPlace s.heap := by
  have hfair : FairRun oddPlace (boot fun _ => ⟨0, 0⟩) shortRunBack := by decide +kernel
  obtain ⟨s, hrun, hwhole⟩ := heap_restored oddPlace _ hfair
  have hend : ∃ s, runFrom oddPlace (boot fun _ => ⟨0, 0⟩) shortRunBack = some s ∧
      s.heap.pxEnd ≠ 0 ∧ s.live = [] :=
    ⟨(runFrom oddPlace (boot fun _ => ⟨0, 0⟩) shortRunBack).get (by decide +kernel),
      (Option.some_get _).symm, by decide +kernel, by decide +kernel⟩
  obtain ⟨t, ht, hne, hnil⟩ := hend
  obtain rfl := Option.some.inj (ht.symm.trans hrun)
  exact ⟨t, hrun, hne, hnil, hwhole hne hnil⟩

/-! ## Contents -/

/-- The operation does not give the pointer back or write to its payload. -/
def Leaves (l : Live) : HeapOp → Prop
  | .malloc _ => True
  | .free pv => pv ≠ l.pv
  | .poke y _ => ¬ l.Payload y

instance (l : Live) : (op : HeapOp) → Decidable (Leaves l op)
  | .malloc _ => isTrue trivial
  | .free pv => inferInstanceAs (Decidable (pv ≠ l.pv))
  | .poke y _ => inferInstanceAs (Decidable (¬ l.Payload y))

/-- What the application has at a pointer. -/
def SameAt (l : Live) (s' s : HeapUse) : Prop :=
  l ∈ s'.live ∧ ∀ y, l.Payload y → s'.heap.mem y = s.heap.mem y

/-- One operation leaves the other contents alone. -/
theorem Sound.sameAt (hs : s.Sound pl) {l : Live} (hl : l ∈ s.live) {op : HeapOp}
    (hf : s.Fair op) (hop : Leaves l op) (hstep : HeapUse.step pl s op = some s') :
    SameAt l s' s := by
  obtain ⟨F, hr⟩ := hs.represents (List.ne_nil_of_mem hl)
  cases op with
  | malloc n =>
    rw [HeapUse.step] at hstep
    rcases RtosHeap.malloc_spec hr n with ⟨hnull, -⟩ | ⟨b, F', h', hsome, -, -, -, -, -, hkeep, -⟩
    · rw [hnull] at hstep
      obtain rfl := Option.some.inj hstep
      exact ⟨hl, fun _ _ => rfl⟩
    · have hpv : b.addr + xHeapStructSize ≠ 0 := Nat.succ_ne_zero _
      rw [hsome, Option.map_some, if_neg hpv] at hstep
      obtain rfl := Option.some.inj hstep
      refine ⟨List.mem_cons_of_mem _ hl, fun y hy => ?_⟩
      obtain ⟨hlo, hhi⟩ := hs.payload hl hy
      exact hkeep _ (List.mem_map_of_mem hl) y hlo.le hhi
  | free pv =>
    rcases hf with rfl | ⟨k, hk, rfl⟩
    · rw [free_null] at hstep
      obtain rfl := Option.some.inj hstep
      exact ⟨hl, fun _ _ => rfl⟩
    · obtain ⟨j, l₁, l₂, h', F', hsplit, hj, hfree, -, hkeep⟩ := hs.free_live hk
      obtain rfl := Option.some.inj (hfree.symm.trans hstep)
      have hmem : l ∈ l₁ ++ l₂ := by
        rw [hsplit] at hl
        rcases List.mem_cons.1 ((List.perm_middle.mem_iff).1 hl) with rfl | hmem
        -- two blocks may not have the same pointer
        · exact absurd hj.symm hop
        · exact hmem
      refine ⟨hmem, fun y hy => ?_⟩
      obtain ⟨hlo, hhi⟩ := hs.payload hl hy
      exact hkeep _ (List.mem_map_of_mem hmem) y hlo.le hhi
  | poke y granule =>
    obtain rfl := Option.some.inj hstep
    refine ⟨hl, fun z hz => if_neg ?_⟩
    rintro rfl
    exact hop hz

theorem Sound.sameAt_run (hs : s.Sound pl) {l : Live} (hl : l ∈ s.live) {ops : List HeapOp}
    (hm : FairRun pl s ops) (hops : ∀ op ∈ ops, Leaves l op) :
    ∃ s', runFrom pl s ops = some s' ∧ SameAt l s' s := by
  induction ops generalizing s with
  | nil => exact ⟨s, rfl, hl, fun _ _ => rfl⟩
  | cons op ops ih =>
    obtain ⟨hf, hm⟩ := hm
    obtain ⟨hop, hops⟩ := List.forall_mem_cons.1 hops
    obtain ⟨s₁, hstep, hs₁⟩ := hs.step (hf s rfl)
    have hsame := hs.sameAt hl (hf s rfl) hop hstep
    have hbind : (some s).bind (HeapUse.step pl · op) = some s₁ := hstep
    change Meets _ _ ((some s).bind (HeapUse.step pl · op)) ops at hm
    rw [hbind] at hm
    obtain ⟨s', hrun, hl', hmem⟩ := ih hs₁ hsame.1 hm hops
    refine ⟨s', ?_, hl', fun y hy => (hmem y hy).trans (hsame.2 y hy)⟩
    change Stepwise.run _ ((some s).bind (HeapUse.step pl · op)) ops = some s'
    rw [hbind]
    exact hrun

/-- **What is written stays.** While the application has a pointer, and
does not write to its payload, the payload is as it was, whatever else is
allocated, given back and written to. -/
theorem heap_content (pl : HeapPlace) (mem : Nat → BlockLink) {ops ops' : List HeapOp}
    (hm : FairRun pl (boot mem) (ops ++ ops')) {s : HeapUse}
    (hrun : runFrom pl (boot mem) ops = some s) {l : Live} (hl : l ∈ s.live)
    (hops : ∀ op ∈ ops', Leaves l op) :
    ∃ s', runFrom pl (boot mem) (ops ++ ops') = some s' ∧ SameAt l s' s := by
  obtain ⟨hm₁, hm₂⟩ := (meets_append _ _ _).1 hm
  obtain ⟨t, ht, hs⟩ := (sound_boot pl mem).run hm₁
  obtain rfl := Option.some.inj (hrun.symm.trans ht)
  have hm' : FairRun pl s ops' := by
    unfold runFrom at hrun
    rw [hrun] at hm₂
    exact hm₂
  obtain ⟨s', hrun', hsame⟩ := hs.sameAt_run hl hm' hops
  refine ⟨s', ?_, hsame⟩
  unfold runFrom at hrun hrun' ⊢
  rw [run_append, hrun, hrun']

theorem heap_content_short :
    ∃ s s', runFrom oddPlace (boot fun _ => ⟨0, 0⟩) (shortRun.take 4 ++ shortRun.drop 4) =
      some s' ∧ SameAt ⟨⟨0x20000108, 112⟩, 100⟩ s' s :=
  ⟨(runFrom oddPlace (boot fun _ => ⟨0, 0⟩) (shortRun.take 4)).get (by decide +kernel),
    heap_content oddPlace _ (by decide +kernel) (Option.some_get _).symm (by decide +kernel)
      (by decide)⟩

end HeapUse

end BusMonitor
