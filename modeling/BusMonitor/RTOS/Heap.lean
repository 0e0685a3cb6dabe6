import Mathlib.Algebra.Group.Nat.Defs
import BusMonitor.Lib.Extents
/-!
# The heap

`heap_4.c`, which the application's `pvPortMalloc` and `vPortFree` are, with
the free blocks linked through their own headers. The memory is seen in
granules of `portBYTE_ALIGNMENT` bytes, each of them a header or a part of
what the application keeps in a block.
-/


namespace BusMonitor

def configTotalHeapSize : Nat := 30 * 1024

def portByteAlignment : Nat := 8

/-- The size of a `BlockLink_t`, which is a multiple of the alignment. -/
def xHeapStructSize : Nat := 8

def heapMinimumBlockSize : Nat := xHeapStructSize <<< 1

/-- A granule as a `BlockLink_t`. -/
structure BlockLink where
  pxNextFreeBlock : Nat
  xBlockSize : Nat
  deriving DecidableEq, Repr

/-- Where the linker has put `ucHeap` and `xStart`. -/
structure HeapPlace where
  ucHeap : Nat
  xStart : Nat
  ucHeap_pos : 0 < ucHeap
  xStart_apart : xStart < ucHeap ∨ ucHeap + configTotalHeapSize ≤ xStart

/-- The memory and the variables of the heap. A null pointer is 0. -/
structure RtosHeap where
  mem : Nat → BlockLink
  pxEnd : Nat
  xFreeBytesRemaining : Nat
  xMinimumEverFreeBytesRemaining : Nat
  xBlockAllocatedBit : Nat

namespace RtosHeap

variable (h : RtosHeap)

def next (x : Nat) : Nat := (h.mem x).pxNextFreeBlock

def size (x : Nat) : Nat := (h.mem x).xBlockSize

def setNext (x v : Nat) : RtosHeap :=
  { h with mem := fun y => if y = x then { h.mem x with pxNextFreeBlock := v } else h.mem y }

def setSize (x v : Nat) : RtosHeap :=
  { h with mem := fun y => if y = x then { h.mem x with xBlockSize := v } else h.mem y }

/-- `configASSERT`: the program stops for good. -/
def assert (p : Prop) [Decidable p] : Option Unit := if p then some () else none

/-- The variables before the first call. -/
def boot (mem : Nat → BlockLink) : RtosHeap := ⟨mem, 0, 0, 0, 0⟩

/-- `prvHeapInit`. -/
def prvHeapInit (pl : HeapPlace) (h : RtosHeap) : RtosHeap :=
  let uxAddress := pl.ucHeap
  -- what lies before the first multiple of the alignment is lost
  let pucAlignedHeap := if uxAddress % portByteAlignment ≠ 0 then
    (uxAddress + (portByteAlignment - 1)) / portByteAlignment * portByteAlignment else uxAddress
  let xTotalHeapSize := configTotalHeapSize - (pucAlignedHeap - pl.ucHeap)
  let h := h.setNext pl.xStart pucAlignedHeap
  let h := h.setSize pl.xStart 0
  -- the end marker is the last header there is room for
  let uxAddress := pucAlignedHeap + xTotalHeapSize - xHeapStructSize
  let pxEnd := uxAddress / portByteAlignment * portByteAlignment
  let h := { h with pxEnd := pxEnd }
  let h := h.setSize pxEnd 0
  let h := h.setNext pxEnd 0
  let pxFirstFreeBlock := pucAlignedHeap
  let h := h.setSize pxFirstFreeBlock (pxEnd - pxFirstFreeBlock)
  let h := h.setNext pxFirstFreeBlock pxEnd
  { h with
    xMinimumEverFreeBytesRemaining := h.size pxFirstFreeBlock
    xFreeBytesRemaining := h.size pxFirstFreeBlock
    xBlockAllocatedBit := 1 <<< 31 }

/-- The loop of `prvInsertBlockIntoFreeList`: the block to insert behind. -/
def iterate (h : RtosHeap) (pxBlockToInsert : Nat) : Nat → Nat → Option Nat
  | 0, _ => none
  | fuel + 1, pxIterator =>
    if h.next pxIterator < pxBlockToInsert then
      iterate h pxBlockToInsert fuel (h.next pxIterator)
    else some pxIterator

/-- The block is joined with the one before it, if they touch. -/
def joinBefore (h : RtosHeap) (pxIterator pxBlockToInsert : Nat) : RtosHeap × Nat :=
  if pxIterator + h.size pxIterator = pxBlockToInsert then
    (h.setSize pxIterator (h.size pxIterator + h.size pxBlockToInsert), pxIterator)
  else (h, pxBlockToInsert)

/-- And with the one behind it; its link is set. -/
def joinBehind (h : RtosHeap) (pxIterator pxBlockToInsert : Nat) : RtosHeap :=
  if pxBlockToInsert + h.size pxBlockToInsert = h.next pxIterator then
    if h.next pxIterator ≠ h.pxEnd then
      let h := h.setSize pxBlockToInsert (h.size pxBlockToInsert + h.size (h.next pxIterator))
      h.setNext pxBlockToInsert (h.next (h.next pxIterator))
    -- the end marker is no block to be joined with
    else h.setNext pxBlockToInsert h.pxEnd
  else h.setNext pxBlockToInsert (h.next pxIterator)

/-- What `prvInsertBlockIntoFreeList` does behind its loop. -/
def insertBehind (h : RtosHeap) (pxIterator pxBlockToInsert : Nat) : RtosHeap :=
  let (h, pxBlockToInsert) := h.joinBefore pxIterator pxBlockToInsert
  let h := h.joinBehind pxIterator pxBlockToInsert
  -- a block joined with the one before it would be linked to itself
  if pxIterator ≠ pxBlockToInsert then h.setNext pxIterator pxBlockToInsert else h

/-- More steps than there are blocks. -/
def heapFuel : Nat := configTotalHeapSize

/-- `prvInsertBlockIntoFreeList`. -/
def prvInsertBlockIntoFreeList (pl : HeapPlace) (h : RtosHeap) (pxBlockToInsert : Nat) :
    Option RtosHeap :=
  (h.iterate pxBlockToInsert heapFuel pl.xStart).map fun pxIterator =>
    h.insertBehind pxIterator pxBlockToInsert

/-- The loop of `pvPortMalloc`: the block found and the one before it. -/
def findFit (h : RtosHeap) (xWantedSize : Nat) : Nat → Nat → Nat → Option (Nat × Nat)
  | 0, _, _ => none
  | fuel + 1, pxPreviousBlock, pxBlock =>
    if h.size pxBlock < xWantedSize ∧ h.next pxBlock ≠ 0 then
      findFit h xWantedSize fuel pxBlock (h.next pxBlock)
    else some (pxPreviousBlock, pxBlock)

/-- The size of the block for a request: a header, and up to the next
multiple of the alignment. -/
def wantedSize (xWantedSize : Nat) : Nat :=
  if xWantedSize > 0 then
    let xWantedSize := xWantedSize + xHeapStructSize
    if xWantedSize % portByteAlignment ≠ 0 then
      xWantedSize + (portByteAlignment - xWantedSize % portByteAlignment)
    else xWantedSize
  else xWantedSize

/-- What a block has too much is put back as a block of its own. -/
def splitBlock (pl : HeapPlace) (h : RtosHeap) (xWantedSize pxBlock : Nat) : Option RtosHeap :=
  if h.size pxBlock - xWantedSize > heapMinimumBlockSize then do
    let pxNewBlockLink := pxBlock + xWantedSize
    assert (pxNewBlockLink % portByteAlignment = 0)
    let h := h.setSize pxNewBlockLink (h.size pxBlock - xWantedSize)
    let h := h.setSize pxBlock xWantedSize
    prvInsertBlockIntoFreeList pl h pxNewBlockLink
  else some h

/-- The block is counted, and marked as one in use. -/
def handOut (h : RtosHeap) (pxBlock : Nat) : RtosHeap :=
  let h := { h with xFreeBytesRemaining := h.xFreeBytesRemaining - h.size pxBlock }
  let h := if h.xFreeBytesRemaining < h.xMinimumEverFreeBytesRemaining then
    { h with xMinimumEverFreeBytesRemaining := h.xFreeBytesRemaining } else h
  let h := h.setSize pxBlock (h.size pxBlock ||| h.xBlockAllocatedBit)
  h.setNext pxBlock 0

/-- The block found is taken out of the list. -/
def takeBlock (pl : HeapPlace) (h : RtosHeap) (xWantedSize pxPreviousBlock pxBlock : Nat) :
    Option (Nat × RtosHeap) := do
  let pvReturn := h.next pxPreviousBlock + xHeapStructSize
  let h := h.setNext pxPreviousBlock (h.next pxBlock)
  let h ← splitBlock pl h xWantedSize pxBlock
  let h := h.handOut pxBlock
  assert (pvReturn % portByteAlignment = 0)
  pure (pvReturn, h)

/-- `pvPortMalloc`: the pointer it returns, unless it does not return. -/
def pvPortMalloc (pl : HeapPlace) (h : RtosHeap) (xWantedSize : UInt32) : Option (Nat × RtosHeap) :=
  let h := if h.pxEnd = 0 then prvHeapInit pl h else h
  -- the top bit of a size marks a block in use
  if xWantedSize.toNat &&& h.xBlockAllocatedBit = 0 then do
    let xWantedSize := wantedSize xWantedSize.toNat
    -- asserted where a size is rounded up; one that is not is a multiple as it is
    assert (xWantedSize % portByteAlignment = 0)
    if xWantedSize > 0 ∧ xWantedSize ≤ h.xFreeBytesRemaining then
      let (pxPreviousBlock, pxBlock) ← h.findFit xWantedSize heapFuel pl.xStart (h.next pl.xStart)
      -- the search has come to the end marker when no block is large enough
      if pxBlock ≠ h.pxEnd then takeBlock pl h xWantedSize pxPreviousBlock pxBlock
      else pure (0, h)
    else pure (0, h)
  else some (0, h)

/-- `vPortFree`, unless it does not return. -/
def vPortFree (pl : HeapPlace) (h : RtosHeap) (pv : Nat) : Option RtosHeap :=
  if pv ≠ 0 then do
    let pxLink := pv - xHeapStructSize
    -- a pointer that is not to a block in use stops the program
    assert (h.size pxLink &&& h.xBlockAllocatedBit ≠ 0)
    assert (h.next pxLink = 0)
    let h := h.setSize pxLink (h.size pxLink &&& (2 ^ 32 - 1 - h.xBlockAllocatedBit))
    let h := { h with xFreeBytesRemaining := h.xFreeBytesRemaining + h.size pxLink }
    prvInsertBlockIntoFreeList pl h pxLink
  else some h

/-! ## Fields -/

variable {h} {x y v : Nat}

@[simp] theorem next_setNext : (h.setNext x v).next y = if y = x then v else h.next y := by
  unfold next setNext
  dsimp only
  split <;> rfl

@[simp] theorem size_setNext : (h.setNext x v).size y = h.size y := by
  unfold size setNext
  dsimp only
  split
  · next heq => rw [heq]
  · rfl

@[simp] theorem next_setSize : (h.setSize x v).next y = h.next y := by
  unfold next setSize
  dsimp only
  split
  · next heq => rw [heq]
  · rfl

@[simp] theorem size_setSize : (h.setSize x v).size y = if y = x then v else h.size y := by
  unfold size setSize
  dsimp only
  split <;> rfl

@[simp] theorem pxEnd_setNext : (h.setNext x v).pxEnd = h.pxEnd := rfl

@[simp] theorem pxEnd_setSize : (h.setSize x v).pxEnd = h.pxEnd := rfl

theorem mem_setNext (hne : y ≠ x) : (h.setNext x v).mem y = h.mem y := if_neg hne

theorem mem_setSize (hne : y ≠ x) : (h.setSize x v).mem y = h.mem y := if_neg hne

/-! ## The list of the free blocks -/

/-- The address behind an end of the list: its first block, or `stop`. -/
def first (stop : Nat) : List Extent → Nat
  | [] => stop
  | e :: _ => e.addr

/-- The headers hold the sizes, and link each block to the next one and the
last one to `stop`. -/
def Linked (h : RtosHeap) (stop : Nat) : List Extent → Prop
  | [] => True
  | e :: es => h.size e.addr = e.size ∧ h.next e.addr = first stop es ∧ Linked h stop es

variable {stop : Nat} {p b e : Extent} {es : List Extent}

/-- Only the headers of the blocks matter. -/
theorem Linked.congr {h' : RtosHeap} (hl : Linked h stop es)
    (hmem : ∀ e ∈ es, h'.mem e.addr = h.mem e.addr) : Linked h' stop es := by
  induction es with
  | nil => trivial
  | cons e es ih =>
    obtain ⟨he, hes⟩ := List.forall_mem_cons.1 hmem
    obtain ⟨hsize, hnext, htail⟩ := hl
    exact ⟨(congrArg BlockLink.xBlockSize he).trans hsize,
      (congrArg BlockLink.pxNextFreeBlock he).trans hnext, ih htail hes⟩

theorem Linked.size_of_mem (hl : Linked h stop es) (he : e ∈ es) : h.size e.addr = e.size := by
  induction es with
  | nil => exact absurd he List.not_mem_nil
  | cons f es ih =>
    rcases List.mem_cons.1 he with rfl | he
    · exact hl.1
    · exact ih hl.2.2 he

theorem first_join (b : Extent) (es : List Extent) : first stop (b.join es) = b.addr := by
  cases es with
  | nil => rfl
  | cons e es =>
    rw [Extent.join]
    split <;> rfl

theorem first_attach (p b : Extent) (es : List Extent) :
    first stop (p.attach b es) = p.addr := by
  rw [Extent.attach]
  split
  · exact first_join _ _
  · rfl

theorem first_insertAfter (p b : Extent) (es : List Extent) :
    first stop (p.insertAfter b es) = p.addr := by
  cases es with
  | nil => exact first_attach p b []
  | cons e es =>
    rw [Extent.insertAfter]
    split
    · rfl
    · exact first_attach p b (e :: es)

theorem addr_join {x : Nat} (hb : x ≠ b.addr) (hes : ∀ e ∈ es, x ≠ e.addr) :
    ∀ e ∈ b.join es, x ≠ e.addr := by
  cases es with
  | nil => exact List.forall_mem_singleton.2 hb
  | cons f es =>
    obtain ⟨hf, hes⟩ := List.forall_mem_cons.1 hes
    rw [Extent.join]
    split
    · exact List.forall_mem_cons.2 ⟨hb, hes⟩
    · exact List.forall_mem_cons.2 ⟨hb, List.forall_mem_cons.2 ⟨hf, hes⟩⟩

/-- A block before the list is joined with its first one. -/
theorem joinBehind_linked {it : Nat} (hend : h.pxEnd = stop) (hit : h.next it = first stop es)
    (hb : h.size b.addr = b.size) (hl : Linked h stop es) (hne : ∀ e ∈ es, b.addr ≠ e.addr)
    (hlt : ∀ e ∈ es, e.addr < stop) : Linked (h.joinBehind it b.addr) stop (b.join es) := by
  unfold joinBehind
  rw [hit, hb, hend]
  cases es with
  | nil =>
    have hlink : Linked (h.setNext b.addr stop) stop [b] :=
      ⟨size_setNext.trans hb, next_setNext.trans (if_pos rfl), trivial⟩
    rw [if_neg (fun hc : first stop [] ≠ stop => hc rfl)]
    split <;> exact hlink
  | cons f es =>
    obtain ⟨hsize, hnext, htail⟩ := hl
    obtain ⟨hf, hes⟩ := List.forall_mem_cons.1 hne
    have hstop : f.addr ≠ stop := Nat.ne_of_lt (hlt f (List.mem_cons_self ..))
    rw [Extent.join]
    by_cases htouch : b.addr + b.size = f.addr
    · rw [if_pos (show b.addr + b.size = first stop (f :: es) from htouch),
        if_pos (show first stop (f :: es) ≠ stop from hstop),
        if_pos (show b.stop = f.addr from htouch)]
      refine ⟨?_, ?_, htail.congr fun e he => ?_⟩
      · rw [size_setNext, size_setSize, if_pos rfl]
        exact congrArg (b.size + ·) hsize
      · rw [next_setNext, if_pos rfl, next_setSize, next_setSize, hit]
        exact hnext
      · rw [mem_setNext (hes e he).symm, mem_setSize (hes e he).symm]
    · rw [if_neg (show b.addr + b.size ≠ first stop (f :: es) from htouch),
        if_neg (show b.stop ≠ f.addr from htouch)]
      refine ⟨?_, ?_, ?_⟩
      · rw [size_setNext, hb]
      · rw [next_setNext, if_pos rfl]
      · have hlinked : Linked h stop (f :: es) := ⟨hsize, hnext, htail⟩
        exact hlinked.congr fun e he => mem_setNext (hne e he).symm

theorem joinBehind_mem {it x : Nat} (hy : y ≠ x) : (h.joinBehind it x).mem y = h.mem y := by
  unfold joinBehind
  split_ifs
  · dsimp only
    rw [mem_setNext hy, mem_setSize hy]
  · exact mem_setNext hy
  · exact mem_setNext hy

/-- What putting a block behind another one needs: headers of their own for
the two and for the rest of the list. -/
structure Apart (stop : Nat) (p b : Extent) (es : List Extent) : Prop where
  ne : p.addr ≠ b.addr
  left : ∀ e ∈ es, p.addr ≠ e.addr
  right : ∀ e ∈ es, b.addr ≠ e.addr
  lt_stop : ∀ e ∈ es, e.addr < stop

/-- **One place.** Behind the iterator's block the new one is attached. -/
theorem insertBehind_linked (hend : h.pxEnd = stop) (hl : Linked h stop (p :: es))
    (hb : h.size b.addr = b.size) (ha : Apart stop p b es) :
    Linked (h.insertBehind p.addr b.addr) stop (p.attach b es) := by
  obtain ⟨hsize, hnext, htail⟩ := hl
  unfold insertBehind joinBefore
  rw [hsize, Extent.attach, hb]
  by_cases htouch : p.addr + p.size = b.addr
  · rw [if_pos htouch, if_pos (show p.stop = b.addr from htouch)]
    dsimp only
    rw [if_neg (fun hc => hc rfl)]
    refine joinBehind_linked (b := ⟨p.addr, p.size + b.size⟩) hend ?_ ?_ ?_ ha.left ha.lt_stop
    · rw [next_setSize]
      exact hnext
    · rw [size_setSize, if_pos rfl]
    · exact htail.congr fun e he => mem_setSize (ha.left e he).symm
  · rw [if_neg htouch, if_neg (show p.stop ≠ b.addr from htouch)]
    dsimp only
    rw [if_pos ha.ne]
    have hjoin : Linked (h.joinBehind p.addr b.addr) stop (b.join es) :=
      joinBehind_linked hend hnext hb htail ha.right ha.lt_stop
    refine ⟨?_, ?_, hjoin.congr fun e he => mem_setNext (addr_join ha.ne ha.left e he).symm⟩
    · rw [size_setNext]
      exact (congrArg BlockLink.xBlockSize (joinBehind_mem ha.ne)).trans hsize
    · rw [next_setNext, if_pos rfl, first_join]

/-- A change of two headers leaves the others. -/
theorem insertBehind_mem (hx : y ≠ x) (hv : y ≠ v) : (h.insertBehind x v).mem y = h.mem y := by
  unfold insertBehind joinBefore
  by_cases htouch : x + h.size x = v
  · rw [if_pos htouch]
    dsimp only
    rw [if_neg (fun hc => hc rfl), joinBehind_mem hx, mem_setSize hx]
  · rw [if_neg htouch]
    dsimp only
    split
    · rw [mem_setNext hx, joinBehind_mem hv]
    · exact joinBehind_mem hv

/-- **Putting a block in.** The loop ends at the place the new block
belongs, and the list has it in. -/
theorem insert_spec (hend : h.pxEnd = stop) (hl : Linked h stop (p :: es))
    (hb : h.size b.addr = b.size) (ha : Apart stop p b es) (hnd : (es.map Extent.addr).Nodup)
    (hlt : b.addr < stop) {fuel : Nat} (hfuel : es.length < fuel) :
    ∃ it, h.iterate b.addr fuel p.addr = some it ∧
      Linked (h.insertBehind it b.addr) stop (p.insertAfter b es) ∧
      ∀ y, y ≠ b.addr → (∀ e ∈ p :: es, y ≠ e.addr) →
        (h.insertBehind it b.addr).mem y = h.mem y := by
  obtain ⟨fuel, rfl⟩ : ∃ k, fuel = k + 1 := Nat.exists_eq_succ_of_ne_zero (by omega)
  have hnext := hl.2.1
  induction es generalizing p fuel with
  | nil =>
    refine ⟨p.addr, ?_, insertBehind_linked hend hl hb ha, fun y hy hes => ?_⟩
    · rw [iterate, hnext]
      exact if_neg (by rw [first]; omega)
    · exact insertBehind_mem (hes p (List.mem_cons_self ..)) hy
  | cons f es ih =>
    rw [iterate, hnext, Extent.insertAfter]
    by_cases hlt' : f.addr < b.addr
    · rw [if_pos (show first stop (f :: es) < b.addr from hlt'), if_pos hlt']
      have hnd' := List.nodup_cons.1 hnd
      obtain ⟨-, hleft⟩ := List.forall_mem_cons.1 ha.left
      obtain ⟨hfb, hright⟩ := List.forall_mem_cons.1 ha.right
      have ha' : Apart stop f b es :=
        ⟨hfb.symm, fun e he hc => hnd'.1 (hc ▸ List.mem_map_of_mem he), hright,
          fun e he => ha.lt_stop e (List.mem_cons_of_mem _ he)⟩
      rw [List.length_cons] at hfuel
      obtain ⟨k, rfl⟩ : ∃ k, fuel = k + 1 := Nat.exists_eq_succ_of_ne_zero (by omega)
      obtain ⟨it, hit, hlinked, hmem⟩ := ih hl.2.2 ha' hnd'.2 k (by omega) hl.2.2.2.1
      have hp := hmem p.addr ha.ne ha.left
      refine ⟨it, hit, ⟨?_, ?_, hlinked⟩, fun y hy hes => hmem y hy (List.forall_mem_cons.1 hes).2⟩
      · exact (congrArg BlockLink.xBlockSize hp).trans hl.1
      · rw [first_insertAfter]
        exact (congrArg BlockLink.pxNextFreeBlock hp).trans hnext
    · rw [if_neg (show ¬ first stop (f :: es) < b.addr from hlt'), if_neg hlt']
      exact ⟨p.addr, rfl, insertBehind_linked hend hl hb ha,
        fun y hy hes => insertBehind_mem (hes p (List.mem_cons_self ..)) hy⟩

/-! ### Taking a block out -/

/-- The last block of a list that begins with `p`. -/
def last (p : Extent) : List Extent → Extent
  | [] => p
  | e :: es => last e es

/-- **The search** ends at the first block that is large enough, or at the
end mark when there is none. -/
theorem findFit_spec {w : Nat} (hl : Linked h stop (p :: es)) (hnext : h.next stop = 0)
    (hpos : ∀ e ∈ es, e.addr ≠ 0) (hstop : stop ≠ 0) {fuel : Nat} (hfuel : es.length < fuel) :
    (h.findFit w fuel p.addr (h.next p.addr) = some ((last p es).addr, stop) ∧
      ∀ e ∈ es, e.size < w) ∨
    ∃ fs e gs, es = fs ++ e :: gs ∧ w ≤ e.size ∧ (∀ f ∈ fs, f.size < w) ∧
      h.findFit w fuel p.addr (h.next p.addr) = some ((last p fs).addr, e.addr) := by
  obtain ⟨fuel, rfl⟩ : ∃ k, fuel = k + 1 := Nat.exists_eq_succ_of_ne_zero (by omega)
  have hp := hl.2.1
  induction es generalizing p fuel with
  | nil =>
    refine .inl ⟨?_, fun e he => absurd he List.not_mem_nil⟩
    rw [findFit, hp]
    exact if_neg fun hc => hc.2 hnext
  | cons e es ih =>
    obtain ⟨-, -, hl'⟩ := hl
    obtain ⟨hepos, hpos'⟩ := List.forall_mem_cons.1 hpos
    have hfirst : first stop (e :: es) = e.addr := rfl
    rw [findFit, hp, hfirst]
    by_cases hlt : e.size < w
    · have hne : h.next e.addr ≠ 0 := by
        rw [hl'.2.1]
        cases es with
        | nil => exact hstop
        | cons f es => exact (List.forall_mem_cons.1 hpos').1
      rw [hl'.1, if_pos ⟨hlt, hne⟩]
      rw [List.length_cons] at hfuel
      obtain ⟨k, rfl⟩ : ∃ k, fuel = k + 1 := Nat.exists_eq_succ_of_ne_zero (by omega)
      rcases ih hl' hpos' k (by omega) hl'.2.1 with
        ⟨hfind, hall⟩ | ⟨fs, b, gs, hsplit, hfit, hall, hfind⟩
      · exact .inl ⟨hfind, List.forall_mem_cons.2 ⟨hlt, hall⟩⟩
      · exact .inr ⟨e :: fs, b, gs, congrArg (e :: ·) hsplit, hfit,
          List.forall_mem_cons.2 ⟨hlt, hall⟩, hfind⟩
    · rw [hl'.1, if_neg fun hc => hlt hc.1]
      exact .inr ⟨[], e, es, rfl, Nat.le_of_not_lt hlt, fun f hf => absurd hf List.not_mem_nil,
        rfl⟩

/-- The last block before another one links to it. -/
theorem next_last {fs gs : List Extent} (hl : Linked h stop (p :: (fs ++ e :: gs))) :
    h.next (last p fs).addr = e.addr := by
  induction fs generalizing p with
  | nil => exact hl.2.1
  | cons f fs ih => exact ih hl.2.2

theorem last_mem (p : Extent) (es : List Extent) : last p es ∈ p :: es := by
  induction es generalizing p with
  | nil => exact List.mem_cons_self ..
  | cons e es ih => exact List.mem_cons_of_mem _ (ih e)

/-- A block out of the list: the one before it is linked to the one behind
it. -/
theorem unlink {fs gs : List Extent} (hl : Linked h stop (p :: (fs ++ e :: gs)))
    (hnd : ((p :: (fs ++ e :: gs)).map Extent.addr).Nodup) :
    Linked (h.setNext (last p fs).addr (h.next e.addr)) stop (p :: (fs ++ gs)) := by
  induction fs generalizing p with
  | nil =>
    obtain ⟨hsize, hnext, hsize', hnext', htail⟩ := hl
    refine ⟨size_setNext.trans hsize, ?_, htail.congr fun g hg => mem_setNext fun hc => ?_⟩
    · rw [last, next_setNext, if_pos rfl, hnext']
      rfl
    · refine (List.nodup_cons.1 hnd).1 ?_
      exact List.mem_cons_of_mem _ (hc ▸ List.mem_map_of_mem hg)
  | cons f fs ih =>
    obtain ⟨hsize, hnext, htail⟩ := hl
    obtain ⟨hp, hnd'⟩ := List.nodup_cons.1 hnd
    have hne : p.addr ≠ (last f fs).addr := by
      intro hc
      refine hp (hc ▸ List.mem_map_of_mem ?_)
      exact List.mem_append_left _ (last_mem f fs)
    refine ⟨size_setNext.trans hsize, ?_, ih htail hnd'⟩
    rw [last, next_setNext, if_neg hne, hnext]
    rfl

end RtosHeap

end BusMonitor
