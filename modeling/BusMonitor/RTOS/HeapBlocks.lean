import BusMonitor.RTOS.Heap
import Mathlib.Data.Nat.Bitwise
/-!
# The blocks of the heap

The free blocks and the blocks in use tile the heap: every address of it
lies in exactly one of them. `Represents` says so of the headers in memory,
and the two operations are followed through it: `malloc_spec` takes a block
from a free one, `free_spec` puts one in. The list of the free blocks is
the canonical one of the addresses not in use.
-/


namespace BusMonitor

open Extent

/-! ## The bit of a block in use -/

def blockAllocatedBit : Nat := 2 ^ 31

section Bit

variable {n : Nat}

theorem and_allocatedBit (h : n < 2 ^ 32) : n &&& blockAllocatedBit = 0 ↔ n < 2 ^ 31 := by
  unfold blockAllocatedBit
  rw [Nat.and_two_pow, Nat.testBit_eq_decide_div_mod_eq]
  rcases Nat.lt_or_ge n (2 ^ 31) with hlt | hge
  · rw [Nat.div_eq_of_lt hlt]
    simp
    omega
  · have hdiv : n / 2 ^ 31 = 1 := by omega
    rw [hdiv]
    simp
    omega

theorem or_allocatedBit (h : n < 2 ^ 31) : n ||| blockAllocatedBit = n + blockAllocatedBit := by
  have hor := Nat.two_pow_add_eq_or_of_lt h 1
  rw [Nat.mul_one] at hor
  rw [Nat.or_comm, Nat.add_comm]
  exact hor.symm

theorem marked (h : n < 2 ^ 31) : (n ||| blockAllocatedBit) &&& blockAllocatedBit ≠ 0 := by
  rw [or_allocatedBit h, Ne, and_allocatedBit (by unfold blockAllocatedBit; omega)]
  unfold blockAllocatedBit
  omega

theorem unmark (h : n < 2 ^ 31) :
    (n ||| blockAllocatedBit) &&& (2 ^ 32 - 1 - blockAllocatedBit) = n := by
  have hmask : 2 ^ 32 - 1 - blockAllocatedBit = 2 ^ 31 - 1 := rfl
  rw [hmask, Nat.and_two_pow_sub_one_eq_mod, or_allocatedBit h, blockAllocatedBit,
    Nat.add_mod_right, Nat.mod_eq_of_lt h]

end Bit

/-! ## The place -/

namespace HeapPlace

variable (pl : HeapPlace)

/-- `pucAlignedHeap`. -/
def base : Nat := if pl.ucHeap % portByteAlignment ≠ 0 then
  (pl.ucHeap + (portByteAlignment - 1)) / portByteAlignment * portByteAlignment else pl.ucHeap

/-- The address `pxEnd` gets. -/
def top : Nat := (pl.base + (configTotalHeapSize - (pl.base - pl.ucHeap)) - xHeapStructSize) /
  portByteAlignment * portByteAlignment

theorem base_bounds : 8 ∣ pl.base ∧ pl.ucHeap ≤ pl.base ∧ pl.base ≤ pl.ucHeap + 7 := by
  unfold base portByteAlignment
  split <;> omega

theorem top_bounds : 8 ∣ pl.top ∧ pl.base + 30000 ≤ pl.top ∧
    pl.top + 8 ≤ pl.ucHeap + configTotalHeapSize := by
  obtain ⟨h8, hle, hle'⟩ := pl.base_bounds
  unfold top configTotalHeapSize xHeapStructSize portByteAlignment
  omega

end HeapPlace

namespace RtosHeap

variable {pl : HeapPlace} {h : RtosHeap} {F U : List Extent} {b : Extent}

/-- The free blocks `F` and the blocks in use `U` are all there is between
the ends of the heap, the free ones in the form of the list. -/
structure Tiles (pl : HeapPlace) (F U : List Extent) : Prop where
  separated : SeparatedFrom pl.base F
  covers : ∀ x, cover F x + cover U x = if pl.base ≤ x ∧ x < pl.top then 1 else 0
  free_aligned : Aligned 8 F
  used_aligned : Aligned 8 U
  used_pos : ∀ e ∈ U, 0 < e.size
  totals : total F + total U = pl.top - pl.base

/-- The headers in memory hold them. -/
structure Represents (pl : HeapPlace) (h : RtosHeap) (F U : List Extent) : Prop
    extends Tiles pl F U where
  pxEnd : h.pxEnd = pl.top
  bit : h.xBlockAllocatedBit = blockAllocatedBit
  end_mem : h.mem pl.top = ⟨0, 0⟩
  linked : h.Linked pl.top (⟨pl.xStart, 0⟩ :: F)
  used : ∀ e ∈ U, h.mem e.addr = ⟨0, e.size ||| blockAllocatedBit⟩
  remaining : h.xFreeBytesRemaining = total F

/-- The order of the blocks in use does not matter. -/
theorem Represents.perm {U' : List Extent} (hr : Represents pl h F U) (hp : U.Perm U') :
    Represents pl h F U' where
  separated := hr.separated
  covers x := by rw [← cover_perm hp, hr.covers]
  free_aligned := hr.free_aligned
  used_aligned e he := hr.used_aligned e (hp.mem_iff.2 he)
  used_pos e he := hr.used_pos e (hp.mem_iff.2 he)
  totals := by rw [← total_perm hp, hr.totals]
  pxEnd := hr.pxEnd
  bit := hr.bit
  end_mem := hr.end_mem
  linked := hr.linked
  used e he := hr.used e (hp.mem_iff.2 he)
  remaining := hr.remaining

namespace Tiles

/-- What is covered lies in the heap. -/
theorem bounds_of_holds (ht : Tiles pl F U) {x : Nat} (hx : 0 < cover F x + cover U x) :
    pl.base ≤ x ∧ x < pl.top := by
  rw [ht.covers] at hx
  by_contra hc
  rw [if_neg hc] at hx
  exact absurd hx (lt_irrefl 0)

/-- A block lies in the heap. -/
theorem block_bounds (ht : Tiles pl F U) (hb : b ∈ F ∨ b ∈ U) (hpos : 0 < b.size) :
    pl.base ≤ b.addr ∧ b.stop ≤ pl.top := by
  have hstop : b.stop = b.addr + b.size := rfl
  have hin : ∀ x, b.addr ≤ x → x < b.stop → pl.base ≤ x ∧ x < pl.top := by
    intro x hx hx'
    have hone : b.holds x = 1 := holds_eq_one.2 ⟨hx, hx'⟩
    refine ht.bounds_of_holds ?_
    rcases hb with hb | hb
    · have hle := holds_le_cover hb x
      omega
    · have hle := holds_le_cover hb x
      omega
  have hfirst := hin b.addr le_rfl (by omega)
  have hlast := hin (b.stop - 1) (by omega) (by omega)
  omega

theorem free_bounds (ht : Tiles pl F U) (hb : b ∈ F) : pl.base ≤ b.addr ∧ b.stop ≤ pl.top :=
  ht.block_bounds (.inl hb) (ht.separated.size_pos hb)

theorem used_bounds (ht : Tiles pl F U) (hb : b ∈ U) : pl.base ≤ b.addr ∧ b.stop ≤ pl.top :=
  ht.block_bounds (.inr hb) (ht.used_pos b hb)

/-- An address of a block in use is in no free one. -/
theorem cover_free_of_used (ht : Tiles pl F U) (hb : b ∈ U) {x : Nat}
    (hx : b.addr ≤ x ∧ x < b.stop) : cover F x = 0 := by
  have hone : b.holds x = 1 := holds_eq_one.2 hx
  have hle := holds_le_cover hb x
  have hcov := ht.covers x
  split at hcov <;> omega

theorem addr_ne_zero (ht : Tiles pl F U) (hb : b ∈ F) : b.addr ≠ 0 := by
  have hle := (ht.free_bounds hb).1
  have hbase := pl.base_bounds
  have hpos := pl.ucHeap_pos
  omega

theorem top_ne (ht : Tiles pl F U) (hb : b ∈ F) : pl.top ≠ b.addr := by
  have hpos := ht.separated.size_pos hb
  have hle := (ht.free_bounds hb).2
  have hstop : b.stop = b.addr + b.size := rfl
  omega

/-- The free blocks are fewer than the loops have steps. -/
theorem length_lt (ht : Tiles pl F U) : F.length < heapFuel := by
  have hlen := ht.separated.length_le (by have := pl.top_bounds; omega)
    fun e he => (ht.free_bounds he).2
  obtain ⟨-, hle, -⟩ := pl.base_bounds
  obtain ⟨-, hlt, htop⟩ := pl.top_bounds
  unfold heapFuel
  omega

theorem xStart_ne (ht : Tiles pl F U) (hb : b ∈ F ∨ b ∈ U) (hpos : 0 < b.size) :
    pl.xStart ≠ b.addr := by
  obtain ⟨hlo, hhi⟩ := ht.block_bounds hb hpos
  obtain ⟨-, hle, -⟩ := pl.base_bounds
  obtain ⟨-, -, htop⟩ := pl.top_bounds
  have hapart := pl.xStart_apart
  have hstop : b.stop = b.addr + b.size := rfl
  omega

/-- A size is far from the bit. -/
theorem size_lt (ht : Tiles pl F U) (hb : b ∈ F ∨ b ∈ U) (hpos : 0 < b.size) :
    b.size < 2 ^ 31 := by
  obtain ⟨hlo, hhi⟩ := ht.block_bounds hb hpos
  obtain ⟨-, hle, -⟩ := pl.base_bounds
  obtain ⟨-, -, htop⟩ := pl.top_bounds
  have hstop : b.stop = b.addr + b.size := rfl
  have hsize : configTotalHeapSize = 30720 := rfl
  omega

end Tiles

/-! ## Putting a block in -/

/-- Putting in changes the memory only. -/
theorem insertBehind_eq (h : RtosHeap) (x v : Nat) :
    h.insertBehind x v = { h with mem := (h.insertBehind x v).mem } := by
  unfold insertBehind joinBefore
  split_ifs <;> dsimp only <;> unfold joinBehind <;> split_ifs <;> rfl

/-- A place in the heap for a block outside of the free ones. -/
structure Room (pl : HeapPlace) (F : List Extent) (b : Extent) : Prop where
  pos : 0 < b.size
  base_le : pl.base ≤ b.addr
  le_top : b.stop ≤ pl.top
  outside : b.Outside F

theorem Room.xStart_ne (hb : Room pl F b) : pl.xStart ≠ b.addr := by
  have hlo := hb.base_le
  have hhi := hb.le_top
  have hpos := hb.pos
  obtain ⟨-, hle, -⟩ := pl.base_bounds
  obtain ⟨-, -, htop⟩ := pl.top_bounds
  have hapart := pl.xStart_apart
  have hstop : b.stop = b.addr + b.size := rfl
  omega

/-- The free blocks have other headers. -/
theorem Room.free_ne {lo : Nat} (hb : Room pl F b) (hsep : SeparatedFrom lo F) {e : Extent}
    (he : e ∈ F) : e.addr ≠ b.addr := by
  intro hc
  have hpos := hsep.size_pos he
  have hbpos := hb.pos
  have hestop : e.stop = e.addr + e.size := rfl
  have hbstop : b.stop = b.addr + b.size := rfl
  rcases hb.outside e he with hout | hout <;> omega

theorem Room.ne_top (hb : Room pl F b) : pl.top ≠ b.addr := by
  have hhi := hb.le_top
  have hpos := hb.pos
  have hstop : b.stop = b.addr + b.size := rfl
  omega

theorem top_ne_xStart (pl : HeapPlace) : pl.top ≠ pl.xStart := by
  obtain ⟨-, hle, -⟩ := pl.base_bounds
  obtain ⟨-, hlt, htop⟩ := pl.top_bounds
  have hapart := pl.xStart_apart
  omega

/-- **Putting in** a block the list has room for. -/
theorem prvInsert_spec (hend : h.pxEnd = pl.top) (hl : h.Linked pl.top (⟨pl.xStart, 0⟩ :: F))
    (hsep : SeparatedFrom pl.base F) (htop : ∀ e ∈ F, e.stop ≤ pl.top) (hb : Room pl F b)
    (hsize : h.size b.addr = b.size) :
    ∃ m, prvInsertBlockIntoFreeList pl h b.addr = some { h with mem := m } ∧
      Linked { h with mem := m } pl.top (⟨pl.xStart, 0⟩ :: b.insert F) ∧
      ∀ y, y ≠ b.addr → y ≠ pl.xStart → (∀ e ∈ F, y ≠ e.addr) → m y = h.mem y := by
  obtain ⟨-, hle, -⟩ := pl.base_bounds
  obtain ⟨-, hlt, htop'⟩ := pl.top_bounds
  have hstop : b.stop = b.addr + b.size := rfl
  have hroom : ∀ e ∈ F, Room pl [] e := fun e he =>
    ⟨hsep.size_pos he, hsep.le_addr he, htop e he, fun _ hc => absurd hc List.not_mem_nil⟩
  have hbtop := hb.le_top
  have hbpos := hb.pos
  have hapart : Apart pl.top ⟨pl.xStart, 0⟩ b F := by
    refine ⟨hb.xStart_ne, fun e he => (hroom e he).xStart_ne,
      fun e he => (hb.free_ne hsep he).symm, fun e he => ?_⟩
    · have hpos := (hroom e he).pos
      have hstop' : e.stop = e.addr + e.size := rfl
      have hle' := htop e he
      omega
  have hlen : F.length < heapFuel := by
    have hlen := hsep.length_le (by omega) htop
    unfold heapFuel
    omega
  obtain ⟨it, hit, hlinked, hmem⟩ :=
    insert_spec hend hl hsize hapart hsep.nodup (by omega) hlen
  have hne : (⟨pl.xStart, 0⟩ : Extent).stop ≠ b.addr := hb.xStart_ne
  refine ⟨(h.insertBehind it b.addr).mem, ?_, ?_, fun y hy hx he => hmem y hy ?_⟩
  · rw [prvInsertBlockIntoFreeList, hit, ← insertBehind_eq]
    rfl
  · rw [← insertBehind_eq, ← insertAfter_of_ne hne]
    exact hlinked
  · exact List.forall_mem_cons.2 ⟨hx, he⟩

/-- The contents of the blocks in use are as they were, headers and all. -/
def Keeps (U : List Extent) (h' h : RtosHeap) : Prop :=
  ∀ u ∈ U, ∀ y, u.addr ≤ y → y < u.stop → h'.mem y = h.mem y

/-- An address of a block in use is in no other block, and no header of
one. -/
theorem Tiles.not_header (ht : Tiles pl F (b :: U)) {u : Extent} (hu : u ∈ U) {y : Nat}
    (hy : u.addr ≤ y) (hy' : y < u.stop) :
    ¬ (b.addr ≤ y ∧ y < b.stop) ∧ y ≠ pl.xStart ∧ ∀ e ∈ F, y ≠ e.addr := by
  have hcov := ht.covers y
  have hone : u.holds y = 1 := holds_eq_one.2 ⟨hy, hy'⟩
  have hle := holds_le_cover hu y
  rw [cover_cons] at hcov
  have hbound := ht.bounds_of_holds (x := y) (by rw [cover_cons]; omega)
  rw [if_pos hbound] at hcov
  obtain ⟨-, hlo, -⟩ := pl.base_bounds
  obtain ⟨-, -, htop⟩ := pl.top_bounds
  have hapart := pl.xStart_apart
  refine ⟨fun hc => ?_, by omega, fun e he hc => ?_⟩
  · have hzero : b.holds y = 0 := by omega
    exact holds_eq_zero.1 hzero hc
  · have hpos := ht.separated.size_pos he
    have hle' := holds_le_cover he y
    have hstop : e.stop = e.addr + e.size := rfl
    have hzero : e.holds y = 0 := by omega
    exact holds_eq_zero.1 hzero (by omega)

/-- The blocks in use are disjoint. -/
theorem Tiles.pairwise (ht : Tiles pl F U) : U.Pairwise Extent.Disjoint := by
  refine pairwise_disjoint (fun x => ?_) ht.used_pos
  have hcov := ht.covers x
  split at hcov <;> omega

/-- A free block and one in use are disjoint. -/
theorem Tiles.disjoint (ht : Tiles pl F U) {e : Extent} (he : e ∈ F) (hb : b ∈ U) :
    e.Disjoint b := by
  by_contra hc
  obtain ⟨x, hex, hbx⟩ := exists_common (ht.separated.size_pos he) (ht.used_pos b hb) hc
  have hzero := ht.cover_free_of_used hb (holds_eq_one.1 hbx)
  have hone := holds_le_cover he x
  omega

/-- A block in use is outside of the free ones. -/
theorem Tiles.room (ht : Tiles pl F (b :: U)) : Room pl F b := by
  have hmem : b ∈ b :: U := List.mem_cons_self ..
  obtain ⟨hlo, hhi⟩ := ht.used_bounds hmem
  exact ⟨ht.used_pos b hmem, hlo, hhi, fun e he => ht.disjoint he hmem⟩

theorem Tiles.free_ne (ht : Tiles pl F (b :: U)) {e : Extent} (he : e ∈ F) : e.addr ≠ b.addr :=
  ht.room.free_ne ht.separated he

theorem Tiles.used_ne (ht : Tiles pl F (b :: U)) {u : Extent} (hu : u ∈ U) : u.addr ≠ b.addr := by
  have hpos := ht.used_pos u (List.mem_cons_of_mem b hu)
  intro hc
  refine (ht.not_header hu le_rfl (Nat.lt_add_of_pos_right hpos)).1 ⟨Nat.le_of_eq hc.symm, ?_⟩
  rw [hc]
  exact Nat.lt_add_of_pos_right ht.room.pos

/-- **Freeing** a block in use returns, and puts the block in. -/
theorem free_spec (hr : Represents pl h F (b :: U)) :
    ∃ h', vPortFree pl h (b.addr + xHeapStructSize) = some h' ∧
      Represents pl h' (b.insert F) U ∧ Keeps U h' h ∧
      h'.xMinimumEverFreeBytesRemaining = h.xMinimumEverFreeBytesRemaining := by
  have hmem : b ∈ b :: U := List.mem_cons_self ..
  have hroom := hr.room
  have hlt := hr.size_lt (.inr hmem) hroom.pos
  have hhead : h.mem b.addr = ⟨0, b.size ||| blockAllocatedBit⟩ := hr.used b hmem
  have hsize : h.size b.addr = b.size ||| blockAllocatedBit := congrArg BlockLink.xBlockSize hhead
  have hnext : h.next b.addr = 0 := congrArg BlockLink.pxNextFreeBlock hhead
  -- the heap when the block is put in
  let h₁ : RtosHeap := { h.setSize b.addr b.size with
    xFreeBytesRemaining := h.xFreeBytesRemaining + b.size }
  have hmem₁ : ∀ y, y ≠ b.addr → h₁.mem y = h.mem y := fun y hy => mem_setSize hy
  have hlinked₁ : h₁.Linked pl.top (⟨pl.xStart, 0⟩ :: F) := by
    refine hr.linked.congr (List.forall_mem_cons.2 ⟨?_, fun e he => hmem₁ _ (hr.free_ne he)⟩)
    exact hmem₁ _ hroom.xStart_ne
  have hsize₁ : h₁.size b.addr = b.size := size_setSize.trans (if_pos rfl)
  obtain ⟨m, hins, hlinked, hframe⟩ := prvInsert_spec (h := h₁) hr.pxEnd hlinked₁ hr.separated
    (fun e he => (hr.free_bounds he).2) hroom hsize₁
  have hkeep : ∀ u ∈ U, ∀ y, u.addr ≤ y → y < u.stop → m y = h.mem y := by
    intro u hu y hy hy'
    obtain ⟨hb, hx, hF⟩ := hr.not_header hu hy hy'
    have hne : y ≠ b.addr := fun hc =>
      hb ⟨Nat.le_of_eq hc.symm, hc ▸ Nat.lt_add_of_pos_right hroom.pos⟩
    rw [hframe y hne hx hF, hmem₁ y hne]
  refine ⟨{ h₁ with mem := m }, ?_, ?_, hkeep, rfl⟩
  · have hsub : b.addr + xHeapStructSize - xHeapStructSize = b.addr := Nat.add_sub_cancel ..
    have hpv : b.addr + xHeapStructSize ≠ 0 := Nat.succ_ne_zero _
    rw [vPortFree, if_pos hpv]
    dsimp only
    rw [hsub, hsize, hnext, hr.bit, unmark hlt]
    rw [show (h.setSize b.addr b.size).size b.addr = b.size from hsize₁]
    unfold assert
    rw [if_pos (marked hlt), if_pos rfl]
    exact hins
  · refine ⟨⟨?_, fun x => ?_, ?_, ?_, ?_, ?_⟩, hr.pxEnd, hr.bit, ?_, hlinked, fun u hu => ?_, ?_⟩
    · exact hr.separated.insert hroom.base_le hroom.pos hroom.outside
    · rw [cover_insert, ← hr.covers x, cover_cons]
      omega
    · exact hr.free_aligned.insert (hr.used_aligned b hmem)
    · exact (aligned_cons.1 hr.used_aligned).2
    · exact fun u hu => hr.used_pos u (List.mem_cons_of_mem b hu)
    · rw [total_insert, ← hr.totals, total_cons]
      omega
    · have htop := hframe pl.top hroom.ne_top (top_ne_xStart pl) fun e he => hr.top_ne he
      exact (htop.trans (hmem₁ _ hroom.ne_top)).trans hr.end_mem
    · have hu' := List.mem_cons_of_mem b hu
      have hpos := hr.used_pos u hu'
      exact (hkeep u hu u.addr le_rfl (Nat.lt_add_of_pos_right hpos)).trans (hr.used u hu')
    · rw [total_insert, ← hr.remaining]
      exact Nat.add_comm _ _

/-! ## Taking a block out -/

/-- A block out of the list that is not handed out yet. -/
structure Taken (pl : HeapPlace) (h : RtosHeap) (b : Extent) (F U : List Extent) : Prop
    extends Tiles pl F (b :: U) where
  pxEnd : h.pxEnd = pl.top
  bit : h.xBlockAllocatedBit = blockAllocatedBit
  end_mem : h.mem pl.top = ⟨0, 0⟩
  linked : h.Linked pl.top (⟨pl.xStart, 0⟩ :: F)
  used : ∀ e ∈ U, h.mem e.addr = ⟨0, e.size ||| blockAllocatedBit⟩
  remaining : h.xFreeBytesRemaining = total F + b.size
  size : h.size b.addr = b.size

/-- Handing out in one step. -/
theorem handOut_eq (h : RtosHeap) (x : Nat) : h.handOut x =
    { mem := fun y => if y = x then ⟨0, h.size x ||| h.xBlockAllocatedBit⟩ else h.mem y
      pxEnd := h.pxEnd
      xFreeBytesRemaining := h.xFreeBytesRemaining - h.size x
      xMinimumEverFreeBytesRemaining :=
        min h.xMinimumEverFreeBytesRemaining (h.xFreeBytesRemaining - h.size x)
      xBlockAllocatedBit := h.xBlockAllocatedBit } := by
  have hmem : ∀ y, (if y = x then (⟨0, (if x = x then
      (⟨(h.mem x).pxNextFreeBlock, h.size x ||| h.xBlockAllocatedBit⟩ : BlockLink)
      else h.mem x).xBlockSize⟩ : BlockLink) else if y = x then
        ⟨(h.mem x).pxNextFreeBlock, h.size x ||| h.xBlockAllocatedBit⟩ else h.mem y) =
        if y = x then ⟨0, h.size x ||| h.xBlockAllocatedBit⟩ else h.mem y := by
    intro y
    by_cases hy : y = x <;> simp [hy]
  unfold handOut setNext setSize
  dsimp only
  by_cases hlt : h.xFreeBytesRemaining - h.size x < h.xMinimumEverFreeBytesRemaining
  · rw [if_pos hlt, Nat.min_eq_right (Nat.le_of_lt hlt)]
    exact congrArg (fun m => RtosHeap.mk m _ _ _ _) (funext hmem)
  · rw [if_neg hlt, Nat.min_eq_left (Nat.le_of_not_lt hlt)]
    exact congrArg (fun m => RtosHeap.mk m _ _ _ _) (funext hmem)

theorem handOut_mem {x y : Nat} (hy : y ≠ x) : (h.handOut x).mem y = h.mem y := by
  rw [handOut_eq]
  exact if_neg hy

/-- **Handing out** makes it a block in use. -/
theorem Taken.handOut (ht : Taken pl h b F U) : Represents pl (h.handOut b.addr) F (b :: U) := by
  have hroom := ht.room
  refine ⟨ht.toTiles, ?_, ?_, ?_, ht.linked.congr ?_, List.forall_mem_cons.2 ⟨?_, ?_⟩, ?_⟩
  · rw [handOut_eq]
    exact ht.pxEnd
  · rw [handOut_eq]
    exact ht.bit
  · exact (handOut_mem hroom.ne_top).trans ht.end_mem
  · exact List.forall_mem_cons.2 ⟨handOut_mem hroom.xStart_ne,
      fun e he => handOut_mem (ht.free_ne he)⟩
  · rw [handOut_eq, ht.size, ht.bit]
    exact if_pos rfl
  · intro u hu
    exact (handOut_mem (ht.used_ne hu)).trans (ht.used u hu)
  · rw [handOut_eq, ht.size, ht.remaining]
    exact Nat.add_sub_cancel ..

/-- The rest of a block, behind its first `w` bytes. -/
def rest (b : Extent) (w : Nat) : Extent := ⟨b.addr + w, b.size - w⟩

theorem rest_stop {w : Nat} (hle : w ≤ b.size) : (rest b w).stop = b.stop := by
  unfold rest stop
  dsimp only
  omega

theorem Tiles.room_rest {w : Nat} (hlt : w < b.size) (ht : Tiles pl F (b :: U)) :
    Room pl F (rest b w) where
  pos := Nat.sub_pos_of_lt hlt
  base_le := ht.room.base_le.trans (Nat.le_add_right _ _)
  le_top := rest_stop hlt.le ▸ ht.room.le_top
  outside := ht.room.outside.mono (Nat.le_add_right _ _) (rest_stop hlt.le).le

/-- A block in use may give its rest back. -/
theorem Tiles.split {w : Nat} (hw : 0 < w) (h8 : 8 ∣ w) (hlt : w < b.size)
    (ht : Tiles pl F (b :: U)) : Tiles pl ((rest b w).insert F) (⟨b.addr, w⟩ :: U) := by
  have hroom := ht.room_rest hlt
  obtain ⟨⟨haddr, hsize⟩, haligned⟩ := aligned_cons.1 ht.used_aligned
  obtain ⟨-, hpos⟩ := List.forall_mem_cons.1 ht.used_pos
  refine ⟨ht.separated.insert hroom.base_le hroom.pos hroom.outside, fun x => ?_, ?_, ?_, ?_, ?_⟩
  · have hjoin := holds_join (e := ⟨b.addr, w⟩) (f := rest b w) rfl x
    have hb : (⟨b.addr, w + (b.size - w)⟩ : Extent) = b := by
      rw [Nat.add_sub_cancel' hlt.le]
    have hcov := ht.covers x
    rw [show (rest b w).size = b.size - w from rfl, hb] at hjoin
    rw [cover_cons, hjoin] at hcov
    rw [cover_insert, cover_cons, ← hcov]
    omega
  · exact ht.free_aligned.insert ⟨Nat.dvd_add haddr h8, Nat.dvd_sub hsize h8⟩
  · exact aligned_cons.2 ⟨⟨haddr, h8⟩, haligned⟩
  · exact List.forall_mem_cons.2 ⟨hw, hpos⟩
  · have hsum := ht.totals
    rw [total_cons] at hsum
    rw [total_insert, total_cons, ← hsum]
    change b.size - w + total F + (w + total U) = _
    omega

/-- **Splitting** leaves a block of the wanted size, or the whole block
when it is hardly larger. -/
theorem splitBlock_spec {w : Nat} (hw : 0 < w) (h8 : 8 ∣ w) (hle : w ≤ b.size)
    (ht : Taken pl h b F U) :
    ∃ h' b' F', splitBlock pl h w b.addr = some h' ∧ b'.addr = b.addr ∧ w ≤ b'.size ∧
      Taken pl h' b' F' U ∧ Keeps U h' h ∧
      h'.xMinimumEverFreeBytesRemaining = h.xMinimumEverFreeBytesRemaining := by
  unfold splitBlock
  rw [ht.size]
  -- a rest of two headers or less stays with the block
  by_cases hsplit : b.size - w > heapMinimumBlockSize
  · have hlt : w < b.size := Nat.lt_of_sub_pos (Nat.lt_of_le_of_lt (Nat.zero_le _) hsplit)
    have hroom := ht.room
    have hroom' := ht.room_rest hlt
    have hne : b.addr ≠ (rest b w).addr := Nat.ne_of_lt (Nat.lt_add_of_pos_right hw)
    -- the two sizes are set, and the rest is put in
    let h₁ : RtosHeap := (h.setSize (rest b w).addr (rest b w).size).setSize b.addr w
    have hmem₁ : ∀ y, y ≠ b.addr → y ≠ (rest b w).addr → h₁.mem y = h.mem y := fun y hb hr =>
      (mem_setSize hb).trans (mem_setSize hr)
    have hlinked₁ : h₁.Linked pl.top (⟨pl.xStart, 0⟩ :: F) := by
      refine ht.linked.congr (List.forall_mem_cons.2 ⟨?_, fun e he => ?_⟩)
      · exact hmem₁ _ hroom.xStart_ne hroom'.xStart_ne
      · exact hmem₁ _ (ht.free_ne he) (hroom'.free_ne ht.separated he)
    have hsize₁ : h₁.size (rest b w).addr = (rest b w).size := by
      simp only [h₁, size_setSize, if_neg hne.symm, if_true]
    obtain ⟨m, hins, hlinked, hframe⟩ := prvInsert_spec (h := h₁) ht.pxEnd hlinked₁ ht.separated
      (fun e he => (ht.free_bounds he).2) hroom' hsize₁
    have hkeep : ∀ u ∈ U, ∀ y, u.addr ≤ y → y < u.stop → m y = h.mem y := by
      intro u hu y hy hy'
      obtain ⟨hb, hx, hF⟩ := ht.not_header hu hy hy'
      have hbstop : b.stop = b.addr + b.size := rfl
      have hraddr : (rest b w).addr = b.addr + w := rfl
      rw [hframe y (by omega) hx hF, hmem₁ y (by omega) (by omega)]
    rw [if_pos hsplit]
    refine ⟨{ h₁ with mem := m }, ⟨b.addr, w⟩, (rest b w).insert F, ?_, rfl, le_rfl, ?_, hkeep,
      rfl⟩
    · have h8' : (rest b w).addr % portByteAlignment = 0 :=
        Nat.mod_eq_zero_of_dvd (Nat.dvd_add (ht.used_aligned b (List.mem_cons_self ..)).1 h8)
      unfold assert
      exact (congrArg (· >>= _) (if_pos h8')).trans hins
    · refine ⟨ht.split hw h8 hlt, ht.pxEnd, ht.bit, ?_, hlinked, fun u hu => ?_, ?_, ?_⟩
      · have htop := hframe pl.top hroom'.ne_top (top_ne_xStart pl) fun e he => ht.top_ne he
        exact (htop.trans (hmem₁ _ hroom.ne_top hroom'.ne_top)).trans ht.end_mem
      · have hpos := ht.used_pos u (List.mem_cons_of_mem b hu)
        exact (hkeep u hu u.addr le_rfl (Nat.lt_add_of_pos_right hpos)).trans (ht.used u hu)
      · have hrest : (rest b w).size = b.size - w := rfl
        rw [total_insert, hrest]
        change h.xFreeBytesRemaining = b.size - w + total F + w
        rw [ht.remaining]
        omega
      · have hb := hframe b.addr hne hroom.xStart_ne.symm fun e he => (ht.free_ne he).symm
        change (m b.addr).xBlockSize = w
        rw [hb]
        exact size_setSize.trans (if_pos rfl)
  · rw [if_neg hsplit]
    exact ⟨h, b, F, rfl, rfl, hle, ht, fun _ _ _ _ _ => rfl, rfl⟩

/-! ## The two functions -/

/-- A free block as one in use. -/
theorem Tiles.take {F₁ F₂ : List Extent} {e : Extent} (ht : Tiles pl (F₁ ++ e :: F₂) U) :
    Tiles pl (F₁ ++ F₂) (e :: U) := by
  have hmem : e ∈ F₁ ++ e :: F₂ := List.mem_append_right _ (List.mem_cons_self ..)
  obtain ⟨hal₁, hal₂⟩ := aligned_append.1 ht.free_aligned
  refine ⟨ht.separated.remove, fun x => ?_, aligned_append.2 ⟨hal₁, (aligned_cons.1 hal₂).2⟩,
    aligned_cons.2 ⟨ht.free_aligned e hmem, ht.used_aligned⟩,
    List.forall_mem_cons.2 ⟨ht.separated.size_pos hmem, ht.used_pos⟩, ?_⟩
  · rw [← ht.covers x, cover_append, cover_append, cover_cons, cover_cons]
    omega
  · rw [← ht.totals, total_append, total_append, total_cons, total_cons]
    omega

/-- A free block taken out of the list. -/
theorem Represents.take {F₁ F₂ : List Extent} {e : Extent}
    (hr : Represents pl h (F₁ ++ e :: F₂) U) :
    Taken pl (h.setNext (last ⟨pl.xStart, 0⟩ F₁).addr (h.next e.addr)) e (F₁ ++ F₂) U ∧
    Keeps U (h.setNext (last ⟨pl.xStart, 0⟩ F₁).addr (h.next e.addr)) h := by
  have ht := hr.toTiles.take
  have hmem : e ∈ F₁ ++ e :: F₂ := List.mem_append_right _ (List.mem_cons_self ..)
  have hnd : ((⟨pl.xStart, 0⟩ :: (F₁ ++ e :: F₂)).map addr).Nodup := by
    refine List.nodup_cons.2 ⟨fun hc => ?_, hr.separated.nodup⟩
    obtain ⟨f, hf, heq⟩ := List.mem_map.1 hc
    exact hr.xStart_ne (.inl hf) (hr.separated.size_pos hf) heq.symm
  -- the block before it is the start or a free one
  have hprev : ∀ y, y ≠ pl.xStart → (∀ f ∈ F₁ ++ F₂, y ≠ f.addr) →
      y ≠ (last ⟨pl.xStart, 0⟩ F₁).addr := by
    intro y hx hF
    rcases List.mem_cons.1 (last_mem ⟨pl.xStart, 0⟩ F₁) with heq | hf
    · rw [heq]
      exact hx
    · exact hF _ (List.mem_append_left _ hf)
  have hkeep : Keeps U (h.setNext (last ⟨pl.xStart, 0⟩ F₁).addr (h.next e.addr)) h := by
    intro u hu y hy hy'
    obtain ⟨-, hx, hF⟩ := ht.not_header hu hy hy'
    exact mem_setNext (hprev y hx hF)
  refine ⟨⟨ht, hr.pxEnd, hr.bit, ?_, unlink hr.linked hnd, fun u hu => ?_, ?_, ?_⟩, hkeep⟩
  · exact (mem_setNext (hprev _ (top_ne_xStart pl) fun f hf => ht.top_ne hf)).trans hr.end_mem
  · have hpos := hr.used_pos u hu
    exact (hkeep u hu u.addr le_rfl (Nat.lt_add_of_pos_right hpos)).trans (hr.used u hu)
  · change h.xFreeBytesRemaining = _
    rw [hr.remaining, total_append, total_append, total_cons]
    omega
  · rw [size_setNext]
    exact hr.linked.size_of_mem (List.mem_cons_of_mem _ hmem)

/-- What a request needs is a multiple of the alignment, with the header. -/
theorem wantedSize_spec {n : Nat} (hn : 0 < n) :
    0 < wantedSize n ∧ 8 ∣ wantedSize n ∧ n + xHeapStructSize ≤ wantedSize n := by
  unfold wantedSize portByteAlignment xHeapStructSize
  rw [if_pos hn]
  dsimp only
  split <;> omega

/-- No request comes to the assertion behind the rounding. -/
theorem assert_wantedSize (n : Nat) : assert (wantedSize n % portByteAlignment = 0) = some () := by
  rcases Nat.eq_zero_or_pos n with rfl | hpos
  · rfl
  · exact if_pos (Nat.mod_eq_zero_of_dvd (wantedSize_spec hpos).2.1)

/-- **Taking** the block found. -/
theorem takeBlock_spec {F₁ F₂ : List Extent} {e : Extent} {w : Nat}
    (hr : Represents pl h (F₁ ++ e :: F₂) U) (hw : 0 < w) (h8 : 8 ∣ w) (hle : w ≤ e.size) :
    ∃ b F' h', takeBlock pl h w (last ⟨pl.xStart, 0⟩ F₁).addr e.addr =
        some (b.addr + xHeapStructSize, h') ∧
      b.addr = e.addr ∧ w ≤ b.size ∧ Represents pl h' F' (b :: U) ∧ Keeps U h' h ∧
      h'.xMinimumEverFreeBytesRemaining =
        min h.xMinimumEverFreeBytesRemaining h'.xFreeBytesRemaining := by
  obtain ⟨ht, hkeep⟩ := hr.take
  obtain ⟨h₁, b, F', hsplit, haddr, hle', ht', hkeep', hmin⟩ := splitBlock_spec hw h8 hle ht
  refine ⟨b, F', h₁.handOut e.addr, ?_, haddr, hle', haddr ▸ ht'.handOut, ?_, ?_⟩
  · have h8' : (e.addr + xHeapStructSize) % portByteAlignment = 0 :=
      Nat.mod_eq_zero_of_dvd (Nat.dvd_add (ht.used_aligned e (List.mem_cons_self ..)).1
        (show 8 ∣ xHeapStructSize from ⟨1, rfl⟩))
    unfold takeBlock assert
    dsimp only
    rw [hsplit, next_last hr.linked, haddr, if_pos h8']
    rfl
  · intro u hu y hy hy'
    have hne : y ≠ e.addr := fun hc => by
      refine (ht.not_header hu hy hy').1 ⟨hc.symm.le, ?_⟩
      rw [hc]
      exact Nat.lt_add_of_pos_right ht.room.pos
    rw [handOut_mem hne, hkeep' u hu y hy hy', hkeep u hu y hy hy']
  · rw [handOut_eq, hmin]
    rfl

/-- **Allocating.** A request is answered by the free block of the lowest
address that is large enough, or by a null pointer if there is none. -/
theorem malloc_spec (hr : Represents pl h F U) (n : UInt32) :
    (pvPortMalloc pl h n = some (0, h) ∧
      (n.toNat = 0 ∨ 2 ^ 31 ≤ n.toNat ∨ ∀ e ∈ F, e.size < wantedSize n.toNat)) ∨
    ∃ b F' h', pvPortMalloc pl h n = some (b.addr + xHeapStructSize, h') ∧
      0 < n.toNat ∧ n.toNat < 2 ^ 31 ∧ wantedSize n.toNat ≤ b.size ∧
      (∃ e ∈ F, e.addr = b.addr ∧ wantedSize n.toNat ≤ e.size ∧
        ∀ f ∈ F, wantedSize n.toNat ≤ f.size → e.addr ≤ f.addr) ∧
      Represents pl h' F' (b :: U) ∧ Keeps U h' h ∧
      h'.xMinimumEverFreeBytesRemaining =
        min h.xMinimumEverFreeBytesRemaining h'.xFreeBytesRemaining := by
  have htop := pl.top_bounds
  have hend : h.pxEnd ≠ 0 := by
    rw [hr.pxEnd]
    omega
  unfold pvPortMalloc
  dsimp only
  rw [if_neg hend, hr.bit]
  rcases Nat.lt_or_ge n.toNat (2 ^ 31) with hlt | hge
  · rw [if_pos ((and_allocatedBit n.toNat_lt).2 hlt), assert_wantedSize, Option.bind_eq_bind,
      Option.bind_some]
    rcases Nat.eq_zero_or_pos n.toNat with hzero | hpos
    · rw [hzero]
      exact .inl ⟨if_neg fun hc => absurd hc.1 (lt_irrefl 0), .inl rfl⟩
    · obtain ⟨hwpos, h8, -⟩ := wantedSize_spec hpos
      rcases Nat.lt_or_ge h.xFreeBytesRemaining (wantedSize n.toNat) with hfew | hroom
      · refine .inl ⟨if_neg fun hc => ?_, .inr (.inr fun e he => ?_)⟩
        · omega
        · have hle := size_le_total he
          rw [hr.remaining] at hfew
          omega
      · rw [if_pos ⟨hwpos, hroom⟩]
        rcases findFit_spec (w := wantedSize n.toNat) hr.linked
          (congrArg BlockLink.pxNextFreeBlock hr.end_mem)
          (fun e he => hr.addr_ne_zero he) (by omega) hr.length_lt with
          ⟨hfind, hall⟩ | ⟨F₁, e, F₂, rfl, hfit, hbefore, hfind⟩
        · refine .inl ⟨?_, .inr (.inr hall)⟩
          rw [hfind, hr.pxEnd]
          exact if_neg fun hc => hc rfl
        · obtain ⟨b, F', h', htake, haddr, hle, hr', hkeep, hmin⟩ :=
            takeBlock_spec hr hwpos h8 hfit
          have hmem : e ∈ F₁ ++ e :: F₂ := List.mem_append_right _ (List.mem_cons_self ..)
          refine .inr ⟨b, F', h', ?_, hpos, hlt, hle, ⟨e, hmem, haddr.symm, hfit, ?_⟩, hr', hkeep,
            hmin⟩
          · rw [hfind]
            have hne : e.addr ≠ h.pxEnd := by
              rw [hr.pxEnd]
              exact (hr.top_ne hmem).symm
            exact (if_pos hne).trans htake
          · intro f hf hfit'
            rcases List.mem_append.1 hf with hf | hf
            · exact absurd hfit' (Nat.not_le_of_lt (hbefore f hf))
            · rcases List.mem_cons.1 hf with rfl | hf
              · exact le_rfl
              · exact (hr.separated.addr_lt f hf).le
  · rw [if_neg fun hc => absurd ((and_allocatedBit n.toNat_lt).1 hc) (by omega)]
    exact .inl ⟨rfl, .inr (.inl hge)⟩

end RtosHeap

end BusMonitor
