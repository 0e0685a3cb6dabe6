import BusMonitor.Lib.Mem
import Mathlib.Data.List.Nodup
import Mathlib.Data.Nat.ModEq
import Mathlib.Logic.Function.Basic
/-!
# Rings

`n` slots in a circle between two parties. One of them fills free slots
from one end of a queue on, the other empties them from the other end, and
all that either of them sees of the queue is which slots are filled. The
bytes of the slots one behind the other are one memory.
-/


namespace Ring

/-- The slot `k` places behind `h`. -/
def place (n h k : Nat) : Nat := (h + k) % n

variable {n h i j k : Nat}

theorem place_lt (hn : 0 < n) (h k : Nat) : place n h k < n := Nat.mod_lt _ hn

@[simp] theorem place_zero (hh : h < n) : place n h 0 = h := Nat.mod_eq_of_lt hh

@[simp] theorem place_place (n h j k : Nat) : place n (place n h j) k = place n h (j + k) := by
  unfold place
  rw [Nat.mod_add_mod, Nat.add_assoc]

theorem place_full (n h k : Nat) : place n h (n + k) = place n h k := by
  unfold place
  rw [Nat.add_left_comm, Nat.add_mod_left]

/-- Places of one round are different slots. -/
theorem place_inj (hi : i < n) (hj : j < n) : place n h i = place n h j ↔ i = j := by
  refine ⟨fun heq => ?_, congrArg _⟩
  have hmod : i ≡ j [MOD n] := Nat.ModEq.add_left_cancel' h heq
  rwa [Nat.ModEq, Nat.mod_eq_of_lt hi, Nat.mod_eq_of_lt hj] at hmod

/-- Every slot is a place of the round. -/
theorem exists_place (hh : h < n) (hi : i < n) : ∃ k < n, place n h k = i := by
  rcases Nat.lt_or_ge i h with hlt | hge
  · refine ⟨n - h + i, by omega, ?_⟩
    unfold place
    rw [show h + (n - h + i) = n + i by omega, Nat.add_mod_left, Nat.mod_eq_of_lt hi]
  · refine ⟨i - h, by omega, ?_⟩
    unfold place
    rw [Nat.add_sub_cancel' hge, Nat.mod_eq_of_lt hi]

/-! ## Queues -/

variable {α : Type*} {get : Nat → Option α} {q : List α} {x : α}

/-- The filled slots hold the queue, from the slot `h` on. -/
structure Shows (n : Nat) (get : Nat → Option α) (h : Nat) (q : List α) : Prop where
  head_lt : h < n
  length_le : q.length ≤ n
  get_place : ∀ k < n, get (place n h k) = q[k]?

namespace Shows

variable (hs : Shows n get h q)
include hs

/-- The slot at the head holds the front of the queue. -/
theorem get_head : get h = q.head? := by
  have hzero := hs.get_place 0 (Nat.zero_lt_of_lt hs.head_lt)
  rwa [place_zero hs.head_lt, ← List.head?_eq_getElem?] at hzero

/-- A free slot behind the queue: there is room up to it. -/
theorem room (hj : j < n) (hfree : get (place n h (q.length + j)) = none) : q.length + j < n := by
  by_contra hc
  have hle := hs.length_le
  have hback : place n h (q.length + j) = place n h (q.length + j - n) := by
    rw [← place_full n h (q.length + j - n), Nat.add_sub_cancel' (by omega)]
  rw [hback, hs.get_place _ (by omega), List.getElem?_eq_none_iff] at hfree
  omega

/-- And up to where there is room, the slots are free. -/
theorem free (hj : q.length + j < n) : get (place n h (q.length + j)) = none := by
  rw [hs.get_place _ hj]
  exact List.getElem?_eq_none (by omega)

/-- The slot behind the queue is free unless the ring is full. -/
theorem free_iff : get (place n h q.length) = none ↔ q.length < n := by
  refine ⟨fun hfree => ?_, fun hlt => hs.free (j := 0) hlt⟩
  exact hs.room (j := 0) (Nat.zero_lt_of_lt hs.head_lt) hfree

/-- **Filling** the slot behind the queue. -/
theorem push (hlt : q.length < n) :
    Shows n (Function.update get (place n h q.length) (some x)) h (q ++ [x]) := by
  refine ⟨hs.head_lt, by rw [List.length_append]; exact hlt, fun k hk => ?_⟩
  rcases Nat.lt_trichotomy k q.length with hlow | rfl | hhigh
  · rw [Function.update_of_ne fun hc => hlow.ne ((place_inj hk hlt).1 hc), hs.get_place k hk,
      List.getElem?_append_left hlow]
  · rw [Function.update_self, List.getElem?_concat_length]
  · rw [Function.update_of_ne fun hc => hhigh.ne' ((place_inj hk hlt).1 hc), hs.get_place k hk,
      List.getElem?_eq_none hhigh.le, List.getElem?_eq_none]
    rw [List.length_append]
    exact hhigh

end Shows

/-- **Emptying** the slot at the head. -/
theorem Shows.pop (hs : Shows n get h (x :: q)) :
    Shows n (Function.update get h none) (place n h 1) q := by
  have hn := Nat.zero_lt_of_lt hs.head_lt
  have hlen : q.length < n := hs.length_le
  refine ⟨place_lt hn _ _, hlen.le, fun k hk => ?_⟩
  rw [place_place, Nat.add_comm]
  rcases Nat.lt_or_ge (k + 1) n with hlt | hge
  · have hne : place n h (k + 1) ≠ h := by
      intro hc
      have hzero := hc.trans (place_zero hs.head_lt).symm
      exact absurd ((place_inj hlt hn).1 hzero) (Nat.succ_ne_zero k)
    rw [Function.update_of_ne hne, hs.get_place _ hlt, List.getElem?_cons_succ]
  · -- once round, to the slot that is free now
    obtain rfl : n = k + 1 := by omega
    have hround : place (k + 1) h (k + 1) = h :=
      (place_full _ _ 0).trans (place_zero hs.head_lt)
    rw [hround, Function.update_self, List.getElem?_eq_none (by omega)]

/-- An empty ring. -/
theorem shows_nil (hh : h < n) (hfree : ∀ i < n, get i = none) : Shows n get h [] :=
  ⟨hh, Nat.zero_le _, fun _ _ => hfree _ (place_lt (Nat.zero_lt_of_lt hh) _ _)⟩

theorem Shows.congr {get' : Nat → Option α} (hs : Shows n get h q)
    (heq : ∀ i < n, get' i = get i) : Shows n get' h q :=
  ⟨hs.head_lt, hs.length_le, fun k hk =>
    (heq _ (place_lt (Nat.zero_lt_of_lt hk) _ _)).trans (hs.get_place k hk)⟩

/-! ## Slots under a count -/

variable {slot slot' : Nat → α}

/-- The first slots from `h` on carry the queue. What the others hold does
not show, and how many are used is counted elsewhere. -/
structure Carries (n : Nat) (slot : Nat → α) (h : Nat) (q : List α) : Prop where
  head_lt : h < n
  length_le : q.length ≤ n
  slot_place : ∀ k (hk : k < q.length), slot (place n h k) = q[k]

theorem carries_nil (hh : h < n) : Carries n slot h [] :=
  ⟨hh, Nat.zero_le _, fun _ hk => absurd hk (Nat.not_lt_zero _)⟩

/-- One more at the back. -/
theorem Carries.push_back (hc : Carries n slot h q) (hlt : q.length < n)
    (hnew : slot' (place n h q.length) = x)
    (hold : ∀ i < n, i ≠ place n h q.length → slot' i = slot i) :
    Carries n slot' h (q ++ [x]) := by
  refine ⟨hc.head_lt, by rw [List.length_append]; exact hlt, fun k hk => ?_⟩
  rw [List.length_append, List.length_singleton] at hk
  rcases Nat.lt_or_ge k q.length with hlow | hlast
  · have hne : place n h k ≠ place n h q.length := fun heq =>
      hlow.ne ((place_inj (by omega) hlt).1 heq)
    rw [hold _ (place_lt (by omega) _ _) hne, hc.slot_place k hlow, List.getElem_append_left hlow]
  · obtain rfl : k = q.length := by omega
    rw [hnew, List.getElem_concat_length rfl]

/-- One more at the front, in the slot before it. -/
theorem Carries.push_front (hc : Carries n slot (place n h 1) q) (hh : h < n)
    (hlt : q.length < n) (hnew : slot' h = x) (hold : ∀ i < n, i ≠ h → slot' i = slot i) :
    Carries n slot' h (x :: q) := by
  refine ⟨hh, hlt, fun k hk => ?_⟩
  rw [List.length_cons] at hk
  cases k with
  | zero => rw [place_zero hh, hnew, List.getElem_cons_zero]
  | succ k =>
    have hne : place n h (k + 1) ≠ h := by
      intro heq
      have hzero := heq.trans (place_zero hh).symm
      exact absurd ((place_inj (by omega) (by omega)).1 hzero) (Nat.succ_ne_zero k)
    have hslot := hc.slot_place k (by omega)
    rw [place_place, Nat.add_comm] at hslot
    rw [hold _ (place_lt (by omega) _ _) hne, hslot, List.getElem_cons_succ]

/-- One less at the front. -/
theorem Carries.pop_front (hc : Carries n slot h (x :: q)) :
    slot h = x ∧ Carries n slot (place n h 1) q := by
  have hlen : q.length < n := hc.length_le
  have hfirst := hc.slot_place 0 (Nat.succ_pos _)
  rw [place_zero hc.head_lt] at hfirst
  refine ⟨hfirst, place_lt (by omega) _ _, hlen.le, fun k hk => ?_⟩
  rw [place_place, Nat.add_comm, hc.slot_place (k + 1) (Nat.succ_lt_succ hk),
    List.getElem_cons_succ]

/-! ## Counting -/

/-- The places of a round are the slots in another order. -/
theorem perm_place (hh : h < n) : ((List.range n).map (place n h)).Perm (List.range n) := by
  have hn := Nat.zero_lt_of_lt hh
  refine (List.perm_ext_iff_of_nodup ?_ List.nodup_range).2 fun i => ?_
  · refine List.Nodup.map_on (fun i hi j hj => ?_) List.nodup_range
    exact (place_inj (List.mem_range.1 hi) (List.mem_range.1 hj)).1
  · rw [List.mem_map, List.mem_range]
    constructor
    · rintro ⟨k, -, rfl⟩
      exact place_lt hn h k
    · intro hi
      obtain ⟨k, hk, hki⟩ := exists_place hh hi
      exact ⟨k, List.mem_range.2 hk, hki⟩

theorem countP_range_lt {m : Nat} (h : m ≤ n) : (List.range n).countP (· < m) = m := by
  obtain ⟨k, rfl⟩ := Nat.exists_eq_add_of_le h
  induction k with
  | zero =>
    rw [Nat.add_zero, List.countP_eq_length.2 fun i hi => decide_eq_true (List.mem_range.1 hi),
      List.length_range]
  | succ k ih =>
    have hout : ¬ decide (m + k < m) = true := by
      rw [decide_eq_true_eq]
      omega
    rw [← Nat.add_assoc, List.range_succ, List.countP_append, ih (Nat.le_add_right m k),
      List.countP_singleton, if_neg hout, Nat.add_zero]

/-- The queue is as long as there are filled slots. -/
theorem Shows.countP (hs : Shows n get h q) :
    (List.range n).countP (fun i => (get i).isSome) = q.length := by
  rw [← (perm_place hs.head_lt).countP_eq, List.countP_map, ← countP_range_lt hs.length_le]
  refine List.countP_congr fun k hk => ?_
  rw [Function.comp_apply, hs.get_place k (List.mem_range.1 hk)]
  simp

/-! ## Bytes -/

/-- Slots of `c` bytes as one memory, from the slot `h` on. -/
def flat (c n h : Nat) (buf : Nat → Mem) : Mem := fun x => buf (place n h (x / c)) (x % c)

variable {c o : Nat} {buf : Nat → Mem} {bs : List UInt8}

/-- Reading in one slot. -/
theorem flat_read (hin : o + k ≤ c) :
    (flat c n h buf).read (j * c + o) k = (buf (place n h j)).read o k := by
  refine List.map_congr_left fun i hi => ?_
  have hlt := List.mem_range.1 hi
  unfold flat
  rw [Nat.add_assoc, Nat.add_comm (j * c), Nat.add_mul_div_right _ _ (by omega),
    Nat.div_eq_of_lt (by omega), Nat.zero_add, Nat.add_mul_mod_self_right,
    Nat.mod_eq_of_lt (by omega)]

/-- Writing in one slot. -/
theorem flat_write (hj : j < n) (hin : o + bs.length ≤ c) {x : Nat} (hx : x < n * c) :
    flat c n h (Function.update buf (place n h j) ((buf (place n h j)).write o bs)) x =
      (flat c n h buf).write (j * c + o) bs x := by
  have hc : 0 < c := Nat.pos_of_mul_pos_left (Nat.zero_lt_of_lt hx)
  have hdiv := Nat.div_add_mod x c
  have hmod := Nat.mod_lt x hc
  have hslot : x / c < n := (Nat.div_lt_iff_lt_mul hc).2 hx
  unfold flat Mem.write
  rcases eq_or_ne (x / c) j with rfl | hne
  · rw [Function.update_self]
    have hpos : x - (x / c * c + o) = x % c - o := by
      rw [Nat.mul_comm] at hdiv
      omega
    have hiff : (o ≤ x % c ∧ x % c < o + bs.length) ↔
        (x / c * c + o ≤ x ∧ x < x / c * c + o + bs.length) := by
      rw [Nat.mul_comm] at hdiv
      omega
    rw [hpos, if_congr hiff rfl rfl]
  · rw [Function.update_of_ne fun hc => hne ((place_inj hslot hj).1 hc), if_neg]
    rintro ⟨hlo, hhi⟩
    refine hne ((Nat.div_eq_iff hc).2 ⟨?_, ?_⟩)
    · omega
    · omega

/-- Writing on, behind what was written so far. -/
theorem flat_append {xs : List UInt8} (hread : (flat c n h buf).read 0 xs.length = xs)
    (hlen : xs.length = j * c + o) (hj : j < n) (hin : o + bs.length ≤ c) :
    (flat c n h (Function.update buf (place n h j) ((buf (place n h j)).write o bs))).read 0
      (xs ++ bs).length = xs ++ bs := by
  have hmul : (j + 1) * c ≤ n * c := Nat.mul_le_mul_right c hj
  rw [Nat.succ_mul] at hmul
  rw [List.length_append, Mem.read_add, Nat.zero_add]
  congr 1
  · refine Eq.trans (Mem.read_congr fun i hi => ?_) hread
    rw [Nat.zero_add, flat_write hj hin (by omega)]
    exact Mem.write_of_disjoint (.inl (by omega))
  · rw [hlen, flat_read hin, Function.update_self]
    exact Mem.read_write_self

end Ring
