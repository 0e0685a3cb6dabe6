import Mathlib.Data.List.Lookmap
import Mathlib.Data.List.Nodup
import Mathlib.Data.List.NodupEquivFin
import Mathlib.Logic.Function.Basic
/-!
# The most recent entries, and the ring that holds them

A component that keeps the last `N` entries is a list, newest first, cut
to `N`. A ring keeps the same list in `N` slots: the entry after the
`n`-th goes to slot `n % N`, and `order N n` names the slots that hold
something, newest first. Writing the next slot is remembering an entry
(`view_push`), and rewriting the first slot that matches is rewriting the
first entry that matches (`map_rewriteFirst`).
-/


namespace Recent

variable {α : Type*}

/-- The list with a new entry in front, cut to `N`. -/
def remember (N : Nat) (a : α) (l : List α) : List α := (a :: l).take N

/-- The slots under `i`, from the top. -/
def below (i : Nat) : List Nat := (List.range i).reverse

/-- The slots from `i` up to `N`, from the top. -/
def above (i N : Nat) : List Nat := (List.range' i (N - i)).reverse

/-- The slots of a ring after `n` entries, newest first. -/
def order (N n : Nat) : List Nat :=
  below (n % N) ++ if N ≤ n then above (n % N) N else []

/-- The entries of a ring after `n` of them, newest first. -/
def view (N : Nat) (slots : Nat → α) (n : Nat) : List α := (order N n).map slots

/-! ## The two halves -/

@[simp] theorem mem_below {i k : Nat} : k ∈ below i ↔ k < i := by
  simp [below]

@[simp] theorem mem_above {i N k : Nat} : k ∈ above i N ↔ i ≤ k ∧ k < N := by
  simp only [above, List.mem_reverse, List.mem_range'_1]
  omega

@[simp] theorem length_below (i : Nat) : (below i).length = i := by simp [below]

@[simp] theorem length_above (i N : Nat) : (above i N).length = N - i := by simp [above]

@[simp] theorem below_zero : below 0 = [] := rfl

@[simp] theorem above_self (N : Nat) : above N N = [] := by simp [above]

theorem below_succ (i : Nat) : below (i + 1) = i :: below i := by
  simp [below, List.range_succ]

/-- The upper half ends at its bottom slot. -/
theorem above_eq_append {i N : Nat} (h : i < N) : above i N = above (i + 1) N ++ [i] := by
  unfold above
  rw [show N - i = (N - (i + 1)) + 1 by omega, List.range'_succ, List.reverse_cons]

theorem above_zero (N : Nat) : above 0 N = below N := by
  simp [above, below, List.range_eq_range']

/-- The upper half starts at its top slot. -/
theorem above_succ {i N : Nat} (h : i ≤ N) : above i (N + 1) = N :: above i N := by
  unfold above
  rw [show N + 1 - i = (N - i) + 1 by omega, List.range'_concat, List.reverse_append]
  simp; omega

/-! ## The ring -/

/-- A ring that has not wrapped holds the slots under its index. -/
theorem order_of_lt {N n : Nat} (h : n < N) : order N n = below n := by
  simp [order, Nat.mod_eq_of_lt h, Nat.not_le.2 h]

theorem length_order {N n : Nat} (hN : 0 < N) : (order N n).length = min n N := by
  rcases Nat.lt_or_ge n N with h | h
  · rw [order_of_lt h, length_below]; omega
  · have := Nat.mod_lt n hN
    simp only [order, if_pos h, List.length_append, length_below, length_above]
    omega

theorem mem_order {N n k : Nat} (hN : 0 < N) : k ∈ order N n ↔ k < n ∧ k < N := by
  have := Nat.mod_lt n hN
  rcases Nat.lt_or_ge n N with h | h
  · rw [order_of_lt h, mem_below]; omega
  · simp only [order, if_pos h, List.mem_append, mem_below, mem_above]
    omega

theorem nodup_order (N n : Nat) : (order N n).Nodup := by
  refine List.Nodup.append ?_ ?_ ?_
  · exact List.nodup_reverse.2 List.nodup_range
  · split
    · exact List.nodup_reverse.2 List.nodup_range'
    · exact List.nodup_nil
  · intro k hk hk'
    rw [mem_below] at hk
    split at hk'
    · rw [mem_above] at hk'; omega
    · exact absurd hk' List.not_mem_nil

/-- **One more entry** puts the slot under the index in front and drops
the slot it overwrites. -/
theorem order_succ {N : Nat} (hN : 0 < N) (n : Nat) :
    order N (n + 1) = n % N :: (order N n).take (N - 1) := by
  have hlt := Nat.mod_lt n hN
  rcases Nat.lt_or_ge (n % N + 1) N with hi | hi
  · have hmod : (n + 1) % N = n % N + 1 := by
      rw [Nat.add_mod, Nat.mod_eq_of_lt (show 1 < N by omega), Nat.mod_eq_of_lt hi]
    rcases Nat.lt_or_ge n N with h | h
    · -- not full yet: nothing is overwritten
      rw [Nat.mod_eq_of_lt h] at hi ⊢
      rw [order_of_lt hi, order_of_lt h, below_succ, List.take_of_length_le (by simp; omega)]
    · -- full: the slot overwritten was the oldest, at the end of the upper half
      simp only [order, hmod, if_pos h, if_pos (show N ≤ n + 1 by omega), below_succ,
        above_eq_append hlt, List.cons_append]
      rw [← List.append_assoc, List.take_append_of_le_length (by simp; omega),
        List.take_of_length_le (by simp; omega)]
  · -- the index wraps: the ring is full from here on
    have hi' : n % N + 1 = N := by omega
    have hmod : (n + 1) % N = 0 := by
      rw [Nat.add_mod]
      rcases Nat.lt_or_ge 1 N with h1 | h1
      · rw [Nat.mod_eq_of_lt h1, hi', Nat.mod_self]
      · rw [show N = 1 by omega, Nat.mod_one]
    have hN1 : N ≤ n + 1 := by have := Nat.mod_le n N; omega
    rw [order, hmod, if_pos hN1, below_zero, List.nil_append, above_zero, ← hi', below_succ, hi',
      order, List.take_append_of_le_length (by simp; omega),
      List.take_of_length_le (by simp; omega)]

/-- **Writing the next slot is remembering an entry.** -/
theorem view_push {N : Nat} (hN : 0 < N) (slots : Nat → α) (n : Nat) (a : α) :
    view N (Function.update slots (n % N) a) (n + 1) = remember N a (view N slots n) := by
  have hnd := nodup_order N (n + 1)
  rw [order_succ hN] at hnd
  have hfresh : ∀ k ∈ (order N n).take (N - 1), k ≠ n % N := by
    rintro k hk rfl
    exact (List.nodup_cons.1 hnd).1 hk
  unfold view remember
  rw [order_succ hN, List.map_cons, Function.update_self,
    show N = N - 1 + 1 by omega, List.take_succ_cons, ← List.map_take]
  congr 1
  rw [show N - 1 + 1 = N by omega]
  exact List.map_congr_left fun k hk => Function.update_of_ne (hfresh k hk) _ _

/-! ## Rewriting the first match -/

/-- The first of the listed slots whose entry matches. -/
def firstMatch (p : α → Bool) (slots : Nat → α) (ks : List Nat) : Option Nat :=
  ks.find? fun k => p (slots k)

/-- Rewriting the first slot that matches rewrites the first entry that
matches. -/
theorem map_rewriteFirst {p : α → Bool} {f : α → α} {slots : Nat → α} {ks : List Nat}
    (hnd : ks.Nodup) {k : Nat} (hk : firstMatch p slots ks = some k) :
    ks.map (Function.update slots k (f (slots k)))
      = (ks.map slots).lookmap fun a => if p a then some (f a) else none := by
  induction ks with
  | nil => simp [firstMatch] at hk
  | cons j js ih =>
    rw [List.nodup_cons] at hnd
    by_cases hp : p (slots j)
    · obtain rfl : j = k := by simpa [firstMatch, hp] using hk
      rw [List.map_cons, List.map_cons, Function.update_self,
        List.lookmap_cons_some _ _ (show _ = some (f (slots j)) by simp [hp])]
      congr 1
      -- the update does not show again further down the list
      refine List.map_congr_left fun i hi => Function.update_of_ne ?_ _ _
      rintro rfl
      exact hnd.1 hi
    · have hk' : firstMatch p slots js = some k := by simpa [firstMatch, hp] using hk
      have hne : j ≠ k := by
        rintro rfl
        exact hnd.1 (List.mem_of_find?_eq_some hk')
      rw [List.map_cons, List.map_cons, List.lookmap_cons_none _ _ (by simp [hp]), ih hnd.2 hk',
        Function.update_of_ne hne]

/-- Where nothing matches, nothing is rewritten. -/
theorem lookmap_of_firstMatch_none {p : α → Bool} {f : α → α} {slots : Nat → α} {ks : List Nat}
    (hk : firstMatch p slots ks = none) :
    (ks.map slots).lookmap (fun a => if p a then some (f a) else none) = ks.map slots := by
  refine List.lookmap_of_forall_not _ fun a ha => ?_
  obtain ⟨k, hmem, rfl⟩ := List.mem_map.1 ha
  have := List.find?_eq_none.1 hk k hmem
  simp [this]

end Recent
