import Mathlib.Algebra.BigOperators.Group.List.Basic
import Mathlib.Algebra.Order.BigOperators.Group.List
import Mathlib.Data.Fin.Tuple.Sort
import Mathlib.Data.Rat.Floor
/-!
# Order statistics

Values compared by a key into a linear order. Selection sort in place: the
sorted key tuple is the one every sort gives (`key_selectionSort`), so the
value at a place is an order statistic. The scan for the least and the
greatest whose second comparison is in the `else` of the first
(`scan_spec`), and what is left of a list once one of each is taken out:
`Trims` fixes its sum, so its mean is the same for any choice and any order
(`Trims.mean_eq`).
-/


namespace OrderStatistics

variable {α β : Type*} [LinearOrder β]

/-! ## Selection sort -/

section Passes

variable {n : ℕ} (key : α → β)

/-- The order statistic of rank `k`, from zero. -/
def orderStat (t : Fin n → β) (k : Fin n) : β := t (Tuple.sort t k)

/-- One comparison of the inner loop: the lesser of two places, the first
one at a tie. -/
def lesser (t : Fin n → α) (m j : Fin n) : Fin n :=
  if key (t j) < key (t m) then j else m

/-- The inner loop: the place of the least value from `i` on. -/
def least (t : Fin n → α) (i : Fin n) : Fin n :=
  ((List.finRange n).drop (i + 1)).foldl (lesser key t) i

/-- One pass: the least value from `i` on changes places with the one at
`i`. -/
def pass (t : Fin n → α) (i : Fin n) : Fin n → α := t ∘ Equiv.swap i (least key t i)

/-- The outer loop, over every place but the last. -/
def selectionSort (t : Fin n → α) : Fin n → α :=
  ((List.finRange n).take (n - 1)).foldl (pass key) t

variable {key} {t : Fin n → α}

theorem lesser_le_left (m j : Fin n) : key (t (lesser key t m j)) ≤ key (t m) := by
  unfold lesser
  split
  · next h => exact h.le
  · exact le_rfl

theorem lesser_le_right (m j : Fin n) : key (t (lesser key t m j)) ≤ key (t j) := by
  unfold lesser
  split
  · exact le_rfl
  · next h => exact not_lt.1 h

theorem lesser_eq (key : α → β) (t : Fin n → α) (m j : Fin n) :
    lesser key t m j = m ∨ lesser key t m j = j := by
  unfold lesser
  split
  · exact Or.inr rfl
  · exact Or.inl rfl

/-- A search is no greater than where it starts. -/
theorem foldl_lesser_le_start (js : List (Fin n)) (m : Fin n) :
    key (t (js.foldl (lesser key t) m)) ≤ key (t m) := by
  induction js generalizing m with
  | nil => exact le_rfl
  | cons j js ih => exact (ih _).trans (lesser_le_left m j)

/-- Nor than any place it visits. -/
theorem foldl_lesser_le {js : List (Fin n)} {m j : Fin n} (hj : j ∈ js) :
    key (t (js.foldl (lesser key t) m)) ≤ key (t j) := by
  induction js generalizing m with
  | nil => simp at hj
  | cons i js ih =>
      rcases List.mem_cons.1 hj with rfl | hj
      · exact (foldl_lesser_le_start js _).trans (lesser_le_right m j)
      · exact ih hj

theorem foldl_lesser_mem (key : α → β) (t : Fin n → α) (js : List (Fin n)) (m : Fin n) :
    js.foldl (lesser key t) m = m ∨ js.foldl (lesser key t) m ∈ js := by
  induction js generalizing m with
  | nil => exact Or.inl rfl
  | cons j js ih =>
      rw [List.foldl_cons]
      rcases ih (lesser key t m j) with h | h
      · rw [h]
        rcases lesser_eq key t m j with h' | h'
        · exact Or.inl h'
        · exact Or.inr (by simp [h'])
      · exact Or.inr (List.mem_cons_of_mem _ h)

theorem mem_drop_finRange {k : ℕ} {j : Fin n} : j ∈ (List.finRange n).drop k ↔ k ≤ j := by
  rw [List.mem_drop_iff_getElem]
  constructor
  · rintro ⟨i, hi, rfl⟩
    simp
  · intro h
    refine ⟨j - k, ?_, ?_⟩
    · have := j.isLt
      simp only [List.length_finRange]
      omega
    · ext
      simp only [List.getElem_finRange, Fin.val_cast]
      omega

theorem le_least (key : α → β) (t : Fin n → α) (i : Fin n) : i ≤ least key t i := by
  rcases foldl_lesser_mem key t ((List.finRange n).drop (i + 1)) i with h | h
  · exact h.ge
  · have := mem_drop_finRange.1 h
    exact Fin.le_def.2 (by unfold least; omega)

/-- **The inner loop finds a least value.** -/
theorem least_le {i j : Fin n} (hij : i ≤ j) : key (t (least key t i)) ≤ key (t j) := by
  rcases hij.eq_or_lt with rfl | hlt
  · exact foldl_lesser_le_start _ i
  · exact foldl_lesser_le (mem_drop_finRange.2 (by omega))

/-- The invariant of the outer loop: the first `k` values are in place. -/
def Placed (key : α → β) (t : Fin n → α) (k : ℕ) : Prop :=
  ∀ i j : Fin n, (i : ℕ) < k → i ≤ j → key (t i) ≤ key (t j)

/-- A pass moves nothing before its place, and nothing from there on to a
place before it. -/
theorem le_swap_least {a i b : Fin n} (hai : a ≤ i) (hab : a ≤ b) :
    a ≤ Equiv.swap i (least key t i) b := by
  have hle : a ≤ least key t i := hai.trans (le_least key t i)
  rw [Equiv.swap_apply_def]
  split
  · exact hle
  · split
    · exact hai
    · exact hab

/-- **One pass places one value.** -/
theorem Placed.pass {i : Fin n} (h : Placed key t i) : Placed key (pass key t i) (i + 1) := by
  intro a b ha hab
  simp only [OrderStatistics.pass, Function.comp_apply]
  have hle := le_least key t i
  rcases (Nat.lt_succ_iff.1 ha).eq_or_lt with hai | hai
  · -- the place of the pass itself
    obtain rfl : a = i := Fin.ext hai
    rw [Equiv.swap_apply_left]
    exact least_le (le_swap_least le_rfl hab)
  · have hfix : Equiv.swap i (least key t i) a = a :=
      Equiv.swap_apply_of_ne_of_ne (by omega) (by omega)
    rw [hfix]
    exact h a _ hai (le_swap_least (by omega) hab)

/-- The passes over the first `k` places, by induction on `k`. -/
theorem placed_foldl {k : ℕ} (hk : k ≤ n) :
    Placed key (((List.finRange n).take k).foldl (pass key) t) k := by
  induction k with
  | zero => intro i _ hi; omega
  | succ k ih =>
      have hlen : k < (List.finRange n).length := by simp only [List.length_finRange]; omega
      rw [List.take_succ_eq_append_getElem hlen, List.foldl_append, List.getElem_finRange]
      exact Placed.pass (i := ⟨k, by omega⟩) (ih (by omega))

theorem foldl_pass_perm (key : α → β) (is : List (Fin n)) (t : Fin n → α) :
    ∃ σ : Equiv.Perm (Fin n), is.foldl (pass key) t = t ∘ σ := by
  induction is generalizing t with
  | nil => exact ⟨1, rfl⟩
  | cons i is ih =>
      obtain ⟨σ, h⟩ := ih (pass key t i)
      exact ⟨Equiv.swap i (least key t i) * σ, h⟩

theorem selectionSort_perm (key : α → β) (t : Fin n → α) :
    ∃ σ : Equiv.Perm (Fin n), selectionSort key t = t ∘ σ :=
  foldl_pass_perm key _ t

theorem selectionSort_monotone (key : α → β) (t : Fin n → α) :
    Monotone (key ∘ selectionSort key t) := by
  intro a b hab
  rcases hab.eq_or_lt with rfl | hlt
  · exact le_rfl
  · -- only the last place has no pass of its own, and nothing is after it
    exact placed_foldl (by omega) a b (by omega) hab

/-- **Selection sort.** The value at a place has the key of that rank. -/
theorem key_selectionSort (key : α → β) (t : Fin n → α) (k : Fin n) :
    key (selectionSort key t k) = orderStat (key ∘ t) k := by
  obtain ⟨σ, hσ⟩ := selectionSort_perm key t
  have hmono := selectionSort_monotone key t
  rw [hσ] at hmono ⊢
  exact congrFun (Tuple.unique_monotone (f := key ∘ t) hmono (Tuple.monotone_sort _)) k

end Passes

/-! ## The least and the greatest -/

/-- The least and the greatest of some values. -/
structure Extremes (xs : List β) (lo hi : β) : Prop where
  lo_mem : lo ∈ xs
  hi_mem : hi ∈ xs
  lo_le : ∀ x ∈ xs, lo ≤ x
  le_hi : ∀ x ∈ xs, x ≤ hi

/-- One step of the scan. The second comparison is in the `else` of the
first. -/
def scan (key : α → β) (b : α × α) (x : α) : α × α :=
  if key x < key b.1 then (x, b.2) else if key b.2 < key x then (b.1, x) else b

section Scan

variable {key : α → β} {xs : List β} {lo hi : β} {b : α × α}

theorem Extremes.lo_le_hi (h : Extremes xs lo hi) : lo ≤ hi := h.lo_le hi h.hi_mem

/-- A new value, and bounds that are old ones or the value itself. -/
theorem Extremes.append {x lo' hi' : β} (h : Extremes xs lo hi) (hlo : lo' = lo ∨ lo' = x)
    (hhi : hi' = hi ∨ hi' = x) (hlo_le : lo' ≤ lo) (hlo_le_x : lo' ≤ x) (hle_hi : hi ≤ hi')
    (hx_le_hi : x ≤ hi') : Extremes (xs ++ [x]) lo' hi' where
  lo_mem := by
    rcases hlo with rfl | rfl
    · exact List.mem_append_left _ h.lo_mem
    · simp
  hi_mem := by
    rcases hhi with rfl | rfl
    · exact List.mem_append_left _ h.hi_mem
    · simp
  lo_le := by
    intro y hy
    rcases List.mem_append.1 hy with hy | hy
    · exact hlo_le.trans (h.lo_le y hy)
    · rwa [List.mem_singleton.1 hy]
  le_hi := by
    intro y hy
    rcases List.mem_append.1 hy with hy | hy
    · exact (h.le_hi y hy).trans hle_hi
    · rwa [List.mem_singleton.1 hy]

/-- **One step of the scan keeps the extremes.** -/
theorem Extremes.scan (h : Extremes xs (key b.1) (key b.2)) (x : α) :
    Extremes (xs ++ [key x]) (key (scan key b x).1) (key (scan key b x).2) := by
  have hle := h.lo_le_hi
  unfold OrderStatistics.scan
  split
  · next hlo =>
      -- what is under the least so far is not over the greatest: the `else` loses nothing
      exact h.append (Or.inr rfl) (Or.inl rfl) hlo.le le_rfl le_rfl (hlo.le.trans hle)
  · next hlo =>
      split
      · next hhi =>
          exact h.append (Or.inl rfl) (Or.inr rfl) le_rfl (hle.trans hhi.le) hhi.le le_rfl
      · next hhi =>
          exact h.append (Or.inl rfl) (Or.inl rfl) le_rfl (not_lt.1 hlo) le_rfl (not_lt.1 hhi)

theorem Extremes.foldl_scan (h : Extremes xs (key b.1) (key b.2)) (ys : List α) :
    Extremes (xs ++ ys.map key) (key (ys.foldl (OrderStatistics.scan key) b).1)
      (key (ys.foldl (OrderStatistics.scan key) b).2) := by
  induction ys generalizing xs b with
  | nil => simpa using h
  | cons y ys ih => simpa using ih (h.scan y)

theorem extremes_single (x : β) : Extremes [x] x x :=
  ⟨by simp, by simp, by simp, by simp⟩

/-- **The scan.** Started at the first value, it ends with the least and the
greatest. -/
theorem scan_spec (x : α) (xs : List α) :
    Extremes ((x :: xs).map key) (key (xs.foldl (scan key) (x, x)).1)
      (key (xs.foldl (scan key) (x, x)).2) := by
  have h : Extremes [key x] (key (x, x).1) (key (x, x).2) := extremes_single (key x)
  exact h.foldl_scan xs

end Scan

/-! ## Trimming -/

/-- Values with one least and one greatest taken out. -/
structure Trims (xs : List β) (lo hi : β) (rest : List β) : Prop where
  perm : xs.Perm (lo :: hi :: rest)
  lo_le : ∀ x ∈ xs, lo ≤ x
  le_hi : ∀ x ∈ xs, x ≤ hi

section Trim

variable {xs ys rest rest' : List β} {lo hi lo' hi' : β}

theorem Trims.lo_mem (h : Trims xs lo hi rest) : lo ∈ xs := h.perm.mem_iff.2 (by simp)

theorem Trims.hi_mem (h : Trims xs lo hi rest) : hi ∈ xs := h.perm.mem_iff.2 (by simp)

theorem Trims.length_eq (h : Trims xs lo hi rest) : xs.length = rest.length + 2 := by
  have := h.perm.length_eq
  simpa using this

theorem Trims.lo_le_rest (h : Trims xs lo hi rest) {x : β} (hx : x ∈ rest) : lo ≤ x :=
  h.lo_le x (h.perm.mem_iff.2 (by simp [hx]))

theorem Trims.rest_le_hi (h : Trims xs lo hi rest) {x : β} (hx : x ∈ rest) : x ≤ hi :=
  h.le_hi x (h.perm.mem_iff.2 (by simp [hx]))

/-- **Two values can be trimmed.** Where all are the same, the two taken out
are still two. -/
theorem Extremes.exists_trims (h : Extremes xs lo hi) (hlen : 2 ≤ xs.length) :
    ∃ rest, Trims xs lo hi rest := by
  have hlo := List.perm_cons_erase h.lo_mem
  have hhi : hi ∈ xs.erase lo := by
    by_cases heq : hi = lo
    · have hpos : 0 < (xs.erase lo).length := by
        rw [List.length_erase_of_mem h.lo_mem]
        omega
      obtain ⟨x, hx⟩ := List.exists_mem_of_length_pos hpos
      have hmem := List.mem_of_mem_erase hx
      have hsame : x = hi := le_antisymm (h.le_hi x hmem) (heq ▸ h.lo_le x hmem)
      exact hsame ▸ hx
    · exact (List.mem_erase_of_ne heq).2 h.hi_mem
  exact ⟨(xs.erase lo).erase hi, hlo.trans ((List.perm_cons_erase hhi).cons lo), h.lo_le, h.le_hi⟩

/-- **Trimming does not look at the order**, nor at which of equal values it
takes. -/
theorem Trims.unique (h : Trims xs lo hi rest) (h' : Trims ys lo' hi' rest')
    (hperm : xs.Perm ys) : lo = lo' ∧ hi = hi' ∧ rest.Perm rest' := by
  have hlo : lo = lo' := le_antisymm (h.lo_le _ (hperm.mem_iff.2 h'.lo_mem))
    (h'.lo_le _ (hperm.mem_iff.1 h.lo_mem))
  have hhi : hi = hi' := le_antisymm (h'.le_hi _ (hperm.mem_iff.1 h.hi_mem))
    (h.le_hi _ (hperm.mem_iff.2 h'.hi_mem))
  subst hlo hhi
  refine ⟨rfl, rfl, ?_⟩
  have := h.perm.symm.trans (hperm.trans h'.perm)
  exact List.Perm.cons_inv (List.Perm.cons_inv this)

end Trim

/-! ## Means of whole values -/

/-- The mean of whole values. -/
def mean (xs : List ℤ) : ℚ := xs.sum / xs.length

section Mean

variable {xs ys rest rest' : List ℤ} {lo hi lo' hi' : ℤ}

theorem floor_mean (xs : List ℤ) : ⌊mean xs⌋ = xs.sum / xs.length :=
  Rat.floor_intCast_div_natCast _ _

theorem mean_perm (h : xs.Perm ys) : mean xs = mean ys := by
  unfold mean
  rw [h.sum_eq, h.length_eq]

theorem le_floor_mean (hxs : 0 < xs.length) (h : ∀ x ∈ xs, lo ≤ x) : lo ≤ ⌊mean xs⌋ := by
  have hsum : xs.length • lo ≤ xs.sum := List.card_nsmul_le_sum xs lo h
  rw [nsmul_eq_mul] at hsum
  rw [floor_mean, Int.le_ediv_iff_mul_le (by omega)]
  linarith [mul_comm lo (xs.length : ℤ)]

theorem floor_mean_le (hxs : 0 < xs.length) (h : ∀ x ∈ xs, x ≤ hi) : ⌊mean xs⌋ ≤ hi := by
  have hsum : xs.sum ≤ xs.length • hi := List.sum_le_card_nsmul xs hi h
  rw [nsmul_eq_mul] at hsum
  rw [floor_mean]
  refine Int.ediv_le_of_le_mul (by omega) ?_
  linarith [mul_comm hi (xs.length : ℤ)]

theorem Trims.sum_rest (h : Trims xs lo hi rest) : rest.sum = xs.sum - lo - hi := by
  have := h.perm.sum_eq
  simp only [List.sum_cons] at this
  omega

/-- **The trimmed mean** is one number, whatever is taken out and in
whatever order the values come. -/
theorem Trims.mean_eq (h : Trims xs lo hi rest) (h' : Trims ys lo' hi' rest')
    (hperm : xs.Perm ys) : mean rest = mean rest' :=
  mean_perm (h.unique h' hperm).2.2

/-- And lies between the extremes. -/
theorem Trims.floor_mean_mem (h : Trims xs lo hi rest) (hrest : 0 < rest.length) :
    lo ≤ ⌊mean rest⌋ ∧ ⌊mean rest⌋ ≤ hi :=
  ⟨le_floor_mean hrest fun _ => h.lo_le_rest, floor_mean_le hrest fun _ => h.rest_le_hi⟩

end Mean

end OrderStatistics
