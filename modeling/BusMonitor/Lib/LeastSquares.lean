import Mathlib.Algebra.BigOperators.Ring.Finset
import Mathlib.Algebra.Order.BigOperators.Ring.Finset
import Mathlib.Tactic.LinearCombination
/-!
# Affine least squares

Maps `(x, y) ↦ p + q x + r y` that are fitted to a value at each of
finitely many points. A map that meets the normal equations has the least
sum of squares (`Normal.error_le`), and where the moments of the points
have a determinant other than zero no two maps meet them (`Normal.unique`).
-/


namespace LeastSquares

variable {K ι : Type*} [Field K] [Fintype ι]

/-- The map `(x, y) ↦ p + q x + r y`. -/
@[ext] structure Affine (K : Type*) where
  p : K
  q : K
  r : K

def Affine.at (m : Affine K) (x y : K) : K := m.p + m.q * x + m.r * y

variable {x y z : ι → K} {m m' : Affine K}

/-- By how much a map is off at a point. -/
def residual (x y z : ι → K) (m : Affine K) (j : ι) : K := m.at (x j) (y j) - z j

/-- **The normal equations.** The residuals are orthogonal to the constants
and to both coordinates. -/
structure Normal (x y z : ι → K) (m : Affine K) : Prop where
  sum : ∑ j, residual x y z m j = 0
  sum_x : ∑ j, residual x y z m j * x j = 0
  sum_y : ∑ j, residual x y z m j * y j = 0

/-- A map that is exact at every point meets them. -/
theorem Normal.of_exact (h : ∀ j, z j = m.at (x j) (y j)) : Normal x y z m := by
  have hzero : ∀ j, residual x y z m j = 0 := fun j => by rw [residual, h, sub_self]
  constructor
  all_goals
    refine Finset.sum_eq_zero fun j _ => ?_
    simp only [hzero, zero_mul]

/-! ## Moments -/

/-- The sums over the points that the normal equations are made of. -/
structure Moments (K : Type*) where
  n : K
  x : K
  y : K
  x2 : K
  y2 : K
  xy : K

def moments (x y : ι → K) : Moments K where
  n := Fintype.card ι
  x := ∑ j, x j
  y := ∑ j, y j
  x2 := ∑ j, x j * x j
  y2 := ∑ j, y j * y j
  xy := ∑ j, x j * y j

/-- The determinant of the rows `n x y`, `x x2 xy` and `y xy y2`. -/
def Moments.det (M : Moments K) : K :=
  M.n * (M.x2 * M.y2 - M.xy * M.xy) - M.x * (M.x * M.y2 - M.xy * M.y) +
    M.y * (M.x * M.xy - M.x2 * M.y)

/-- The equations of the moments. -/
structure Moments.Solves (M : Moments K) (z zx zy : K) (m : Affine K) : Prop where
  row : M.n * m.p + M.x * m.q + M.y * m.r = z
  row_x : M.x * m.p + M.x2 * m.q + M.xy * m.r = zx
  row_y : M.y * m.p + M.xy * m.q + M.y2 * m.r = zy

/-- The residuals against a weight. -/
theorem sum_residual_mul (w : ι → K) :
    ∑ j, residual x y z m j * w j =
      m.p * ∑ j, w j + m.q * ∑ j, x j * w j + m.r * ∑ j, y j * w j - ∑ j, z j * w j := by
  simp only [residual, Affine.at, sub_mul, add_mul, mul_assoc, Finset.sum_sub_distrib,
    Finset.sum_add_distrib, Finset.mul_sum]

/-- The normal equations, in moments. -/
theorem normal_iff :
    Normal x y z m ↔
      (moments x y).Solves (∑ j, z j) (∑ j, z j * x j) (∑ j, z j * y j) m := by
  have hone : ∑ j, residual x y z m j =
      m.p * Fintype.card ι + m.q * ∑ j, x j + m.r * ∑ j, y j - ∑ j, z j := by
    have h := sum_residual_mul (x := x) (y := y) (z := z) (m := m) fun _ => 1
    simpa using h
  have hcomm : ∑ j, y j * x j = ∑ j, x j * y j := Finset.sum_congr rfl fun j _ => mul_comm _ _
  have hx := sum_residual_mul (x := x) (y := y) (z := z) (m := m) x
  have hy := sum_residual_mul (x := x) (y := y) (z := z) (m := m) y
  rw [hcomm] at hx
  constructor
  · rintro ⟨h, h_x, h_y⟩
    refine ⟨?_, ?_, ?_⟩ <;> dsimp only [moments]
    · linear_combination h - hone
    · linear_combination h_x - hx
    · linear_combination h_y - hy
  · rintro ⟨h, h_x, h_y⟩
    dsimp only [moments] at h h_x h_y
    refine ⟨?_, ?_, ?_⟩
    · linear_combination h + hone
    · linear_combination h_x + hx
    · linear_combination h_y + hy

/-- **One map at most**, where the determinant is not zero: the cofactors
of a column make it of the rows. -/
theorem Moments.Solves.unique {M : Moments K} {z zx zy : K} (hdet : M.det ≠ 0)
    (h : M.Solves z zx zy m) (h' : M.Solves z zx zy m') : m = m' := by
  obtain ⟨h1, h2, h3⟩ := h
  obtain ⟨h1', h2', h3'⟩ := h'
  -- a column's cofactors, as weights of the rows, leave only its own unknown
  have hp : M.det * (m.p - m'.p) = 0 := by
    unfold det
    linear_combination (M.x2 * M.y2 - M.xy * M.xy) * (h1 - h1') +
      (M.xy * M.y - M.x * M.y2) * (h2 - h2') + (M.x * M.xy - M.y * M.x2) * (h3 - h3')
  have hq : M.det * (m.q - m'.q) = 0 := by
    unfold det
    linear_combination (M.xy * M.y - M.x * M.y2) * (h1 - h1') +
      (M.n * M.y2 - M.y * M.y) * (h2 - h2') + (M.x * M.y - M.n * M.xy) * (h3 - h3')
  have hr : M.det * (m.r - m'.r) = 0 := by
    unfold det
    linear_combination (M.x * M.xy - M.y * M.x2) * (h1 - h1') +
      (M.x * M.y - M.n * M.xy) * (h2 - h2') + (M.n * M.x2 - M.x * M.x) * (h3 - h3')
  have hzero {d : K} (hd : M.det * d = 0) : d = 0 := (mul_eq_zero.1 hd).resolve_left hdet
  ext
  · exact sub_eq_zero.1 (hzero hp)
  · exact sub_eq_zero.1 (hzero hq)
  · exact sub_eq_zero.1 (hzero hr)

theorem Normal.unique (hdet : (moments x y).det ≠ 0) (h : Normal x y z m)
    (h' : Normal x y z m') : m = m' :=
  (normal_iff.1 h).unique hdet (normal_iff.1 h')

/-! ## The least sum of squares -/

section Order

variable [LinearOrder K] [IsStrictOrderedRing K]

/-- The sum of the squares of the residuals. -/
def error (x y z : ι → K) (m : Affine K) : K := ∑ j, residual x y z m j ^ 2

/-- **Least squares.** No map has a smaller error than one that meets the
normal equations. -/
theorem Normal.error_le (h : Normal x y z m) (m' : Affine K) :
    error x y z m ≤ error x y z m' := by
  let g (j : ι) : K := m'.at (x j) (y j) - m.at (x j) (y j)
  -- the difference of two maps is orthogonal to the residuals
  have hcross : ∑ j, residual x y z m j * g j = 0 := by
    have hsplit (j : ι) : residual x y z m j * g j =
        (m'.p - m.p) * residual x y z m j + (m'.q - m.q) * (residual x y z m j * x j) +
          (m'.r - m.r) * (residual x y z m j * y j) := by
      simp only [g, Affine.at]
      ring
    simp only [hsplit, Finset.sum_add_distrib, ← Finset.mul_sum, h.sum, h.sum_x, h.sum_y, mul_zero,
      add_zero]
  have hsquare : error x y z m' = error x y z m + ∑ j, g j ^ 2 := by
    have hsplit (j : ι) : residual x y z m' j ^ 2 =
        residual x y z m j ^ 2 + g j ^ 2 + 2 * (residual x y z m j * g j) := by
      simp only [g, residual]
      ring
    simp only [error, hsplit, Finset.sum_add_distrib, ← Finset.mul_sum, hcross, mul_zero, add_zero]
  rw [hsquare]
  exact le_add_of_nonneg_right (Finset.sum_nonneg fun j _ => sq_nonneg (g j))

end Order

end LeastSquares
