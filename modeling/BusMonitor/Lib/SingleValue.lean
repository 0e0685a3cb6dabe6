import BusMonitor.Lib.Single
import Mathlib.Algebra.Order.Field.Rat
import Mathlib.Algebra.Order.Field.Basic
import Mathlib.Data.Rat.Cast.Order
import Mathlib.Tactic.NormNum.Ineq
/-!
# The values of single-precision numbers

Every finite number is a rational, and the comparisons of a finite number
with a natural one are those of rationals.
-/


namespace Single

/-- Neither an infinity nor a NaN. -/
def IsFinite (x : Single) : Prop := x.exponent ≠ 255

instance : DecidablePred IsFinite := fun _ => inferInstanceAs (Decidable (_ ≠ _))

/-- The rational a finite number stands for. -/
def value (x : Single) : ℚ := (x.units.getD 0 : ℤ) / 2 ^ 149

variable {x : Single} {n : Nat}

/-- A finite number is an integer of units. -/
theorem IsFinite.units (h : x.IsFinite) : x.units = some (x.units.getD 0) := by
  unfold Single.units
  rw [if_neg fun hnan => h hnan.1]
  split <;> rfl

/-- A natural number in units. -/
theorem natCast_le_div {v : ℤ} : (n : ℚ) ≤ v / 2 ^ 149 ↔ (n : ℤ) * 2 ^ 149 ≤ v := by
  rw [le_div_iff₀ (by norm_num)]
  exact_mod_cast Iff.rfl

theorem div_le_natCast {v : ℤ} : (v : ℚ) / 2 ^ 149 ≤ n ↔ v ≤ (n : ℤ) * 2 ^ 149 := by
  rw [div_le_iff₀ (by norm_num)]
  exact_mod_cast Iff.rfl

/-- **The comparisons are exact.** -/
theorem geNat_iff (h : x.IsFinite) : x.geNat n = true ↔ (n : ℚ) ≤ x.value := by
  unfold value
  rw [natCast_le_div, geNat, h.units]
  exact decide_eq_true_iff

theorem leNat_iff (h : x.IsFinite) : x.leNat n = true ↔ x.value ≤ n := by
  unfold value
  rw [div_le_natCast, leNat, h.units]
  exact decide_eq_true_iff

theorem eqNat_iff (h : x.IsFinite) : x.eqNat n = true ↔ x.value = n := by
  have hsplit : x.value = n ↔ x.value ≤ n ∧ (n : ℚ) ≤ x.value := le_antisymm_iff
  rw [hsplit, value, div_le_natCast, natCast_le_div, ← le_antisymm_iff, eqNat, h.units]
  exact decide_eq_true_iff

end Single
