import Mathlib.Data.Nat.Basic
/-!
# Months as two-byte codes

A month is coded as 256 times its year plus its number, 1 to 12. The
codes are not consecutive; `index` numbers the months without the gaps,
and on codes of months it keeps their order.
-/


namespace Month

variable {t u n : Nat}

/-- The codes that stand for a month. -/
def IsCode (t : Nat) : Prop := 1 ≤ t % 256 ∧ t % 256 ≤ 12

instance : DecidablePred IsCode := fun _ => inferInstanceAs (Decidable (_ ∧ _))

/-- The month counted from the year 0, which starts at 1. -/
def index (t : Nat) : Nat := 12 * (t / 256) + t % 256

/-- The code of a month by its index. -/
def ofIndex (n : Nat) : Nat := 256 * ((n - 1) / 12) + ((n - 1) % 12 + 1)

theorem isCode_ofIndex (n : Nat) : IsCode (ofIndex n) := by
  unfold IsCode ofIndex
  omega

theorem index_ofIndex (h : 1 ≤ n) : index (ofIndex n) = n := by
  unfold index ofIndex
  omega

theorem ofIndex_index (h : IsCode t) : ofIndex (index t) = t := by
  unfold IsCode at h
  unfold ofIndex index
  omega

theorem IsCode.one_le_index (h : IsCode t) : 1 ≤ index t := by
  unfold IsCode at h
  unfold index
  omega

/-- **Codes are ordered as their months are.** -/
theorem index_lt_index (ht : IsCode t) (hu : IsCode u) : index t < index u ↔ t < u := by
  unfold IsCode at ht hu
  unfold index
  omega

theorem index_inj (ht : IsCode t) (hu : IsCode u) : index t = index u ↔ t = u := by
  unfold IsCode at ht hu
  unfold index
  omega

theorem ofIndex_le_ofIndex (h : n ≤ u) : ofIndex n ≤ ofIndex u := by
  unfold ofIndex
  omega

/-- The month before: across a year when the number is 1. -/
theorem ofIndex_pred (h : 2 ≤ n) : ofIndex (n - 1) =
    if ofIndex n % 256 = 1 then ofIndex n - 256 + 11 else ofIndex n - 1 := by
  unfold ofIndex
  split <;> omega

/-- The month after a code is the next number, but for December. -/
theorem ofIndex_succ (h : IsCode t) (hdec : t % 256 ≠ 12) : ofIndex (index t + 1) = t + 1 := by
  unfold IsCode at h
  unfold ofIndex index
  omega

end Month
