import Mathlib.Algebra.Group.Nat.Defs
import Mathlib.Data.Nat.Basic
import Mathlib.Data.List.TakeWhile
/-!
# Decimal texts

A text is a list of characters. `atoi` reads the number at its start, as
the C library does; `Nat.toDigits 10` prints. A print that is cut loses
its last digits, so reading it back gives the number divided by a power
of ten.
-/


namespace Decimal

variable {text : List Char} {k n : Nat}

def isSpace (c : Char) : Bool := c == ' ' || (9 ≤ c.toNat && c.toNat ≤ 13)

/-- The number that digits stand for. -/
def value (text : List Char) : Nat := Nat.ofDigitChars 10 text 0

/-- A text of digits only. -/
def Digits (text : List Char) : Prop := ∀ c ∈ text, c.isDigit = true

instance : DecidablePred Digits := fun text => List.decidableBAll _ text

/-- Blanks, a sign and digits; what follows is not read. -/
def atoi (text : List Char) : Int :=
  match text.dropWhile isSpace with
  | '-' :: rest => -(value (rest.takeWhile Char.isDigit) : Int)
  | '+' :: rest => value (rest.takeWhile Char.isDigit)
  | rest => value (rest.takeWhile Char.isDigit)

/-! ## Texts of digits -/

theorem Digits.take (h : Digits text) (k : Nat) : Digits (text.take k) := by
  intro c hc
  exact h c (List.mem_of_mem_take hc)

theorem isDigit_iff {c : Char} : c.isDigit = true ↔ 48 ≤ c.toNat ∧ c.toNat ≤ 57 := by
  unfold Char.isDigit
  simp only [ge_iff_le, UInt32.le_iff_toNat_le, Bool.and_eq_true, decide_eq_true_eq]
  exact Iff.rfl

theorem not_isSpace {c : Char} (h : c.isDigit = true) : isSpace c = false := by
  obtain ⟨hlo, -⟩ := isDigit_iff.1 h
  have hblank : (c == ' ') = false := by
    refine beq_eq_false_iff_ne.2 fun hc => ?_
    rw [hc] at hlo
    exact absurd hlo (by decide)
  have hctl : ¬ c.toNat ≤ 13 := by omega
  simp [isSpace, hblank, hctl]

theorem dropWhile_isSpace (h : Digits text) : text.dropWhile isSpace = text := by
  cases text with
  | nil => rfl
  | cons c rest =>
    have hc := not_isSpace (h c (List.mem_cons_self ..))
    rw [List.dropWhile_cons, if_neg (by simp [hc])]

/-- A text of digits is read whole. -/
theorem atoi_of_digits (h : Digits text) : atoi text = value text := by
  have hall : text.takeWhile Char.isDigit = text := List.takeWhile_eq_self_iff.2 h
  unfold atoi
  rw [dropWhile_isSpace h]
  -- neither sign is a digit
  split
  · exact absurd (h '-' (List.mem_cons_self ..)) (by decide)
  · exact absurd (h '+' (List.mem_cons_self ..)) (by decide)
  · rw [hall]

theorem value_append (s t : List Char) : value (s ++ t) = 10 ^ t.length * value s + value t := by
  unfold value
  rw [Nat.ofDigitChars_append, Nat.ofDigitChars_eq_ofDigitChars_zero]

theorem value_lt (h : Digits text) : value text < 10 ^ text.length := by
  induction text with
  | nil => exact Nat.one_pos
  | cons c rest ih =>
    have hrest := ih fun d hd => h d (List.mem_cons_of_mem _ hd)
    obtain ⟨-, hhi⟩ := isDigit_iff.1 (h c (List.mem_cons_self ..))
    have hone : value [c] = c.toNat - 48 := by
      simp [value, Nat.ofDigitChars_cons]
    have hcons : value (c :: rest) = 10 ^ rest.length * value [c] + value rest :=
      value_append [c] rest
    have hle : 10 ^ rest.length * value [c] ≤ 10 ^ rest.length * 9 :=
      Nat.mul_le_mul_left _ (by omega)
    rw [hcons, List.length_cons, Nat.pow_succ]
    omega

/-! ## Prints -/

theorem digits_toDigits (n : Nat) : Digits (Nat.toDigits 10 n) := by
  intro c hc
  exact Nat.isDigit_of_mem_toDigits (by decide) (by decide) hc

@[simp] theorem value_toDigits (n : Nat) : value (Nat.toDigits 10 n) = n :=
  Nat.ofDigitChars_ten_toDigits

/-- **A cut print has lost its last digits.** -/
theorem take_toDigits (hk : 0 < k) : (Nat.toDigits 10 n).take k =
    Nat.toDigits 10 (n / 10 ^ ((Nat.toDigits 10 n).length - k)) := by
  induction n using Nat.strong_induction_on with
  | _ n ih =>
    by_cases hfit : (Nat.toDigits 10 n).length ≤ k
    · rw [List.take_of_length_le hfit, Nat.sub_eq_zero_of_le hfit, Nat.pow_zero, Nat.div_one]
    · have hten : 10 ≤ n := by
        by_contra hlt
        rw [Nat.toDigits_of_lt_base (by omega), List.length_singleton] at hfit
        omega
      have hsplit := Nat.toDigits_of_base_le (b := 10) (by decide) hten
      have hlen : (Nat.toDigits 10 n).length = (Nat.toDigits 10 (n / 10)).length + 1 := by
        rw [hsplit, List.length_append, List.length_singleton]
      -- the last digit goes, and the rest is the print of the tenth
      have hcut : (Nat.toDigits 10 n).take k = (Nat.toDigits 10 (n / 10)).take k := by
        rw [hsplit, List.take_append_of_le_length (by omega)]
      have hexp : (Nat.toDigits 10 n).length - k =
          (Nat.toDigits 10 (n / 10)).length - k + 1 := by omega
      rw [hcut, ih (n / 10) (by omega), hexp, Nat.pow_succ, Nat.mul_comm, Nat.div_div_eq_div_mul]

/-- What is read of a print cut to `k` characters: never more than the
number, and the number itself when it has no more than `k` digits. -/
theorem atoi_take_toDigits_le (hk : 0 < k) :
    ∃ m ≤ n, atoi ((Nat.toDigits 10 n).take k) = (m : Int) ∧ (m = n ↔ n < 10 ^ k) := by
  refine ⟨_, Nat.div_le_self n (10 ^ ((Nat.toDigits 10 n).length - k)), ?_, ?_⟩
  · rw [take_toDigits hk, atoi_of_digits (digits_toDigits _), value_toDigits]
  · rw [← Nat.length_toDigits_le_iff (by decide) hk]
    constructor
    · intro heq
      by_contra hlong
      have hpos : 0 < n := by
        by_contra hzero
        obtain rfl : n = 0 := by omega
        exact hlong (by rw [Nat.toDigits_zero]; exact hk)
      have hbase : 1 < 10 ^ ((Nat.toDigits 10 n).length - k) :=
        Nat.one_lt_pow (by omega) (by decide)
      have hlt := Nat.div_lt_self hpos hbase
      omega
    · intro hfit
      rw [Nat.sub_eq_zero_of_le hfit, Nat.pow_zero, Nat.div_one]

/-- A number in exactly `k` digits, with zeros in front. -/
def padded (k n : Nat) : List Char :=
  List.replicate (k - (Nat.toDigits 10 n).length) '0' ++ Nat.toDigits 10 n

theorem digits_padded : Digits (padded k n) := by
  intro c hc
  rcases List.mem_append.1 hc with hz | hn
  · rw [List.eq_of_mem_replicate hz]
    decide
  · exact digits_toDigits n c hn

theorem length_padded (hk : 0 < k) (h : n < 10 ^ k) : (padded k n).length = k := by
  have hfit := (Nat.length_toDigits_le_iff (by decide) hk).2 h
  rw [padded, List.length_append, List.length_replicate]
  omega

@[simp] theorem value_padded : value (padded k n) = n := by
  have hzeros (j : Nat) : value (List.replicate j '0') = 0 := by
    simp [value]
  rw [padded, value_append, hzeros, Nat.mul_zero, Nat.zero_add, value_toDigits]

end Decimal
