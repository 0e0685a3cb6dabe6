import Mathlib.Data.List.GetD
/-!
# Hexadecimal text

Bytes written as two characters each, the high half first. Only the
digits `0` to `9` and the capital letters `A` to `F` are text; what a
reader makes of other characters is its own affair.
-/


namespace HexText

variable {c : UInt8} {text : List UInt8}

/-- The characters of hexadecimal text. -/
def IsDigit (c : UInt8) : Prop :=
  (48 ≤ c.toNat ∧ c.toNat ≤ 57) ∨ (65 ≤ c.toNat ∧ c.toNat ≤ 70)

instance : DecidablePred IsDigit := fun _ => inferInstanceAs (Decidable (_ ∨ _))

/-- The number a digit stands for. -/
def value (c : UInt8) : Nat :=
  if c.toNat ≤ 57 then c.toNat - 48 else c.toNat - 55

/-- The byte two digits stand for. -/
def pair (hi lo : UInt8) : UInt8 := UInt8.ofNat (16 * value hi + value lo)

/-- The bytes of a text. -/
def decode : List UInt8 → List UInt8
  | hi :: lo :: text => pair hi lo :: decode text
  | _ => []

theorem value_lt (h : IsDigit c) : value c < 16 := by
  unfold IsDigit at h
  unfold value
  split <;> omega

theorem length_decode : ∀ text : List UInt8, (decode text).length = text.length / 2
  | [] => rfl
  | [_] => by simp [decode]
  | hi :: lo :: text => by
    have ih := length_decode text
    simp only [decode, List.length_cons]
    omega

/-- Each byte comes from its own two characters. -/
theorem getD_decode : ∀ (text : List UInt8) (i : Nat), 2 * i + 1 < text.length →
    (decode text).getD i 0 = pair (text.getD (2 * i) 0) (text.getD (2 * i + 1) 0)
  | [], i, h => absurd h (by simp)
  | [_], i, h => absurd h (by simp)
  | hi :: lo :: text, 0, _ => rfl
  | hi :: lo :: text, i + 1, h => by
    have ih := getD_decode text i (by simp only [List.length_cons] at h; omega)
    simpa only [decode, List.getD_cons_succ, Nat.mul_add, Nat.mul_one] using ih

/-! ## Writing -/

/-- The digit of a number below sixteen. -/
def digit (n : Nat) : UInt8 := UInt8.ofNat (if n < 10 then 48 + n else 55 + n)

/-- The text of bytes. -/
def encode (bs : List UInt8) : List UInt8 :=
  bs.flatMap fun b => [digit (b.toNat / 16), digit (b.toNat % 16)]

@[simp] theorem encode_nil : encode [] = [] := rfl

@[simp] theorem encode_cons (b : UInt8) (bs : List UInt8) :
    encode (b :: bs) = digit (b.toNat / 16) :: digit (b.toNat % 16) :: encode bs := rfl

theorem encode_append (bs bs' : List UInt8) : encode (bs ++ bs') = encode bs ++ encode bs' :=
  List.flatMap_append

@[simp] theorem length_encode (bs : List UInt8) : (encode bs).length = 2 * bs.length := by
  induction bs with
  | nil => rfl
  | cons b bs ih =>
    rw [encode_cons, List.length_cons, List.length_cons, ih, List.length_cons]
    omega

theorem isDigit_digit : ∀ n < 16, IsDigit (digit n) := by decide

theorem value_digit : ∀ n < 16, value (digit n) = n := by decide

theorem half_lt (b : UInt8) : b.toNat / 16 < 16 ∧ b.toNat % 16 < 16 := by
  have := b.toNat_lt
  omega

/-- What is written are digits. -/
theorem isDigit_encode {bs : List UInt8} : ∀ c ∈ encode bs, IsDigit c := by
  intro c hc
  obtain ⟨b, -, hb⟩ := List.mem_flatMap.1 hc
  obtain ⟨hhi, hlo⟩ := half_lt b
  simp only [List.mem_cons, List.not_mem_nil, or_false] at hb
  rcases hb with rfl | rfl
  · exact isDigit_digit _ hhi
  · exact isDigit_digit _ hlo

/-- **Round trip.** Bytes are read back from their text. -/
theorem decode_encode (bs : List UInt8) : decode (encode bs) = bs := by
  induction bs with
  | nil => rfl
  | cons b bs ih =>
    obtain ⟨hhi, hlo⟩ := half_lt b
    have hb : 16 * (b.toNat / 16) + b.toNat % 16 = b.toNat := by omega
    rw [encode_cons, decode, ih, pair, value_digit _ hhi, value_digit _ hlo, hb, UInt8.ofNat_toNat]

end HexText
