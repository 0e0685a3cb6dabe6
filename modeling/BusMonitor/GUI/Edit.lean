import BusMonitor.Lib.Decimal
/-!
# Numbers in edit widgets

A page writes a number into an edit widget with `%d`, and reads it with
`EDIT_GetText` and `atoi` into a field of 8 or 16 bits. The number comes
back when the buffer has room for its digits.
-/


namespace BusMonitor

open Decimal

variable {text : List Char} {maxLen : Nat}

/-- `EDIT_GetText`: the buffer ends with a zero, so one character less than
its length is copied. -/
def editGetText (text : List Char) (maxLen : Nat) : List Char := text.take (maxLen - 1)

/-- What `atoi` leaves of a buffer in a field of 16 bits. -/
def wordOf (buf : List Char) : UInt16 := UInt16.ofInt (atoi buf)

/-- What `atoi` leaves of a buffer in a field of 8 bits. -/
def byteOf (buf : List Char) : UInt8 := UInt8.ofInt (atoi buf)

/-- `sprintf(buf, "%d", n)`. -/
def printed (n : Nat) : List Char := Nat.toDigits 10 n

theorem toNat_wordOf (h : Digits text) : (wordOf text).toNat = value text % 2 ^ 16 := by
  unfold wordOf UInt16.ofInt
  rw [atoi_of_digits h, UInt16.toNat_ofNat']
  omega

/-- **A word comes back through a buffer when its digits fit.** -/
theorem wordOf_printed (hm : 1 < maxLen) (w : UInt16) :
    wordOf (editGetText (printed w.toNat) maxLen) = w ↔ w.toNat < 10 ^ (maxLen - 1) := by
  have hk : 0 < maxLen - 1 := by omega
  obtain ⟨m, hle, hread, hfit⟩ := atoi_take_toDigits_le (n := w.toNat) hk
  have hlt := w.toNat_lt
  unfold wordOf UInt16.ofInt editGetText printed
  rw [hread, ← hfit, ← UInt16.toNat_inj, UInt16.toNat_ofNat']
  omega

/-- A byte comes back through any buffer of three digits. -/
theorem byteOf_printed (hm : 4 ≤ maxLen) (b : UInt8) :
    byteOf (editGetText (printed b.toNat) maxLen) = b := by
  have hk : 0 < maxLen - 1 := by omega
  obtain ⟨m, hle, hread, hfit⟩ := atoi_take_toDigits_le (n := b.toNat) hk
  have hlt := b.toNat_lt
  have hpow : 10 ^ 3 ≤ 10 ^ (maxLen - 1) := Nat.pow_le_pow_right (by decide) (by omega)
  have hm : m = b.toNat := hfit.2 (by omega)
  unfold byteOf UInt8.ofInt editGetText printed
  rw [hread, ← UInt8.toNat_inj, UInt8.toNat_ofNat']
  omega

end BusMonitor
