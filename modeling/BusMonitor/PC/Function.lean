import BusMonitor.Lib.HexText
import Mathlib.Algebra.BigOperators.Group.List.Basic
import Mathlib.Algebra.GroupWithZero.Nat
/-!
# Characters and checksums of the PC protocol

`ASCII2HEX`, `CHKsum` and `LCHKsum` of `Function.c`. A frame travels as
hexadecimal text between two markers. `ASCII2HEX` takes whatever
characters it is given, and those that are no digits count as zero.
-/


namespace BusMonitor

open HexText

variable {c hi lo : UInt8} {data : Nat → UInt8} {len : UInt16}

/-- `ASCII_Table`: the number a character stands for, zero for every
character that is no digit. -/
def asciiTable (c : UInt8) : UInt8 :=
  if 0x30 ≤ c ∧ c ≤ 0x39 then c - 0x30
  else if 0x41 ≤ c ∧ c ≤ 0x46 then c - 0x37
  else 0

/-- One byte of `ASCII2HEX`. -/
def ascii2hexByte (hi lo : UInt8) : UInt8 := ((asciiTable hi <<< 4) &&& 0xF0) + asciiTable lo

/-- `ASCII2HEX`: the bytes of `len` pairs of characters. -/
def ascii2hex (sdata : Nat → UInt8) (len : Nat) : List UInt8 :=
  (List.range len).map fun i => ascii2hexByte (sdata (i * 2)) (sdata (i * 2 + 1))

/-- `HEX_Table`: the character of a number below sixteen. -/
def hexTable (i : UInt8) : UInt8 :=
  [0x30, 0x31, 0x32, 0x33, 0x34, 0x35, 0x36, 0x37, 0x38, 0x39,
    0x41, 0x42, 0x43, 0x44, 0x45, 0x46].getD i.toNat 0

/-- `HEX2ASCII`: two characters for each of `len` bytes. -/
def hex2ascii (sdata : Nat → UInt8) (len : Nat) : List UInt8 :=
  (List.range len).flatMap fun i =>
    [hexTable ((sdata i >>> 4) &&& 0x0F), hexTable (sdata i &&& 0x0F)]

/-- A word in the byte order of the frame, high byte first. -/
def rev16 (hi lo : UInt8) : UInt16 := (hi.toUInt16 <<< 8) ||| lo.toUInt16

/-- The two bytes of a word, high byte first. -/
def bigEndian (w : UInt16) : List UInt8 := [(w >>> 8).toUInt8, w.toUInt8]

/-- `CHKsum`: the two's complement of the sum of the bytes after the
first one. -/
def chksum (data : Nat → UInt8) (len : UInt16) : UInt16 :=
  ~~~((List.range' 1 (len.toNat - 1)).foldl (fun sum i => sum + (data i).toUInt16) 0) + 1

/-- `LCHKsum`: a length with the checksum of its three digits on top. -/
def lchksum (data : UInt16) : UInt16 :=
  let digit : UInt16 := 0x000F
  let sum := (data &&& digit) + ((data >>> 4) &&& digit) + ((data >>> 8) &&& digit)
  (((~~~(sum % 16) + 1) &&& digit) <<< 12) ||| data

/-! ## What they compute -/

/-- On a digit the table agrees with the text's own reading. -/
theorem toNat_asciiTable (h : IsDigit c) : (asciiTable c).toNat = value c := by
  unfold IsDigit at h
  unfold asciiTable value
  simp only [UInt8.le_iff_toNat_le, UInt8.reduceToNat]
  split
  · rw [UInt8.toNat_sub_of_le _ _ (by rw [UInt8.le_iff_toNat_le]; simp; omega), if_pos (by omega)]
    simp
  · rw [if_pos (by omega), if_neg (by omega),
      UInt8.toNat_sub_of_le _ _ (by rw [UInt8.le_iff_toNat_le]; simp; omega)]
    simp

theorem ascii2hexByte_eq (hhi : IsDigit hi) (hlo : IsDigit lo) :
    ascii2hexByte hi lo = pair hi lo := by
  have h₁ := toNat_asciiTable hhi
  have h₂ := toNat_asciiTable hlo
  have l₁ := value_lt hhi
  have l₂ := value_lt hlo
  -- the shifted half is below 256, so the mask and the sum lose nothing
  have hx : ∀ a < 16, ((UInt8.ofNat a <<< 4) &&& 0xF0).toNat = 16 * a := by decide
  have ha : asciiTable hi = UInt8.ofNat (value hi) := by rw [← h₁, UInt8.ofNat_toNat]
  apply UInt8.toNat.inj
  unfold ascii2hexByte pair
  rw [UInt8.toNat_add, ha, hx _ l₁, h₂, UInt8.toNat_ofNat']

@[simp] theorem length_ascii2hex (sdata : Nat → UInt8) (n : Nat) :
    (ascii2hex sdata n).length = n := by
  simp [ascii2hex]

theorem getD_ascii2hex {sdata : Nat → UInt8} {n i : Nat} (hi : i < n) :
    (ascii2hex sdata n).getD i 0 = ascii2hexByte (sdata (i * 2)) (sdata (i * 2 + 1)) := by
  simp [ascii2hex, hi]

/-- **On text, `ASCII2HEX` is the decoding.** -/
theorem ascii2hex_eq_decode {text : List UInt8} {n : Nat} {sdata : Nat → UInt8}
    (hlen : text.length = 2 * n) (hs : ∀ i < 2 * n, sdata i = text.getD i 0)
    (hd : ∀ c ∈ text, IsDigit c) : ascii2hex sdata n = decode text := by
  have hdig : ∀ i < 2 * n, IsDigit (text.getD i 0) := by
    intro i hi
    rw [List.getD_eq_getElem _ _ (by omega)]
    exact hd _ (List.getElem_mem _)
  refine List.ext_getElem (by rw [length_ascii2hex, length_decode]; omega) fun i h₁ h₂ => ?_
  rw [length_ascii2hex] at h₁
  rw [← List.getD_eq_getElem _ 0 h₂, getD_decode _ _ (by omega), ← List.getD_eq_getElem _ 0,
    getD_ascii2hex h₁, hs _ (by omega), hs _ (by omega), Nat.mul_comm i 2,
    ascii2hexByte_eq (hdig _ (by omega)) (hdig _ (by omega))]

/-- **`HEX2ASCII` writes the text** of the bytes. -/
theorem hex2ascii_eq_encode (sdata : Nat → UInt8) (len : Nat) :
    hex2ascii sdata len = encode ((List.range len).map sdata) := by
  have hbyte : ∀ n < 256, hexTable ((UInt8.ofNat n >>> 4) &&& 0x0F) = digit (n / 16) ∧
      hexTable (UInt8.ofNat n &&& 0x0F) = digit (n % 16) := by decide +kernel
  unfold hex2ascii encode
  rw [List.flatMap_map]
  refine List.flatMap_congr fun i _ => ?_
  obtain ⟨hhi, hlo⟩ := hbyte _ (sdata i).toNat_lt
  rw [UInt8.ofNat_toNat] at hhi hlo
  rw [hhi, hlo]

/-- A sum of bytes in 16 bits is the sum modulo `2 ^ 16`. -/
theorem toNat_foldl_add (is : List Nat) (a : UInt16) :
    (is.foldl (fun sum i => sum + (data i).toUInt16) a).toNat =
      (a.toNat + (is.map fun i => (data i).toNat).sum) % 65536 := by
  induction is generalizing a with
  | nil => simp
  | cons i is ih =>
    have hadd : (a + (data i).toUInt16).toNat = (a.toNat + (data i).toNat) % 65536 := by
      simp [UInt16.toNat_add]
    rw [List.foldl_cons, ih, hadd, List.map_cons, List.sum_cons]
    omega

theorem toNat_chksum : (chksum data len).toNat =
    (65536 - ((List.range' 1 (len.toNat - 1)).map fun i => (data i).toNat).sum % 65536) %
      65536 := by
  have h : ((List.range' 1 (len.toNat - 1)).foldl (fun sum i => sum + (data i).toUInt16) 0).toNat =
    _ := toNat_foldl_add _ 0
  unfold chksum
  rw [UInt16.toNat_add, UInt16.toNat_not, h]
  simp
  omega

theorem toNat_and15 (w : UInt16) : (w &&& 0x000F).toNat = w.toNat % 16 := by
  have h := Nat.and_two_pow_sub_one_eq_mod w.toNat 4
  simpa [UInt16.toNat_and] using h

/-- The checksum of the three digits stands above them. -/
theorem toNat_lchksum {lenid : Nat} (h : lenid ≤ 0xFFF) :
    (lchksum (UInt16.ofNat lenid)).toNat =
      (16 - (lenid % 16 + lenid / 16 % 16 + lenid / 256 % 16) % 16) % 16 * 4096 + lenid := by
  have hL : (UInt16.ofNat lenid).toNat = lenid := by
    rw [UInt16.toNat_ofNat']
    omega
  have h4 : (UInt16.ofNat lenid >>> 4).toNat = lenid / 16 := by
    rw [UInt16.toNat_shiftRight, hL]
    simp [Nat.shiftRight_eq_div_pow]
  have h8 : (UInt16.ofNat lenid >>> 8).toNat = lenid / 256 := by
    rw [UInt16.toNat_shiftRight, hL]
    simp [Nat.shiftRight_eq_div_pow]
  unfold lchksum
  dsimp only
  generalize hs : (UInt16.ofNat lenid &&& (0x000F : UInt16)) +
    ((UInt16.ofNat lenid >>> 4) &&& (0x000F : UInt16)) +
    ((UInt16.ofNat lenid >>> 8) &&& (0x000F : UInt16)) = sum
  have hsum : sum.toNat = lenid % 16 + lenid / 16 % 16 + lenid / 256 % 16 := by
    rw [← hs, UInt16.toNat_add, UInt16.toNat_add, toNat_and15, toNat_and15, toNat_and15, hL, h4, h8]
    omega
  have hneg : ((~~~(sum % 16) + 1) &&& (0x000F : UInt16)).toNat = (16 - sum.toNat % 16) % 16 := by
    rw [toNat_and15, UInt16.toNat_add, UInt16.toNat_not, UInt16.toNat_mod]
    simp only [UInt16.reduceToNat, UInt16.size, Nat.reducePow]
    omega
  have hor : ((16 - sum.toNat % 16) % 16) <<< 12 ||| lenid =
      ((16 - sum.toNat % 16) % 16) <<< 12 + lenid :=
    (Nat.shiftLeft_add_eq_or_of_lt (by omega) _).symm
  rw [UInt16.toNat_or, UInt16.toNat_shiftLeft, hneg, hL]
  simp only [UInt16.reduceToNat, Nat.reduceMod]
  rw [Nat.mod_eq_of_lt (by rw [Nat.shiftLeft_eq]; omega), hor, Nat.shiftLeft_eq, hsum]

theorem toNat_rev16 : (rev16 hi lo).toNat = 256 * hi.toNat + lo.toNat := by
  have hsh : hi.toNat <<< 8 = 256 * hi.toNat := by
    rw [Nat.shiftLeft_eq, Nat.mul_comm]
  have hor : hi.toNat <<< 8 ||| lo.toNat = hi.toNat <<< 8 + lo.toNat :=
    (Nat.shiftLeft_add_eq_or_of_lt lo.toNat_lt _).symm
  have := hi.toNat_lt
  unfold rev16
  rw [UInt16.toNat_or, UInt16.toNat_shiftLeft, UInt8.toNat_toUInt16, UInt8.toNat_toUInt16]
  simp only [UInt16.reduceToNat, Nat.reduceMod]
  rw [Nat.mod_eq_of_lt (by omega), hor, hsh]

/-- Two bytes make a word exactly when they are its bytes. -/
theorem rev16_eq_iff {w : UInt16} : rev16 hi lo = w ↔ [hi, lo] = bigEndian w := by
  have h₁ : ((w >>> 8).toUInt8).toNat = w.toNat / 256 := by
    have := w.toNat_lt
    simp [Nat.shiftRight_eq_div_pow]
    omega
  have h₂ : w.toUInt8.toNat = w.toNat % 256 := by simp
  have := hi.toNat_lt
  have := lo.toNat_lt
  simp only [bigEndian, List.cons.injEq, and_true, ← UInt16.toNat_inj, ← UInt8.toNat_inj, h₁, h₂,
    toNat_rev16]
  omega

end BusMonitor
