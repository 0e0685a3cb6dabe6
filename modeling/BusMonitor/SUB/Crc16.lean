import BusMonitor.PC.Function
import BusMonitor.Lib.Crc
/-!
# The CRC of the sub-module frames

`CRC16` of `Function.c`: two registers of a byte, and two tables that say
what a byte of the message makes of them. The tables are right in every
entry (`table_eq`), so the registers are those of CRC-16/MODBUS with the
high one as the low byte (`word_crcRegister`).
-/


namespace BusMonitor

set_option maxRecDepth 2000 in
/-- The entries for the high register. -/
def auchCRCHi : Vector UInt8 256 :=
  #v[0x00, 0xC1, 0x81, 0x40, 0x01, 0xC0, 0x80, 0x41, 0x01, 0xC0, 0x80, 0x41, 0x00, 0xC1, 0x81, 0x40,
    0x01, 0xC0, 0x80, 0x41, 0x00, 0xC1, 0x81, 0x40, 0x00, 0xC1, 0x81, 0x40, 0x01, 0xC0, 0x80, 0x41,
    0x01, 0xC0, 0x80, 0x41, 0x00, 0xC1, 0x81, 0x40, 0x00, 0xC1, 0x81, 0x40, 0x01, 0xC0, 0x80, 0x41,
    0x00, 0xC1, 0x81, 0x40, 0x01, 0xC0, 0x80, 0x41, 0x01, 0xC0, 0x80, 0x41, 0x00, 0xC1, 0x81, 0x40,
    0x01, 0xC0, 0x80, 0x41, 0x00, 0xC1, 0x81, 0x40, 0x00, 0xC1, 0x81, 0x40, 0x01, 0xC0, 0x80, 0x41,
    0x00, 0xC1, 0x81, 0x40, 0x01, 0xC0, 0x80, 0x41, 0x01, 0xC0, 0x80, 0x41, 0x00, 0xC1, 0x81, 0x40,
    0x00, 0xC1, 0x81, 0x40, 0x01, 0xC0, 0x80, 0x41, 0x01, 0xC0, 0x80, 0x41, 0x00, 0xC1, 0x81, 0x40,
    0x01, 0xC0, 0x80, 0x41, 0x00, 0xC1, 0x81, 0x40, 0x00, 0xC1, 0x81, 0x40, 0x01, 0xC0, 0x80, 0x41,
    0x01, 0xC0, 0x80, 0x41, 0x00, 0xC1, 0x81, 0x40, 0x00, 0xC1, 0x81, 0x40, 0x01, 0xC0, 0x80, 0x41,
    0x00, 0xC1, 0x81, 0x40, 0x01, 0xC0, 0x80, 0x41, 0x01, 0xC0, 0x80, 0x41, 0x00, 0xC1, 0x81, 0x40,
    0x00, 0xC1, 0x81, 0x40, 0x01, 0xC0, 0x80, 0x41, 0x01, 0xC0, 0x80, 0x41, 0x00, 0xC1, 0x81, 0x40,
    0x01, 0xC0, 0x80, 0x41, 0x00, 0xC1, 0x81, 0x40, 0x00, 0xC1, 0x81, 0x40, 0x01, 0xC0, 0x80, 0x41,
    0x00, 0xC1, 0x81, 0x40, 0x01, 0xC0, 0x80, 0x41, 0x01, 0xC0, 0x80, 0x41, 0x00, 0xC1, 0x81, 0x40,
    0x01, 0xC0, 0x80, 0x41, 0x00, 0xC1, 0x81, 0x40, 0x00, 0xC1, 0x81, 0x40, 0x01, 0xC0, 0x80, 0x41,
    0x01, 0xC0, 0x80, 0x41, 0x00, 0xC1, 0x81, 0x40, 0x00, 0xC1, 0x81, 0x40, 0x01, 0xC0, 0x80, 0x41,
    0x00, 0xC1, 0x81, 0x40, 0x01, 0xC0, 0x80, 0x41, 0x01, 0xC0, 0x80, 0x41, 0x00, 0xC1, 0x81, 0x40]

set_option maxRecDepth 2000 in
/-- The entries for the low register. -/
def auchCRCLo : Vector UInt8 256 :=
  #v[0x00, 0xC0, 0xC1, 0x01, 0xC3, 0x03, 0x02, 0xC2, 0xC6, 0x06, 0x07, 0xC7, 0x05, 0xC5, 0xC4, 0x04,
    0xCC, 0x0C, 0x0D, 0xCD, 0x0F, 0xCF, 0xCE, 0x0E, 0x0A, 0xCA, 0xCB, 0x0B, 0xC9, 0x09, 0x08, 0xC8,
    0xD8, 0x18, 0x19, 0xD9, 0x1B, 0xDB, 0xDA, 0x1A, 0x1E, 0xDE, 0xDF, 0x1F, 0xDD, 0x1D, 0x1C, 0xDC,
    0x14, 0xD4, 0xD5, 0x15, 0xD7, 0x17, 0x16, 0xD6, 0xD2, 0x12, 0x13, 0xD3, 0x11, 0xD1, 0xD0, 0x10,
    0xF0, 0x30, 0x31, 0xF1, 0x33, 0xF3, 0xF2, 0x32, 0x36, 0xF6, 0xF7, 0x37, 0xF5, 0x35, 0x34, 0xF4,
    0x3C, 0xFC, 0xFD, 0x3D, 0xFF, 0x3F, 0x3E, 0xFE, 0xFA, 0x3A, 0x3B, 0xFB, 0x39, 0xF9, 0xF8, 0x38,
    0x28, 0xE8, 0xE9, 0x29, 0xEB, 0x2B, 0x2A, 0xEA, 0xEE, 0x2E, 0x2F, 0xEF, 0x2D, 0xED, 0xEC, 0x2C,
    0xE4, 0x24, 0x25, 0xE5, 0x27, 0xE7, 0xE6, 0x26, 0x22, 0xE2, 0xE3, 0x23, 0xE1, 0x21, 0x20, 0xE0,
    0xA0, 0x60, 0x61, 0xA1, 0x63, 0xA3, 0xA2, 0x62, 0x66, 0xA6, 0xA7, 0x67, 0xA5, 0x65, 0x64, 0xA4,
    0x6C, 0xAC, 0xAD, 0x6D, 0xAF, 0x6F, 0x6E, 0xAE, 0xAA, 0x6A, 0x6B, 0xAB, 0x69, 0xA9, 0xA8, 0x68,
    0x78, 0xB8, 0xB9, 0x79, 0xBB, 0x7B, 0x7A, 0xBA, 0xBE, 0x7E, 0x7F, 0xBF, 0x7D, 0xBD, 0xBC, 0x7C,
    0xB4, 0x74, 0x75, 0xB5, 0x77, 0xB7, 0xB6, 0x76, 0x72, 0xB2, 0xB3, 0x73, 0xB1, 0x71, 0x70, 0xB0,
    0x50, 0x90, 0x91, 0x51, 0x93, 0x53, 0x52, 0x92, 0x96, 0x56, 0x57, 0x97, 0x55, 0x95, 0x94, 0x54,
    0x9C, 0x5C, 0x5D, 0x9D, 0x5F, 0x9F, 0x9E, 0x5E, 0x5A, 0x9A, 0x9B, 0x5B, 0x99, 0x59, 0x58, 0x98,
    0x88, 0x48, 0x49, 0x89, 0x4B, 0x8B, 0x8A, 0x4A, 0x4E, 0x8E, 0x8F, 0x4F, 0x8D, 0x4D, 0x4C, 0x8C,
    0x44, 0x84, 0x85, 0x45, 0x87, 0x47, 0x46, 0x86, 0x82, 0x42, 0x43, 0x83, 0x41, 0x81, 0x80, 0x40]

/-- `uchCRCHi` and `uchCRCLo`. -/
structure CrcRegister where
  uchCRCHi : UInt8
  uchCRCLo : UInt8
  deriving DecidableEq

/-- What a byte of the message does to the registers. -/
def CrcRegister.step (c : CrcRegister) (b : UInt8) : CrcRegister :=
  let uIndex := c.uchCRCHi ^^^ b
  ⟨c.uchCRCLo ^^^ auchCRCHi.get uIndex.toFin, auchCRCLo.get uIndex.toFin⟩

/-- The registers after `n` bytes. -/
def crcRegister (puchMsg : Nat → UInt8) (n : Nat) : CrcRegister :=
  (List.range n).foldl (fun c i => c.step (puchMsg i)) ⟨0xFF, 0xFF⟩

/-- `CRC16`. A message that is too long counts as an empty one. -/
def crc16 (puchMsg : Nat → UInt8) (usDataLen : UInt16) : UInt16 :=
  let c := crcRegister puchMsg (if 2048 < usDataLen then 0 else usDataLen).toNat
  (c.uchCRCHi.toUInt16 <<< 8) ||| c.uchCRCLo.toUInt16

/-! ## The bitwise definition -/

/-- The polynomial of CRC-16/MODBUS, reflected. -/
def polynomial : BitVec 16 := 0xA001#16

/-- CRC-16/MODBUS of the first `n` bytes. -/
def crcModbus (msg : Nat → UInt8) (n : Nat) : UInt16 :=
  ⟨Crc.crc polynomial 0xFFFF#16 msg n⟩

/-- The two bytes of a word exchanged. -/
def exchanged (x : UInt16) : UInt16 := (x <<< 8) ||| (x >>> 8)

/-- The registers as one: the next byte meets `uchCRCHi`. -/
def CrcRegister.word (c : CrcRegister) : BitVec 16 :=
  c.uchCRCLo.toBitVec ++ c.uchCRCHi.toBitVec

/-- Eight shifts of an index. -/
def tableEntry (i : Nat) : BitVec 16 := Crc.shifts polynomial 8 (BitVec.ofNat 16 i)

-- each table is gone through once, as a list
theorem toList_auchCRCHi :
    auchCRCHi.toList = (List.range 256).map fun i => ⟨(tableEntry i).setWidth 8⟩ := by
  decide +kernel

theorem toList_auchCRCLo :
    auchCRCLo.toList = (List.range 256).map fun i => ⟨(tableEntry i >>> 8).setWidth 8⟩ := by
  decide +kernel

theorem get_eq_of_toList {v : Vector UInt8 256} {g : Nat → UInt8}
    (h : v.toList = (List.range 256).map g) (i : Fin 256) : v.get i = g i := by
  have hi : i.val < v.toList.length := by simp
  have hget : v.get i = v.toList[i.val] := rfl
  rw [hget]
  simp only [h, List.getElem_map, List.getElem_range]

/-- **Every entry of the two tables.** -/
theorem table_eq (b : BitVec 8) : Crc.shifts polynomial 8 (b.setWidth 16) =
    (auchCRCLo.get b.toFin).toBitVec ++ (auchCRCHi.get b.toFin).toBitVec := by
  have hentry : Crc.shifts polynomial 8 (b.setWidth 16) = tableEntry b.toFin := by
    rw [tableEntry, ← BitVec.ofNat_toNat]
    rfl
  rw [hentry, get_eq_of_toList toList_auchCRCLo, get_eq_of_toList toList_auchCRCHi]
  apply BitVec.eq_of_getLsbD_eq
  intro i hi
  rw [BitVec.getLsbD_append]
  by_cases h : i < 8
  · simp [h]
  · have hin : i - 8 < 8 := by omega
    simp [h, hin, show 8 + (i - 8) = i by omega]

/-- A high byte moves down eight places as it is. -/
theorem shifts_high (b : BitVec 8) : Crc.shifts polynomial 8 (b ++ 0#8) = b.setWidth 16 := by
  have hlow : ∀ i < 8, (b ++ 0#8).getLsbD i = false := by
    intro i hi
    rw [BitVec.getLsbD_append, if_pos hi]
    exact BitVec.getLsbD_zero
  rw [Crc.shifts_eq_ushiftRight 8 hlow]
  apply BitVec.eq_of_getLsbD_eq
  intro i hi
  have hhigh : ¬ 8 + i < 8 := by omega
  rw [BitVec.getLsbD_ushiftRight, BitVec.getLsbD_append, if_neg hhigh, Nat.add_sub_cancel_left]
  simp [hi]

theorem append_eq (x y : BitVec 8) : x ++ y = y.setWidth 16 ^^^ (x ++ 0#8) := by
  apply BitVec.eq_of_getLsbD_eq
  intro i hi
  simp only [BitVec.getLsbD_append, BitVec.getLsbD_xor, BitVec.getLsbD_setWidth]
  by_cases h : i < 8
  · simp [h, hi]
  · simp [h, BitVec.getLsbD_of_ge y i (by omega)]

theorem append_xor_setWidth (x y z : BitVec 8) :
    (x ++ y) ^^^ z.setWidth 16 = x ++ (y ^^^ z) := by
  apply BitVec.eq_of_getLsbD_eq
  intro i hi
  simp only [BitVec.getLsbD_append, BitVec.getLsbD_xor, BitVec.getLsbD_setWidth]
  by_cases h : i < 8
  · simp [h, hi]
  · simp [h, BitVec.getLsbD_of_ge z i (by omega)]

/-- **The table step is eight shifts.** -/
theorem word_step (c : CrcRegister) (b : UInt8) :
    (c.step b).word = Crc.byte polynomial c.word b := by
  set uIndex := c.uchCRCHi ^^^ b with hu
  have hin : c.word ^^^ b.toBitVec.setWidth 16 =
      uIndex.toBitVec.setWidth 16 ^^^ (c.uchCRCLo.toBitVec ++ 0#8) := by
    rw [CrcRegister.word, append_eq, hu, UInt8.toBitVec_xor, BitVec.setWidth_xor]
    ac_rfl
  rw [Crc.byte, hin, Crc.shifts_xor, table_eq, shifts_high, append_xor_setWidth,
    BitVec.xor_comm (auchCRCHi.get _).toBitVec]
  rfl

theorem word_crcRegister (puchMsg : Nat → UInt8) (n : Nat) :
    (crcRegister puchMsg n).word = Crc.crc polynomial 0xFFFF#16 puchMsg n := by
  induction n with
  | zero => simp [crcRegister, Crc.crc, CrcRegister.word]
  | succ n ih =>
    rw [crcRegister, Crc.crc, List.range_succ, List.foldl_append, List.foldl_append]
    have hstep := word_step (crcRegister puchMsg n) (puchMsg n)
    rw [ih] at hstep
    exact hstep

theorem getLsbD_exchanged (x : UInt16) {i : Nat} (hi : i < 16) :
    (exchanged x).toBitVec.getLsbD i = x.toBitVec.getLsbD (if i < 8 then i + 8 else i - 8) := by
  simp only [exchanged, UInt16.toBitVec_or, UInt16.toBitVec_shiftLeft, UInt16.toBitVec_shiftRight]
  by_cases h : i < 8
  · simp [h, Nat.add_comm]
  · have hout : x.toBitVec.getLsbD (8 + i) = false := BitVec.getLsbD_of_ge _ _ (by omega)
    have hin : i - 8 < 16 := by omega
    simp [h, hi, hout, ← BitVec.getLsbD_eq_getElem hin]

theorem exchanged_exchanged (x : UInt16) : exchanged (exchanged x) = x := by
  apply UInt16.toBitVec_inj.1
  apply BitVec.eq_of_getLsbD_eq
  intro i hi
  rw [getLsbD_exchanged _ hi]
  split
  · rw [getLsbD_exchanged _ (by omega), if_neg (by omega), Nat.add_sub_cancel]
  · rw [getLsbD_exchanged _ (by omega), if_pos (by omega), Nat.sub_add_cancel (by omega)]

theorem exchanged_word (c : CrcRegister) :
    exchanged ⟨c.word⟩ = (c.uchCRCHi.toUInt16 <<< 8) ||| c.uchCRCLo.toUInt16 := by
  apply UInt16.toBitVec_inj.1
  apply BitVec.eq_of_getLsbD_eq
  intro i hi
  rw [getLsbD_exchanged _ hi]
  have hword : ∀ k, c.word.getLsbD k =
      if k < 8 then c.uchCRCHi.toBitVec.getLsbD k else c.uchCRCLo.toBitVec.getLsbD (k - 8) := by
    intro k
    rw [CrcRegister.word]
    exact BitVec.getLsbD_append
  rw [hword]
  simp only [UInt16.toBitVec_or, UInt16.toBitVec_shiftLeft, UInt8.toBitVec_toUInt16,
    BitVec.getLsbD_or]
  by_cases h : i < 8
  · have hhi : ¬ i + 8 < 8 := by omega
    simp [h, hi, hhi]
  · have hout : c.uchCRCLo.toBitVec.getLsbD i = false := BitVec.getLsbD_of_ge _ _ (by omega)
    have hin : i - 8 < 8 := by omega
    simp [h, hi, hout, hin]

/-- **The table CRC is the bitwise CRC**, its bytes exchanged. -/
theorem crc16_eq_crcModbus (puchMsg : Nat → UInt8) (usDataLen : UInt16) (h : usDataLen ≤ 2048) :
    crc16 puchMsg usDataLen = exchanged (crcModbus puchMsg usDataLen.toNat) := by
  have hlen : ¬ 2048 < usDataLen := by simpa using h
  rw [crc16, if_neg hlen, crcModbus, ← word_crcRegister, exchanged_word]

theorem crc16_eq_crcModbus_nine :
    crc16 (fun i => UInt8.ofNat (49 + i)) 9 =
      exchanged (crcModbus (fun i => UInt8.ofNat (49 + i)) 9) :=
  crc16_eq_crcModbus _ 9 (by decide)

/-- **Bursts of at most sixteen bits are detected.** -/
theorem crc16_ne_of_burst (puchMsg puchMsg' : Nat → UInt8) (usDataLen : UInt16)
    (h : usDataLen ≤ 2048) (hne : ∃ i < usDataLen.toNat, puchMsg i ≠ puchMsg' i) (s : Nat)
    (hs : ∀ i < 8 * usDataLen.toNat, Crc.bitAt puchMsg i ≠ Crc.bitAt puchMsg' i →
      s ≤ i ∧ i < s + 16) :
    crc16 puchMsg usDataLen ≠ crc16 puchMsg' usDataLen := by
  have hlen : ¬ 2048 < usDataLen := by simpa using h
  have hcrc := Crc.crc_ne (c := 0xFFFF#16) (p := polynomial) (by decide) (by decide) hne hs
  intro heq
  rw [crc16, crc16, if_neg hlen, ← exchanged_word, ← exchanged_word, word_crcRegister,
    word_crcRegister] at heq
  have hword := congrArg exchanged heq
  rw [exchanged_exchanged, exchanged_exchanged] at hword
  exact hcrc (congrArg UInt16.toBitVec hword)

theorem crc16_ne_of_burst_one :
    crc16 (fun _ => 0) 3 ≠ crc16 (fun i => if i = 1 then 0x80 else 0) 3 :=
  crc16_ne_of_burst _ _ 3 (by decide) ⟨1, by decide, by decide⟩ 8 (by decide)

end BusMonitor
