import BusMonitor.ATT.Read
import Mathlib.Algebra.BigOperators.Fin
/-!
# The calibration registers

`DA_ATT_Init` and `DA_ATT_Check` of `bsp_ATT.c`. Init writes the stored
block of a chip to its registers, compares the checksum of the chip with
that of the block and only then overrides the register `0x83`; Check
computes the checksum of the block and takes the override into account as
a difference of `0x80`. The chip answers as it is documented: the register
`0x3E` is `0x5500` plus the sum of the calibration registers, and transfers
succeed. `calibrated_iff` says for which blocks the two routines agree.
-/


namespace BusMonitor

open Stepwise

/-! ## The chip -/

/-- The registers of a chip. -/
abbrev Chip := UInt8 → BitVec 24

/-- The address of a calibration register. -/
def calAddr (i : Nat) : UInt8 := 0x81 + UInt8.ofNat i

/-- The register `0x3E`. -/
def Chip.sum (c : Chip) : BitVec 24 :=
  BitVec.ofNat 24 (0x5500 + ∑ i : Fin 55, (c (calAddr i)).toNat)

/-- A transfer that succeeds. -/
def answer (ucRegAddr : UInt8) (v : BitVec 24) : Transfer :=
  let b0 : UInt8 := ⟨v.extractLsb' 16 8⟩
  let b1 : UInt8 := ⟨v.extractLsb' 8 8⟩
  let b2 : UInt8 := ⟨v.extractLsb' 0 8⟩
  let sum := b0.toUInt32 + b1.toUInt32 + b2.toUInt32 + ucRegAddr.toUInt32
  ⟨#v[b0, b1, b2], #v[ucRegAddr, (sum >>> 8).toUInt8, sum.toUInt8]⟩

/-- `DA_ATT_WriteReg`: the low three bytes of the cache go to the register. -/
def Chip.write (c : Chip) (w : UInt8 × UInt32) : Chip :=
  Function.update c w.1 (w.2.toBitVec.setWidth 24)

/-- Registers written one after another. -/
def Chip.writeAll (c : Chip) (ws : List (UInt8 × UInt32)) : Chip := ws.foldl Chip.write c

/-! ## The block -/

/-- `FMAddr_ATT1_CalData` and `FMAddr_ATT2_CalData`. -/
def fmAddrCalData (j : Fin 2) : Nat := if j = 0 then 0x0002 else 0x0078

/-- `ucCalParam`, read from the FRAM. -/
def ucCalParam (fram : Mem) (j : Fin 2) (k : Nat) : UInt8 := fram (fmAddrCalData j + k)

section block

variable (p : Nat → UInt8)

/-- A word of the block. -/
def calWord (i : Nat) : UInt32 := (p (i * 2 + 1)).toUInt32 <<< 8 ||| (p (i * 2)).toUInt32

/-- The sum of the words. -/
def calSum : UInt32 := (List.range 0x37).foldl (fun s i => s + calWord p i) 0

/-- The writes of the words to their registers. -/
def calWrites : List (UInt8 × UInt32) :=
  (List.range 0x37).map fun i => (calAddr i, calWord p i)

/-- `uiReadSum` after the register `0x3E` is read over the last word of the
block. -/
def readSum (c : Chip) (uiReadSum : UInt32) : UInt32 :=
  let r := daATTReadReg 0x3E (answer 0x3E c.sum) (calWord p 0x36)
  if r.1 = 0 then r.2 else uiReadSum

end block

def writeEnable : UInt8 × UInt32 := (0xC9, 0x00005A)
def writeDisable : UInt8 × UInt32 := (0xC9, 0x000000)

/-- The energy registers are cleared when read. -/
def clearOnRead : UInt8 × UInt32 := (0x83, 0x00FC84)

/-! ## The routines -/

/-- What `DA_ATT_Init` keeps while it loads a chip. -/
structure CalLoad where
  chip : Chip
  uiCheckSum : UInt32
  uiReadSum : UInt32
  ucConter : Nat

/-- The body of the `while` loop. -/
def CalLoad.pass (p : Nat → UInt8) (s : CalLoad) : CalLoad :=
  let chip := s.chip.writeAll (calWrites p)
  ⟨chip, calSum p + 0x5500, readSum p chip s.uiReadSum, s.ucConter + 1⟩

/-- The `while` loop, which `ucConter` ends after five passes at most. -/
def CalLoad.loop (p : Nat → UInt8) : Nat → CalLoad → CalLoad
  | 0, s => s
  | n + 1, s =>
    if s.uiCheckSum = s.uiReadSum then s
    else
      let s := s.pass p
      if s.ucConter = 5 then { s with ucConter := 0 } else s.loop p n

/-- `DA_ATT_Init` for one chip, with what the stack holds in `uiCheckSum`:
the chip and `ucConter`. -/
def initChip (p : Nat → UInt8) (uiCheckSum : UInt32) (c : Chip) (ucConter : Nat) : Chip × Nat :=
  let s := CalLoad.loop p 5 ⟨c.write writeEnable, uiCheckSum, 0xFF, ucConter⟩
  ((s.chip.write clearOnRead).write writeDisable, s.ucConter)

/-- `DA_ATT_Init`. -/
def daATTInit (fram : Mem) (uiCheckSum : Fin 2 → UInt32) (chips : Fin 2 → Chip) : Fin 2 → Chip :=
  let first := initChip (ucCalParam fram 0) (uiCheckSum 0) (chips 0) 0
  let second := initChip (ucCalParam fram 1) (uiCheckSum 1) (chips 1) first.2
  fun j => if j = 0 then first.1 else second.1

/-- The test of `DA_ATT_Check`. -/
def Mismatch (p : Nat → UInt8) (c : Chip) : Prop := calSum p + 0x5500 ≠ readSum p c 0 - 0x0080

instance (p : Nat → UInt8) (c : Chip) : Decidable (Mismatch p c) :=
  inferInstanceAs (Decidable (_ ≠ _))

/-- `DA_ATT_Check`: the registers it writes. -/
def daATTCheck (p : Nat → UInt8) (c : Chip) : List (UInt8 × UInt32) :=
  if Mismatch p c then writeEnable :: calWrites p ++ [clearOnRead, writeDisable] else []

/-! ## Transfers that succeed -/

section answer

variable {ucRegAddr : UInt8} {v : BitVec 24} {p : Nat → UInt8} {c c' : Chip} {i k : Nat}

theorem toNat_word (hi lo : UInt8) :
    (hi.toUInt32 <<< 8 ||| lo.toUInt32).toNat = 256 * hi.toNat + lo.toNat := by
  have hsh : hi.toNat <<< 8 = 256 * hi.toNat := by
    rw [Nat.shiftLeft_eq, Nat.mul_comm]
  have hor : hi.toNat <<< 8 ||| lo.toNat = hi.toNat <<< 8 + lo.toNat :=
    (Nat.shiftLeft_add_eq_or_of_lt lo.toNat_lt _).symm
  have := hi.toNat_lt
  rw [UInt32.toNat_or, UInt32.toNat_shiftLeft, UInt8.toNat_toUInt32, UInt8.toNat_toUInt32]
  simp only [UInt32.reduceToNat, Nat.reduceMod]
  rw [Nat.mod_eq_of_lt (by omega), hor, hsh]

/-- The two bytes of a sum make it again. -/
theorem word_bytes {s : UInt32} (h : s.toNat < 65536) :
    (s >>> 8).toUInt8.toUInt32 <<< 8 ||| s.toUInt8.toUInt32 = s := by
  apply UInt32.toNat.inj
  rw [toNat_word]
  simp [Nat.shiftRight_eq_div_pow]
  omega

theorem good_answer : (answer ucRegAddr v).Good ucRegAddr := by
  have hsum : ∀ b0 b1 b2 : UInt8,
      (b0.toUInt32 + b1.toUInt32 + b2.toUInt32 + ucRegAddr.toUInt32).toNat < 65536 := by
    intro b0 b1 b2
    have h0 := b0.toNat_lt
    have h1 := b1.toNat_lt
    have h2 := b2.toNat_lt
    have ha := ucRegAddr.toNat_lt
    simp only [UInt32.toNat_add, UInt8.toNat_toUInt32]
    omega
  exact ⟨rfl, (word_bytes (hsum _ _ _)).symm⟩

theorem register_answer : (answer ucRegAddr v).register = v := by
  change v.extractLsb' 16 8 ++ v.extractLsb' 8 8 ++ v.extractLsb' 0 8 = v
  apply BitVec.eq_of_getLsbD_eq
  intro i hi
  rw [BitVec.getLsbD_append, BitVec.getLsbD_append, BitVec.getLsbD_extractLsb',
    BitVec.getLsbD_extractLsb', BitVec.getLsbD_extractLsb']
  by_cases h8 : i < 8
  · simp [h8]
  · by_cases h16 : i - 8 < 8
    · simp [h8, h16, show 8 + (i - 8) = i by omega]
    · simp [h8, h16, show 16 + (i - 8 - 8) = i by omega, show i - 8 - 8 < 8 by omega]

theorem toNat_calWord (i : Nat) :
    (calWord p i).toNat = 256 * (p (i * 2 + 1)).toNat + (p (i * 2)).toNat := toNat_word ..

theorem calWord_lt (i : Nat) : (calWord p i).toNat < 65536 := by
  have := (p (i * 2 + 1)).toNat_lt
  have := (p (i * 2)).toNat_lt
  rw [toNat_calWord]
  omega

theorem calWord_low (i : Nat) : calWord p i >>> 24 = 0 := by
  apply UInt32.toNat.inj
  have := calWord_lt (p := p) i
  rw [UInt32.toNat_shiftRight, Nat.shiftRight_eq_div_pow]
  simp only [UInt32.reduceToNat, Nat.reduceMod, Nat.reducePow]
  omega

/-- The sum of the calibration registers. -/
def Chip.total (c : Chip) : Nat := ∑ i : Fin 55, (c (calAddr i)).toNat

theorem toNat_readSum (old : UInt32) :
    (readSum p c old).toNat = (0x5500 + c.total) % 2 ^ 24 := by
  have hread : daATTReadReg 0x3E (answer 0x3E c.sum) (calWord p 0x36) =
      (0, fillCache (calWord p 0x36) c.sum) := by
    rw [daATTReadReg, if_pos good_answer, register_answer]
  rw [readSum, hread]
  change (fillCache (calWord p 0x36) c.sum).toNat = _
  rw [toNat_fillCache (calWord_low _), Chip.sum, BitVec.toNat_ofNat]
  rfl

theorem toNat_foldl_words (g : Nat → UInt32) (hg : ∀ i, (g i).toNat < 65536) {n : Nat}
    (hn : n ≤ 55) : ((List.range n).foldl (fun s i => s + g i) 0).toNat =
      ∑ i ∈ Finset.range n, (g i).toNat ∧ ∑ i ∈ Finset.range n, (g i).toNat ≤ n * 65536 := by
  induction n with
  | zero => exact ⟨rfl, by simp⟩
  | succ n ih =>
    obtain ⟨hsum, hle⟩ := ih (by omega)
    have hword := hg n
    rw [List.range_succ, List.foldl_append, Finset.sum_range_succ]
    refine ⟨?_, by omega⟩
    rw [List.foldl_cons, List.foldl_nil, UInt32.toNat_add, hsum]
    omega

theorem toNat_calSum : (calSum p).toNat = ∑ i : Fin 55, (calWord p i).toNat ∧
    (calSum p).toNat ≤ 55 * 65536 := by
  obtain ⟨hsum, hle⟩ := toNat_foldl_words (calWord p) calWord_lt (le_refl 55)
  rw [← hsum] at hle
  exact ⟨hsum.trans (Finset.sum_range fun i => (calWord p i).toNat), hle⟩

/-! ## What is written -/

theorem toNat_calAddr (hi : i < 55) : (calAddr i).toNat = 0x81 + i := by
  rw [calAddr, UInt8.toNat_add, UInt8.toNat_ofNat']
  simp only [UInt8.reduceToNat]
  omega

theorem calAddr_inj (hi : i < 55) (hk : k < 55) (h : calAddr i = calAddr k) : i = k := by
  have hnat := congrArg UInt8.toNat h
  rw [toNat_calAddr hi, toNat_calAddr hk] at hnat
  omega

theorem write_of_ne {w : UInt8 × UInt32} {a : UInt8} (h : a ≠ w.1) : c.write w a = c a :=
  Function.update_of_ne h ..

theorem writeAll_append (c : Chip) (ws ws' : List (UInt8 × UInt32)) :
    c.writeAll (ws ++ ws') = (c.writeAll ws).writeAll ws' :=
  List.foldl_append

/-- The words reach their registers. -/
theorem writeAll_words {n : Nat} (hn : n ≤ 55) (c : Chip) :
    (∀ i < n, c.writeAll ((List.range n).map fun i => (calAddr i, calWord p i)) (calAddr i) =
      (calWord p i).toBitVec.setWidth 24) ∧
    ∀ a, (∀ i < n, a ≠ calAddr i) →
      c.writeAll ((List.range n).map fun i => (calAddr i, calWord p i)) a = c a := by
  induction n with
  | zero => exact ⟨fun i hi => absurd hi (Nat.not_lt_zero i), fun _ _ => rfl⟩
  | succ n ih =>
    obtain ⟨hin, hout⟩ := ih (by omega)
    have hlast : c.writeAll ((List.range (n + 1)).map fun i => (calAddr i, calWord p i)) =
        (c.writeAll ((List.range n).map fun i => (calAddr i, calWord p i))).write
          (calAddr n, calWord p n) := by
      rw [List.range_succ, List.map_append, writeAll_append]
      rfl
    rw [hlast]
    constructor
    · intro i hi
      unfold Chip.write
      by_cases h : i = n
      · rw [h, Function.update_self]
      · rw [Function.update_of_ne fun ha => h (calAddr_inj (by omega) (by omega) ha),
          hin i (by omega)]
    · intro a ha
      unfold Chip.write
      rw [Function.update_of_ne (ha n (by omega)), hout a fun i hi => ha i (by omega)]

theorem toNat_setWidth_calWord (i : Nat) :
    ((calWord p i).toBitVec.setWidth 24).toNat = (calWord p i).toNat := by
  have := calWord_lt (p := p) i
  rw [BitVec.toNat_setWidth]
  exact Nat.mod_eq_of_lt (by change (calWord p i).toNat < _; omega)

end answer

/-! ## Loading -/

section load

variable {p : Nat → UInt8} {c c' : Chip} {st : UInt32} {i k : Nat}

/-- The registers a load leaves. -/
def left (p : Nat → UInt8) (c : Chip) : Chip :=
  c.writeAll (writeEnable :: calWrites p ++ [clearOnRead, writeDisable])

theorem left_apply (p : Nat → UInt8) (c : Chip) : left p c =
    ((((c.write writeEnable).writeAll (calWrites p)).write clearOnRead).write writeDisable) := by
  rw [left, List.cons_append, Chip.writeAll, List.foldl_cons, List.foldl_append]
  rfl

theorem left_disabled (p : Nat → UInt8) (c : Chip) : left p c 0xC9 = 0 := by
  rw [left_apply]
  exact Function.update_self ..

theorem left_override (p : Nat → UInt8) (c : Chip) : left p c 0x83 = 0x00FC84 := by
  rw [left_apply]
  exact (write_of_ne (w := writeDisable) (by decide)).trans (Function.update_self ..)

theorem left_of_ne (p : Nat → UInt8) (c : Chip) {a : UInt8} (h₁ : a ≠ 0xC9) (h₂ : a ≠ 0x83) :
    left p c a = (c.write writeEnable).writeAll (calWrites p) a := by
  rw [left_apply]
  exact (write_of_ne (w := writeDisable) h₁).trans (write_of_ne (w := clearOnRead) h₂)

theorem calAddr_ne (hi : i < 55) (h2 : i ≠ 2) : calAddr i ≠ 0xC9 ∧ calAddr i ≠ 0x83 := by
  have hnat := toNat_calAddr hi
  constructor
  · intro h
    rw [h] at hnat
    simp only [UInt8.reduceToNat] at hnat
    omega
  · intro h
    rw [h] at hnat
    simp only [UInt8.reduceToNat] at hnat
    omega

/-- The write protection, what a load leaves alone, the override, and the
registers that hold their words. -/
theorem addr_cases (a : UInt8) : a = 0xC9 ∨ (a ≠ 0xC9 ∧ ∀ i < 55, a ≠ calAddr i) ∨ a = 0x83 ∨
    ∃ i < 55, i ≠ 2 ∧ a = calAddr i := by
  by_cases h₁ : a = 0xC9
  · exact .inl h₁
  · by_cases hcal : ∀ i < 55, a ≠ calAddr i
    · exact .inr (.inl ⟨h₁, hcal⟩)
    · push Not at hcal
      obtain ⟨i, hi, rfl⟩ := hcal
      by_cases h2 : i = 2
      · rw [h2]
        exact .inr (.inr (.inl rfl))
      · exact .inr (.inr (.inr ⟨i, hi, h2, rfl⟩))

/-- A load brings the words to their registers. -/
theorem left_word (p : Nat → UInt8) (c : Chip) (hi : i < 55) (h2 : i ≠ 2) :
    left p c (calAddr i) = (calWord p i).toBitVec.setWidth 24 := by
  obtain ⟨h₁, h₂⟩ := calAddr_ne hi h2
  rw [left_of_ne p c h₁ h₂]
  exact (writeAll_words (le_refl 55) _).1 i hi

/-- What else the chip holds is not touched. -/
theorem left_other (p : Nat → UInt8) (c : Chip) {a : UInt8} (h₁ : a ≠ 0xC9)
    (h : ∀ i < 55, a ≠ calAddr i) : left p c a = c a := by
  rw [left_of_ne p c h₁ (h 2 (by omega))]
  exact ((writeAll_words (le_refl 55) _).2 a h).trans (write_of_ne (w := writeEnable) h₁)

/-- **A load restores** what was changed in the calibration registers. -/
theorem left_congr (h : ∀ a, a ≠ 0xC9 → (∀ i < 55, a ≠ calAddr i) → c a = c' a) :
    left p c = left p c' := by
  funext a
  obtain rfl | ⟨h₁, hcal⟩ | rfl | ⟨i, hi, h2, rfl⟩ := addr_cases a
  · rw [left_disabled, left_disabled]
  · rw [left_other p c h₁ hcal, left_other p c' h₁ hcal, h a h₁ hcal]
  · rw [left_override, left_override]
  · rw [left_word p c hi h2, left_word p c' hi h2]

/-- The skipped loop leaves the registers as they were. -/
def skipped (c : Chip) : Chip := ((c.write writeEnable).write clearOnRead).write writeDisable

theorem skipped_override (c : Chip) : skipped c 0x83 = 0x00FC84 := by
  exact (write_of_ne (w := writeDisable) (by decide)).trans (Function.update_self ..)

theorem skipped_cal (c : Chip) (hi : i < 55) (h2 : i ≠ 2) :
    skipped c (calAddr i) = c (calAddr i) := by
  obtain ⟨h₁, h₂⟩ := calAddr_ne hi h2
  exact (write_of_ne (w := writeDisable) h₁).trans
    ((write_of_ne (w := clearOnRead) h₂).trans (write_of_ne (w := writeEnable) h₁))

/-- The chip confirms the block it was given. -/
theorem readSum_calWrites (p : Nat → UInt8) (c : Chip) (old : UInt32) :
    readSum p (c.writeAll (calWrites p)) old = calSum p + 0x5500 := by
  obtain ⟨hsum, hle⟩ := toNat_calSum (p := p)
  have htotal : (c.writeAll (calWrites p)).total = (calSum p).toNat := by
    rw [hsum]
    refine Finset.sum_congr rfl fun i _ => ?_
    rw [← toNat_setWidth_calWord]
    exact congrArg BitVec.toNat ((writeAll_words (le_refl 55) c).1 i i.isLt)
  apply UInt32.toNat.inj
  rw [toNat_readSum, htotal, UInt32.toNat_add]
  simp only [UInt32.reduceToNat]
  omega

theorem CalLoad.pass_confirmed (s : CalLoad) : (s.pass p).uiCheckSum = (s.pass p).uiReadSum := by
  rw [CalLoad.pass]
  dsimp only
  rw [readSum_calWrites]

theorem CalLoad.loop_stop {s : CalLoad} {n : Nat} (h : s.uiCheckSum = s.uiReadSum) :
    CalLoad.loop p (n + 1) s = s := if_pos h

theorem CalLoad.loop_pass {s : CalLoad} {n : Nat} (h : s.uiCheckSum ≠ s.uiReadSum)
    (h5 : s.ucConter + 1 ≠ 5) : CalLoad.loop p (n + 1) s = CalLoad.loop p n (s.pass p) := by
  rw [CalLoad.loop, if_neg h]
  exact if_neg h5

/-- **`DA_ATT_Init`** loads a chip in one pass, unless the stack holds what
`uiReadSum` starts with. -/
theorem initChip_eq (hk : k < 4) : (initChip p st c k).1 =
    (if st = 0xFF then skipped c else left p c) ∧ (initChip p st c k).2 < k + 2 := by
  unfold initChip
  dsimp only
  by_cases hst : st = 0xFF
  · rw [if_pos hst, CalLoad.loop_stop hst]
    exact ⟨rfl, Nat.lt_add_of_pos_right (by decide)⟩
  · have hk5 : k + 1 ≠ 5 := by omega
    rw [if_neg hst, CalLoad.loop_pass hst hk5, CalLoad.loop_stop (CalLoad.pass_confirmed _),
      left_apply]
    exact ⟨rfl, Nat.lt_succ_self _⟩

end load

/-! ## Runs of checks -/

/-- A calibration register other than `0x83` changes in the chip. -/
structure Fault where
  i : Fin 55
  other : i.val ≠ 2
  value : BitVec 24

/-- The chip after the fault. -/
def Fault.apply (f : Fault) (c : Chip) : Chip := Function.update c (calAddr f.i) f.value

/-- The chip when it is checked the next time. -/
def faulted (c : Chip) : Option Fault → Chip
  | none => c
  | some f => f.apply c

/-- One check, of a chip in which a register may have changed before. -/
def checkStep (p : Nat → UInt8) (c : Chip) (r : Option Fault) : Chip :=
  (faulted c r).writeAll (daATTCheck p (faulted c r))

/-- **A check is right**: it rewrites nothing in a chip that was left alone,
and finds a changed register and restores what Init had left. -/
def CheckRight (p : Nat → UInt8) (init : Chip) (c : Chip) : Option Fault → Prop
  | none => daATTCheck p c = []
  | some f => f.value ≠ c (calAddr f.i) →
    daATTCheck p (f.apply c) ≠ [] ∧ checkStep p c (some f) = init

/-- **Load and check agree** on a chip: after `DA_ATT_Init` every check of
every run is right. -/
def Calibrated (fram : Mem) (uiCheckSum : Fin 2 → UInt32) (chips : Fin 2 → Chip) (j : Fin 2) :
    Prop :=
  ∀ rounds, Meets (checkStep (ucCalParam fram j))
    (CheckRight (ucCalParam fram j) (daATTInit fram uiCheckSum chips j))
    (daATTInit fram uiCheckSum chips j) rounds

/-- The word that is loaded into a register. -/
def calReg (p : Nat → UInt8) (i : Nat) : BitVec 24 := (calWord p i).toBitVec.setWidth 24

section check

variable {p : Nat → UInt8} {c c' : Chip} {f : Fault} {k : Fin 55}

/-- Chips that differ in one calibration register differ in the sum by it. -/
theorem total_add (c c' : Chip) (k : Fin 55)
    (h : ∀ i : Fin 55, i ≠ k → c (calAddr i) = c' (calAddr i)) :
    c.total + (c' (calAddr k)).toNat = c'.total + (c (calAddr k)).toNat := by
  have hc : c.total = (c (calAddr k)).toNat +
      ∑ i ∈ Finset.univ.erase k, (c (calAddr i)).toNat :=
    (Finset.add_sum_erase Finset.univ (fun i : Fin 55 => (c (calAddr i)).toNat)
      (Finset.mem_univ k)).symm
  have hc' : c'.total = (c' (calAddr k)).toNat +
      ∑ i ∈ Finset.univ.erase k, (c' (calAddr i)).toNat :=
    (Finset.add_sum_erase Finset.univ (fun i : Fin 55 => (c' (calAddr i)).toNat)
      (Finset.mem_univ k)).symm
  have hrest : ∑ i ∈ Finset.univ.erase k, (c (calAddr i)).toNat =
      ∑ i ∈ Finset.univ.erase k, (c' (calAddr i)).toNat := by
    refine Finset.sum_congr rfl fun i hi => ?_
    rw [h i (Finset.ne_of_mem_erase hi)]
  omega

theorem fault_other {a : UInt8} (h : a ≠ calAddr f.i) : f.apply c a = c a :=
  Function.update_of_ne h ..

theorem fault_self : f.apply c (calAddr f.i) = f.value := Function.update_self ..

/-- **A changed register changes the sum**, by less than the register holds. -/
theorem readSum_fault (h : f.value ≠ c (calAddr f.i)) :
    readSum p (f.apply c) 0 ≠ readSum p c 0 := by
  intro heq
  have hnat := congrArg UInt32.toNat heq
  have htotal := total_add (f.apply c) c f.i fun i hi =>
    fault_other fun ha => hi (Fin.ext (calAddr_inj i.isLt f.i.isLt ha))
  rw [fault_self] at htotal
  rw [toNat_readSum, toNat_readSum] at hnat
  have hne : f.value.toNat ≠ (c (calAddr f.i)).toNat := fun hv => h (BitVec.eq_of_toNat_eq hv)
  have := f.value.isLt
  have := (c (calAddr f.i)).isLt
  omega

/-- What is quiet is not quiet after a fault. -/
theorem mismatch_fault (hq : ¬ Mismatch p c) (h : f.value ≠ c (calAddr f.i)) :
    Mismatch p (f.apply c) := by
  unfold Mismatch at hq ⊢
  rw [not_not] at hq
  intro heq
  refine readSum_fault (p := p) h (UInt32.toNat.inj ?_)
  have hnat := congrArg UInt32.toNat (heq.symm.trans hq)
  have := (readSum p c 0).toNat_lt
  have := (readSum p (f.apply c) 0).toNat_lt
  rw [UInt32.toNat_sub, UInt32.toNat_sub] at hnat
  simp only [UInt32.reduceToNat] at hnat
  omega

theorem daATTCheck_eq_nil : daATTCheck p c = [] ↔ ¬ Mismatch p c := by
  unfold daATTCheck
  split
  · next h => exact iff_of_false (List.cons_ne_nil _ _) (not_not_intro h)
  · next h => exact iff_of_true rfl h

theorem writeAll_daATTCheck (h : Mismatch p c) : c.writeAll (daATTCheck p c) = left p c := by
  rw [daATTCheck, if_pos h, left]

/-- A chip that holds the block, and the override in `0x83`. -/
structure Loaded (p : Nat → UInt8) (c : Chip) : Prop where
  words : ∀ i < 55, i ≠ 2 → c (calAddr i) = calReg p i
  override : c 0x83 = 0x00FC84
  disabled : c 0xC9 = 0

/-- **The difference of `0x80`** is right for one word in `0x83`. -/
theorem Loaded.quiet_iff (h : Loaded p c) : ¬ Mismatch p c ↔ calWord p 2 = 0xFC04 := by
  obtain ⟨hsum, hle⟩ := toNat_calSum (p := p)
  set c' : Chip := Function.update c (calAddr 2) (calReg p 2) with hc'
  have hwords : c'.total = (calSum p).toNat := by
    rw [hsum]
    refine Finset.sum_congr rfl fun i _ => ?_
    rw [← toNat_setWidth_calWord]
    refine congrArg BitVec.toNat ?_
    by_cases h2 : i.val = 2
    · rw [hc', h2]
      exact Function.update_self ..
    · have hne : calAddr i ≠ calAddr 2 := fun ha => h2 (calAddr_inj i.isLt (by omega) ha)
      rw [hc', Function.update_of_ne hne]
      exact h.words i i.isLt h2
  have htotal := total_add c c' 2 fun i hi =>
    (Function.update_of_ne (fun ha => hi (Fin.ext (calAddr_inj i.isLt (by decide) ha))) ..).symm
  have hover : (c (calAddr (2 : Fin 55))).toNat = 0xFC84 := congrArg BitVec.toNat h.override
  have hword : (c' (calAddr (2 : Fin 55))).toNat = (calWord p 2).toNat := by
    rw [← toNat_setWidth_calWord]
    exact congrArg BitVec.toNat (Function.update_self ..)
  have hlt := calWord_lt (p := p) 2
  rw [hwords, hover, hword] at htotal
  have hread := toNat_readSum (p := p) (c := c) 0
  unfold Mismatch
  rw [not_not, ← UInt32.toNat_inj, ← UInt32.toNat_inj, UInt32.toNat_add, UInt32.toNat_sub, hread]
  simp only [UInt32.reduceToNat]
  omega

/-- A load of what is held changes nothing. -/
theorem Loaded.left_eq (h : Loaded p c) : left p c = c := by
  funext a
  obtain rfl | ⟨h₁, hcal⟩ | rfl | ⟨i, hi, h2, rfl⟩ := addr_cases a
  · rw [left_disabled, h.disabled]
  · exact left_other p c h₁ hcal
  · rw [left_override, h.override]
  · rw [left_word p c hi h2, h.words i hi h2, calReg]

/-- A fault is undone by a load. -/
theorem left_fault : left p (f.apply c) = left p c :=
  left_congr fun _ _ h => fault_other (h f.i f.i.isLt)

end check

/-! ## Where load and check agree -/

section agree

variable {p : Nat → UInt8} {c : Chip}

theorem skipped_disabled (c : Chip) : skipped c 0xC9 = 0 := by
  unfold skipped
  exact Function.update_self ..

theorem loaded_left (p : Nat → UInt8) (c : Chip) : Loaded p (left p c) where
  words _ hi h2 := left_word p c hi h2
  override := left_override p c
  disabled := left_disabled p c

/-- What Init leaves in a chip. -/
theorem daATTInit_eq (fram : Mem) (uiCheckSum : Fin 2 → UInt32) (chips : Fin 2 → Chip)
    (j : Fin 2) : daATTInit fram uiCheckSum chips j =
      if uiCheckSum j = 0xFF then skipped (chips j) else left (ucCalParam fram j) (chips j) := by
  obtain ⟨hfirst, hcount⟩ :
      (initChip (ucCalParam fram 0) (uiCheckSum 0) (chips 0) 0).1 =
          (if uiCheckSum 0 = 0xFF then skipped (chips 0)
            else left (ucCalParam fram 0) (chips 0)) ∧
        (initChip (ucCalParam fram 0) (uiCheckSum 0) (chips 0) 0).2 < 0 + 2 :=
    initChip_eq (by omega)
  rcases (show j = 0 ∨ j = 1 by omega) with rfl | rfl
  · exact hfirst
  · exact (initChip_eq (by omega)).1

/-- From registers that hold the block, a check always ends there. -/
theorem Loaded.checkStep_eq (h : Loaded p c) (hq : ¬ Mismatch p c) (r : Option Fault) :
    checkStep p c r = c := by
  have hquiet : c.writeAll (daATTCheck p c) = c := by
    rw [daATTCheck_eq_nil.2 hq]
    rfl
  cases r with
  | none => exact hquiet
  | some f =>
    by_cases hv : f.value = c (calAddr f.i)
    · -- the register was given the value it had
      have hsame : f.apply c = c := by
        rw [Fault.apply, hv, Function.update_eq_self]
      rw [checkStep, faulted, hsame, hquiet]
    · exact (writeAll_daATTCheck (mismatch_fault hq hv)).trans (left_fault.trans h.left_eq)

theorem Loaded.checkRight (h : Loaded p c) (hq : ¬ Mismatch p c) (r : Option Fault) :
    CheckRight p c c r := by
  cases r with
  | none => exact daATTCheck_eq_nil.2 hq
  | some f =>
    intro hv
    exact ⟨fun hnil => daATTCheck_eq_nil.1 hnil (mismatch_fault hq hv), h.checkStep_eq hq (some f)⟩

/-- A restored chip holds the block. -/
theorem loaded_of_restored (hover : c 0x83 = 0x00FC84) (hdis : c 0xC9 = 0)
    (h : ∀ f, CheckRight p c c (some f)) : Loaded p c := by
  obtain ⟨f, hf⟩ : ∃ f : Fault, f.value ≠ c (calAddr f.i) := by
    refine ⟨⟨0, by decide, ~~~ c (calAddr (0 : Fin 55))⟩, fun heq => ?_⟩
    have hbit := congrArg (BitVec.getLsbD · 0) heq
    simp at hbit
  obtain ⟨hdetected, hrestored⟩ := h f hf
  have hmis : Mismatch p (f.apply c) := by
    by_contra hq
    exact hdetected (daATTCheck_eq_nil.2 hq)
  have hleft : left p (f.apply c) = c := (writeAll_daATTCheck hmis).symm.trans hrestored
  refine ⟨fun i hi h2 => ?_, hover, hdis⟩
  rw [← hleft]
  exact left_word p _ hi h2

end agree

/-- **Calibration load and check agree** on the blocks with `0xFC04` for the
register `0x83`, in a chip that Init has loaded, or that held the block
before. -/
theorem calibrated_iff (fram : Mem) (uiCheckSum : Fin 2 → UInt32) (chips : Fin 2 → Chip)
    (j : Fin 2) : Calibrated fram uiCheckSum chips j ↔
      calWord (ucCalParam fram j) 2 = 0xFC04 ∧
        (uiCheckSum j = 0xFF → ∀ i < 55, i ≠ 2 →
          chips j (calAddr i) = calReg (ucCalParam fram j) i) := by
  unfold Calibrated
  set p := ucCalParam fram j
  have hinit := daATTInit_eq fram uiCheckSum chips j
  set c := daATTInit fram uiCheckSum chips j
  constructor
  · intro h
    have hfix : c 0x83 = 0x00FC84 ∧ c 0xC9 = 0 := by
      rw [hinit]
      split
      · exact ⟨skipped_override _, skipped_disabled _⟩
      · exact ⟨left_override _ _, left_disabled _ _⟩
    have hloaded := loaded_of_restored hfix.1 hfix.2 fun f => (h [some f]).1
    refine ⟨hloaded.quiet_iff.1 (daATTCheck_eq_nil.1 (h [none]).1), fun hst i hi h2 => ?_⟩
    rw [if_pos hst] at hinit
    rw [← hloaded.words i hi h2, hinit, skipped_cal _ hi h2]
  · rintro ⟨hword, hskip⟩ rounds
    have hloaded : Loaded p c := by
      rw [hinit]
      split
      · next hst =>
        refine ⟨fun i hi h2 => ?_, skipped_override _, skipped_disabled _⟩
        rw [skipped_cal _ hi h2, hskip hst i hi h2]
      · exact loaded_left p _
    have hq := hloaded.quiet_iff.2 hword
    have hany : Meets (checkStep p) (fun _ _ => True) c rounds :=
      (meets_forall c rounds).2 fun _ _ => trivial
    refine hany.imp (I := fun c' => c' = c) rfl ?_ ?_
    · rintro c' r rfl -
      exact hloaded.checkStep_eq hq r
    · rintro c' r rfl -
      exact hloaded.checkRight hq r

/-- An erased FRAM. -/
def erased : Mem := fun _ => 0

/-- With a block of zeros the check after a load finds a mismatch. -/
theorem erased_not_calibrated :
    ¬ Calibrated erased (fun _ => 0) (fun _ _ => 0) 0 := by
  intro h
  have hq := daATTCheck_eq_nil.1 (h [none]).1
  have hinit := daATTInit_eq erased (fun _ => 0) (fun _ _ => 0) 0
  rw [hinit, if_neg (by decide), (loaded_left _ _).quiet_iff] at hq
  exact absurd hq (by decide)

end BusMonitor
