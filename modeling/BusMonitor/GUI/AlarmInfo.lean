import BusMonitor.Alarm.Model
/-!
# The text of an alarm

`gAlm_InfoAnalyze` of `WindowDLG_NowAlarm.c` turns the event number and
the type of a record into the text both alarm pages show. A branch is
named by its busbar and its ordinal there. `branchText_eq_iff` says for
which branches the text is the branch's own name.
-/


namespace BusMonitor

/-- The texts `gAlm_InfoAnalyze` has for the events of a busbar, by alarm
type. -/
def busTexts : Nat → List (UInt8 × String)
  | 0 => [(eAlmTypeUnder, "母线A相欠压"), (eAlmTypeOver, "母线A相过压")]
  | 1 => [(eAlmTypeUnder, "母线B相欠压"), (eAlmTypeOver, "母线B相过压")]
  | 2 => [(eAlmTypeUnder, "母线C相欠压"), (eAlmTypeOver, "母线C相过压")]
  | 3 => [(eAlmTypeOver, "母线A相一级过流"), (eAlmTypeOverSec, "母线A相二级过流")]
  | 4 => [(eAlmTypeOver, "母线B相一级过流"), (eAlmTypeOverSec, "母线B相二级过流")]
  | 5 => [(eAlmTypeOver, "母线C相一级过流"), (eAlmTypeOverSec, "母线C相二级过流")]
  | 6 => [(eAlmTypeOver, "母线总功率越限")]
  | 7 => [(eAlmTypeUnder, "母线欠频"), (eAlmTypeOver, "母线过频")]
  | 8 => [(eAlmTypeIOTrip, "母线开关故障")]
  | 9 => [(eAlmTypeIOTrip, "母线防雷故障")]
  | _ => []

/-- `%0.nd` of a byte, for two and for three digits. -/
def decimal (precision i : Nat) : List Char :=
  let digits := [i / 100, i / 10 % 10, i % 10].map Nat.digitChar
  if precision ≤ 2 ∧ i < 100 then digits.drop 1 else digits

/-- 支路. -/
def branchWord : List Char := ['支', '路']

/-- 开关故障. -/
def faultWord : List Char := ['开', '关', '故', '障']

/-- `gAlm_InfoAnalyze`: the text it puts into `CHbuf`, none for the numbers
between the busbars and the branches. Where a busbar's event has no text
for the type, `junk` is what the local buffer holds. For a branch it is the
21 bytes that are copied; no NUL is put behind them, and what the display
shows after them is what `CHbuf` held before. -/
def gAlmInfoAnalyze (mode event type : UInt8) (junk : List Char) : List Char :=
  if event.toNat ≤ (AlmEvent.bus eAlmEventBSPD).code then
    let buf := (((busTexts (event.toNat % 10)).lookup type).map String.toList).getD junk
    let letter := if event.toNat / 10 = 0 then 'A' else 'B'
    if mode = busModeS then letter :: buf
    else if mode = busModeY then
      if event.toNat = (AlmEvent.bus eAlmEventAQF).code then buf else letter :: buf
    else buf
  else if eAlmEventSW ≤ event.toNat then
    if mode = busModeS then
      if event.toNat < eAlmEventSW + 71 then
        let i := event - UInt8.ofNat (eAlmEventSW - 1)
        ['A'] ++ branchWord ++ (decimal 2 i.toNat).take 2 ++ faultWord
      else
        let i := event - UInt8.ofNat (eAlmEventSW + 71)
        ['B'] ++ branchWord ++ (decimal 2 i.toNat).take 2 ++ faultWord
    else
      let i := event - UInt8.ofNat (eAlmEventSW - 1)
      branchWord ++ (decimal 3 i.toNat).take 3 ++ faultWord
  else []

/-! ## The name of a branch -/

/-- The name of branch `k`: its busbar and its ordinal there in mode S, its
ordinal alone in the other modes. -/
def branchName (mode : UInt8) (k : Fin 144) : List Char :=
  if mode = busModeS then
    if (k : Nat) < 72 then ['A'] ++ branchWord ++ decimal 2 (k + 1) ++ faultWord
    else ['B'] ++ branchWord ++ decimal 2 (k - 71) ++ faultWord
  else branchWord ++ decimal 3 (k + 1) ++ faultWord

theorem toNat_byte_branch (k : Fin 144) : (AlmEvent.branch k).byte.toNat = 32 + k := by
  have := k.isLt
  simp only [AlmEvent.byte, AlmEvent.code, eAlmEventSW, UInt8.toNat_ofNat']
  omega

/-- The ordinal the text shows. -/
theorem toNat_ordinal (k : Fin 144) {n : Nat} (h : n ≤ 32 + k) (hn : n < 256) :
    ((AlmEvent.branch k).byte - UInt8.ofNat n).toNat = 32 + k - n := by
  have hofNat : (UInt8.ofNat n).toNat = n := by
    rw [UInt8.toNat_ofNat']
    omega
  rw [UInt8.toNat_sub_of_le _ _ (by rw [UInt8.le_iff_toNat_le, hofNat, toNat_byte_branch]; exact h),
    hofNat, toNat_byte_branch]

theorem length_decimal_two {i : Nat} (h : i < 100) : (decimal 2 i).length = 2 := by
  simp [decimal, h]

theorem length_decimal_three (i : Nat) : (decimal 3 i).length = 3 := by
  simp [decimal]

/-- The number that digits stand for. -/
def readDigits (ds : List Char) : Nat := ds.foldl (fun n c => 10 * n + (c.toNat - 48)) 0

theorem readDigits_digitChar {d : Nat} (h : d < 10) : (Nat.digitChar d).toNat - 48 = d := by
  have : d ∈ List.range 10 := List.mem_range.2 h
  revert this d
  decide

theorem readDigits_decimal_two {i : Nat} (h : i < 100) : readDigits (decimal 2 i) = i := by
  have h₁ := readDigits_digitChar (show i / 10 % 10 < 10 by omega)
  have h₀ := readDigits_digitChar (show i % 10 < 10 by omega)
  simp only [decimal, h, readDigits, le_refl, and_self, if_true, List.map_cons, List.map_nil,
    List.drop_succ_cons, List.drop_zero, List.foldl_cons, List.foldl_nil, h₁, h₀]
  omega

theorem readDigits_decimal_three {i : Nat} (h : i < 1000) : readDigits (decimal 3 i) = i := by
  have h₂ := readDigits_digitChar (show i / 100 < 10 by omega)
  have h₁ := readDigits_digitChar (show i / 10 % 10 < 10 by omega)
  have h₀ := readDigits_digitChar (show i % 10 < 10 by omega)
  simp only [decimal, readDigits, Nat.reduceLeDiff, false_and, if_false, List.map_cons,
    List.map_nil, List.foldl_cons, List.foldl_nil, h₂, h₁, h₀]
  omega

/-- A name names one branch. -/
theorem branchName_injective (mode : UInt8) : Function.Injective (branchName mode) := by
  intro k k' h
  have hk := k.isLt
  have hk' := k'.isLt
  unfold branchName at h
  apply Fin.ext
  split at h
  · split at h
    · split at h
      · have hd := congrArg readDigits (List.append_cancel_left (List.append_cancel_right h))
        rw [readDigits_decimal_two (by omega), readDigits_decimal_two (by omega)] at hd
        omega
      · -- busbar A against busbar B
        cases h
    · split at h
      · cases h
      · have hd := congrArg readDigits (List.append_cancel_left (List.append_cancel_right h))
        rw [readDigits_decimal_two (by omega), readDigits_decimal_two (by omega)] at hd
        omega
  · have hd := congrArg readDigits (List.append_cancel_left (List.append_cancel_right h))
    rw [readDigits_decimal_three (by omega), readDigits_decimal_three (by omega)] at hd
    omega

/-- **The text of a branch's event is the branch's name**, unless it is the
last branch of busbar A in mode S: that one is shown as number 00 of
busbar B. -/
theorem branchText_eq_iff (mode : UInt8) (k : Fin 144) (type : UInt8) (junk : List Char) :
    gAlmInfoAnalyze mode (AlmEvent.branch k).byte type junk = branchName mode k ↔
      ¬ (mode = busModeS ∧ (k : Nat) = 71) := by
  have hk := k.isLt
  have hevent := toNat_byte_branch k
  unfold gAlmInfoAnalyze branchName
  simp only [hevent, AlmEvent.code, eAlmEventBSPD, eAlmEventSW]
  rw [if_neg (show ¬ 32 + (k : Nat) ≤ ((0x13 : Fin 20) : Nat) by simp; omega),
    if_pos (show 32 ≤ 32 + (k : Nat) by omega)]
  by_cases hmode : mode = busModeS
  · rw [if_pos hmode, if_pos hmode, and_iff_right hmode]
    rcases Nat.lt_trichotomy (k : Nat) 71 with hlt | heq | hgt
    · have hord := toNat_ordinal k (n := 31) (by omega) (by omega)
      rw [if_pos (by omega), if_pos (by omega), show (32 - 1 : Nat) = 31 from rfl, hord,
        show 32 + (k : Nat) - 31 = k + 1 by omega,
        List.take_of_length_le (by rw [length_decimal_two (by omega)])]
      exact iff_of_true rfl (Nat.ne_of_lt hlt)
    · -- 0x20 + 71 is past the bound of the first case
      rw [if_neg (by omega), if_pos (by omega)]
      simp [heq]
    · have hord := toNat_ordinal k (n := 103) (by omega) (by omega)
      rw [if_neg (by omega), if_neg (by omega), show (32 + 71 : Nat) = 103 from rfl, hord,
        show 32 + (k : Nat) - 103 = k - 71 by omega,
        List.take_of_length_le (by rw [length_decimal_two (by omega)])]
      exact iff_of_true rfl (Nat.ne_of_gt hgt)
  · have hord := toNat_ordinal k (n := 31) (by omega) (by omega)
    rw [if_neg hmode, if_neg hmode, show (32 - 1 : Nat) = 31 from rfl, hord,
      show 32 + (k : Nat) - 31 = k + 1 by omega,
      List.take_of_length_le (by rw [length_decimal_three])]
    exact iff_of_true rfl fun h => hmode h.1

end BusMonitor
