import BusMonitor.Lib.Month
import BusMonitor.System
/-!
# Monthly energy

`app_PTEnergy.c`. At the first minute of a month the energy counters are
stored in the slot of that month. Slots are found by their distance from
a base month, which the first record of a new device and every clearing
of the energy move; nothing in a slot is checked when it is read.
-/


namespace BusMonitor

open LittleEndian

/-- The clock of the monitor, as the energy code reads it. -/
structure Clock where
  year : Nat
  month : Nat
  date : Nat
  hours : Nat
  minutes : Nat
  year_lt : year < 100
  one_le_month : 1 ≤ month
  month_le : month ≤ 12
  deriving DecidableEq, Repr

/-- `PTEnergyTypeDef`. -/
structure PTEnergy where
  time : UInt16
  ep : Vector UInt32 8
  deriving DecidableEq, Repr

/-- `sizeof(struct PTEnergyTypeDef)`. -/
def sizeofPTEnergy : Nat := 34

/-- The 34 bytes of a record. -/
def PTEnergy.toBytes (r : PTEnergy) : List UInt8 :=
  wordBytes r.time ++ r.ep.toList.flatMap fun e => encode 4 e.toNat

/-- The record stored in the 34 bytes from `a` on. -/
def readPTEnergy (m : Mem) (a : Nat) : PTEnergy where
  time := UInt16.ofNat (readWord m a)
  ep := .ofFn fun i => UInt32.ofNat (decode (m.read (a + 2 + 4 * i) 4))

/-- The record `memset` leaves. -/
def zeroPTEnergy : PTEnergy := ⟨0, .replicate 8 0⟩

def fmOffsetPTEInit : Nat := 0
def fmOffsetBaseTime : Nat := 2
def fmOffsetSaveFlag : Nat := 4
def fmOffsetPTE : Nat := 6

/-- The FRAM, `usPTEBaseTime` and `ucPTESaveFlag`. -/
structure EnergyStore where
  fram : Mem
  usPTEBaseTime : Nat
  ucPTESaveFlag : UInt8

/-- `gPTE_FTime`. -/
def gPTEFTime (now : Clock) : Nat := now.year * 256 + now.month

/-- `nPTE_Addr`, with the arithmetic of `int` cut to 16 bits. -/
def nPTEAddr (usPTEBaseTime usTime : Nat) : Nat :=
  let months : Int := ((usTime / 256 % 256 : Nat) - (usPTEBaseTime / 256 % 256 : Nat) : Int) * 12 +
    ((usTime % 256 : Nat) - (usPTEBaseTime % 256 : Nat)) - 1
  let usOffset := (months * sizeofPTEnergy % 65536).toNat
  (fmAddrEPPastTime + fmOffsetPTE + usOffset) % 65536

section store

variable (s : EnergyStore) (now : Clock)

/-- Set the base month, in the RAM and in the FRAM. -/
def EnergyStore.setBase (base : Nat) : EnergyStore :=
  { s with
    usPTEBaseTime := base
    fram := s.fram.write (fmAddrEPPastTime + fmOffsetBaseTime) (encode 2 base) }

/-- Set the save flag, in the RAM and in the FRAM. -/
def EnergyStore.setFlag (flag : UInt8) : EnergyStore :=
  { s with
    ucPTESaveFlag := flag
    fram := s.fram.write (fmAddrEPPastTime + fmOffsetSaveFlag) [flag] }

@[simp] theorem EnergyStore.setBase_fram (base : Nat) : (s.setBase base).fram =
    s.fram.write (fmAddrEPPastTime + fmOffsetBaseTime) (encode 2 base) := rfl

@[simp] theorem EnergyStore.setBase_base (base : Nat) : (s.setBase base).usPTEBaseTime = base := rfl

@[simp] theorem EnergyStore.setBase_flag (base : Nat) :
    (s.setBase base).ucPTESaveFlag = s.ucPTESaveFlag := rfl

@[simp] theorem EnergyStore.setFlag_fram (flag : UInt8) : (s.setFlag flag).fram =
    s.fram.write (fmAddrEPPastTime + fmOffsetSaveFlag) [flag] := rfl

@[simp] theorem EnergyStore.setFlag_base (flag : UInt8) :
    (s.setFlag flag).usPTEBaseTime = s.usPTEBaseTime := rfl

@[simp] theorem EnergyStore.setFlag_flag (flag : UInt8) :
    (s.setFlag flag).ucPTESaveFlag = flag := rfl

/-- The month before, in 16 bits: the year before the year 0 is -1. -/
def monthBefore (now : Clock) : Nat :=
  if now.month = 1 then ((((now.year : Int) - 1) * 256 + 0x0C) % 65536).toNat
  else now.year * 256 + (now.month - 1)

/-- The first minute of a month. -/
def Clock.FirstMinute (now : Clock) : Prop := now.date = 1 ∧ now.hours = 0 ∧ now.minutes = 0

instance : Decidable now.FirstMinute := inferInstanceAs (Decidable (_ ∧ _))

/-- The first record of a device gives it its base. -/
def rebase : EnergyStore :=
  if s.usPTEBaseTime = 0 then s.setBase (monthBefore now) else s

/-- The record of the current month, with the counters of `nPTE_Assign`. -/
def currentRecord (ep : Vector UInt32 8) : PTEnergy := ⟨UInt16.ofNat (gPTEFTime now), ep⟩

/-- Store the record of the current month and set the save flag. -/
def store (ep : Vector UInt32 8) : EnergyStore :=
  if s.usPTEBaseTime < gPTEFTime now then
    EnergyStore.setFlag { s with
      fram := s.fram.write (nPTEAddr s.usPTEBaseTime (gPTEFTime now))
        (currentRecord now ep).toBytes } 1
  else s

/-- Take the save flag back once the first minute is over. -/
def lowerFlag : EnergyStore :=
  if now.minutes ≠ 0 ∧ s.ucPTESaveFlag = 1 then s.setFlag 0 else s

/-- `gPTE_Save`. -/
def gPTESave (ep : Vector UInt32 8) : EnergyStore :=
  if now.FirstMinute ∧ s.ucPTESaveFlag = 0 then lowerFlag (store (rebase s now) now ep) now
  else lowerFlag s now

/-- `gPTE_Query`. -/
def gPTEQuery (usTimeS usTimeE : Nat) : PTEnergy :=
  let usTemp := gPTEFTime now
  let start := if usTimeS ≤ s.usPTEBaseTime then zeroPTEnergy
    else readPTEnergy s.fram (nPTEAddr s.usPTEBaseTime usTimeS)
  let usTimeS := if usTimeS ≤ s.usPTEBaseTime then s.usPTEBaseTime else usTimeS
  let usTimeE := if usTemp < usTimeE then usTemp else usTimeE
  if usTimeS < usTimeE ∧ s.usPTEBaseTime < usTimeE then
    let r := readPTEnergy s.fram (nPTEAddr s.usPTEBaseTime usTimeE)
    { r with ep := .zipWith (· - ·) r.ep start.ep }
  else zeroPTEnergy

/-- `gPTE_BaseTime`. -/
def gPTEBaseTime : EnergyStore := s.setBase (gPTEFTime now)

/-- What `Acq_EnergyClear` writes: the counters of both busbars. -/
def acqEnergyClear : EnergyStore :=
  { s with
    fram := (s.fram.write fmAddrEPRealTime (List.replicate 32 0)).write (fmAddrEPRealTime + 32)
      (List.replicate 32 0) }

/-- `gPTE_Init`. -/
def gPTEInit : EnergyStore :=
  if readWord s.fram (fmAddrEPPastTime + fmOffsetPTEInit) = initMark then
    { s with
      usPTEBaseTime := readWord s.fram (fmAddrEPPastTime + fmOffsetBaseTime)
      ucPTESaveFlag := s.fram (fmAddrEPPastTime + fmOffsetSaveFlag) }
  else
    (EnergyStore.setBase { s with
      fram := s.fram.write (fmAddrEPPastTime + fmOffsetPTEInit) (encode 2 initMark) } 0).setFlag 0

end store

/-- Power comes on over a FRAM. -/
def EnergyStore.powerUp (m : Mem) : EnergyStore := gPTEInit ⟨m, 0, 0⟩

/-- The first hour of January, February and March 2024. -/
def january (minutes : Nat) : Clock := ⟨24, 1, 1, 0, minutes, by decide, by decide, by decide⟩

def february (minutes : Nat) : Clock := ⟨24, 2, 1, 0, minutes, by decide, by decide, by decide⟩

def march (minutes : Nat) : Clock := ⟨24, 3, 1, 0, minutes, by decide, by decide, by decide⟩

/-- The clock of a device whose RTC was never set. -/
def unsetClock : Clock := ⟨0, 1, 1, 0, 0, by decide, by decide, by decide⟩

/-! ## Slots -/

theorem length_toBytes (r : PTEnergy) : r.toBytes.length = 34 := by
  have hflat : ∀ es : List UInt32,
      (es.flatMap fun e => encode 4 e.toNat).length = 4 * es.length := by
    intro es
    induction es with
    | nil => rfl
    | cons e es ih =>
      rw [List.flatMap_cons, List.length_append, length_encode, ih, List.length_cons]
      omega
  simp [PTEnergy.toBytes, wordBytes, hflat]

open Month

theorem isCode_gPTEFTime (now : Clock) : IsCode (gPTEFTime now) := by
  have := now.one_le_month
  have := now.month_le
  unfold IsCode gPTEFTime
  omega

theorem gPTEFTime_lt (now : Clock) : gPTEFTime now < 65536 := by
  have := now.year_lt
  have := now.month_le
  unfold gPTEFTime
  omega

theorem index_gPTEFTime_le (now : Clock) : index (gPTEFTime now) ≤ 1200 := by
  have := now.year_lt
  have := now.month_le
  unfold index gPTEFTime
  omega

/-- **The slot of a month** lies as many records behind the first one as
the month lies months behind the base. -/
theorem nPTEAddr_eq {base t : Nat} (hb : index base < index t) (ht : index t ≤ 1200)
    (hbase : base < 65536) (htime : t < 65536) :
    nPTEAddr base t = 0x3006 + 34 * (index t - index base - 1) := by
  have hty : t / 256 % 256 = t / 256 := Nat.mod_eq_of_lt (by omega)
  have hby : base / 256 % 256 = base / 256 := Nat.mod_eq_of_lt (by omega)
  have hmonths : ((t / 256 % 256 : Nat) - (base / 256 % 256 : Nat) : Int) * 12 +
      ((t % 256 : Nat) - (base % 256 : Nat)) - 1 = (index t - index base - 1 : Nat) := by
    rw [hty, hby]
    unfold index at *
    omega
  unfold nPTEAddr
  rw [hmonths]
  simp only [sizeofPTEnergy, fmAddrEPPastTime, fmOffsetPTE]
  omega

/-- The slot of a month after the base and up to the current one. -/
theorem nPTEAddr_month {base t : Nat} {now : Clock} (hcode : IsCode base) (ht : IsCode t)
    (hb : base < t) (hnow : t ≤ gPTEFTime now) :
    nPTEAddr base t = 0x3006 + 34 * (index t - index base - 1) := by
  have hlt := gPTEFTime_lt now
  have hle : index t ≤ index (gPTEFTime now) := by
    by_contra hgt
    have := (index_lt_index (isCode_gPTEFTime now) ht).1 (by omega)
    omega
  exact nPTEAddr_eq ((index_lt_index hcode ht).2 hb) (hle.trans (index_gPTEFTime_le now))
    (by omega) (by omega)

/-- Slots of two months do not overlap. -/
theorem nPTEAddr_disjoint {base t u : Nat} {now : Clock} (hcode : IsCode base) (ht : IsCode t)
    (hu : IsCode u) (hbt : base < t) (hbu : base < u) (htnow : t ≤ gPTEFTime now)
    (hunow : u ≤ gPTEFTime now) (hne : t ≠ u) :
    nPTEAddr base t + 34 ≤ nPTEAddr base u ∨ nPTEAddr base u + 34 ≤ nPTEAddr base t := by
  have hbt' := (index_lt_index hcode ht).2 hbt
  have hbu' := (index_lt_index hcode hu).2 hbu
  have hne' : index t ≠ index u := fun he => hne ((index_inj ht hu).1 he)
  rw [nPTEAddr_month hcode ht hbt htnow, nPTEAddr_month hcode hu hbu hunow]
  omega

end BusMonitor
