import BusMonitor.Energy.Counters
import Mathlib.Data.Rat.Floor
import Mathlib.Order.Fin.Basic
import Mathlib.Tactic.FieldSimp
import Mathlib.Tactic.Linarith
import Mathlib.Tactic.NormNum
import Mathlib.Tactic.Positivity
import Mathlib.Tactic.Ring
/-!
# The remainders of the energy counters

`Acq_RTEnergy` reads an energy from the meter chip, keeps what is less than
a hundredth of a unit in `fEPremain` and adds the rest to the counter. The
count is taken with `usCTR / 5` as a quotient of the reals and given back
with the quotient of the integers, so the two agree where five divides the
ratio: `energy_conserved_iff`. The arithmetic is exact.
-/


namespace BusMonitor

open Stepwise

/-! ## One counter -/

/-- `DA_ATT_EPRead`: the count of a 24-bit register. -/
def epRead (uiRegCache : BitVec 24) : ℚ := uiRegCache.toNat / 3200

/-- `fEPtemp * 100`. -/
def hundredths (usCTR : UInt16) (fEPremain : ℚ) : ℚ := fEPremain * usCTR.toNat / 5 * 100

/-- The conversion to `uint16_t`. -/
def recEP (usCTR : UInt16) (fEPremain : ℚ) : UInt16 :=
  UInt16.ofNat ⌊hundredths usCTR fEPremain⌋₊

/-- What `Acq_RTEnergy` makes of the remainder of a counter and a reading:
the new remainder, and what is added to the counter. A comparison with a
quotient by zero fails. -/
def addEP (usCTR : UInt16) (fEPremain reading : ℚ) : ℚ × UInt16 :=
  let fEPremain := fEPremain + reading
  let usRecEP := recEP usCTR fEPremain
  let ratio := (usCTR / 5).toNat
  if ratio ≠ 0 ∧ (usRecEP.toNat : ℚ) / 100 / ratio ≤ fEPremain then
    (fEPremain - usRecEP.toNat / 100 / ratio, usRecEP)
  else (fEPremain, 0)

/-- **The energy `e` is split** into hundredths that are counted and a
remainder below one of them, on the scale of the counter. -/
structure Split (usCTR : UInt16) (e : ℚ) (counted : ℕ) (remain : ℚ) : Prop where
  conserved : counted / 100 + remain * (usCTR.toNat / 5) = e * (usCTR.toNat / 5)
  nonneg : 0 ≤ remain
  below : remain * (usCTR.toNat / 5) < 1 / 100

/-- No division by zero, and no bits lost in 16. -/
structure Exact (usCTR : UInt16) (fEPremain : ℚ) : Prop where
  divisor : usCTR / 5 ≠ 0
  fits : ⌊hundredths usCTR fEPremain⌋₊ < 65536

/-- **The condition on a counter**: the ratio is at least five, and five
divides it and the count fits, or there is nothing to count yet. -/
def Countable (usCTR : UInt16) (fEPremain : ℚ) : Prop :=
  5 ≤ usCTR.toNat ∧
    (usCTR.toNat % 5 = 0 ∧ hundredths usCTR fEPremain < 65536 ∨
      hundredths usCTR fEPremain < 1)

variable {usCTR : UInt16} {e r x : ℚ} {counted : ℕ}

theorem epRead_nonneg (k : BitVec 24) : 0 ≤ epRead k := by
  unfold epRead
  positivity

theorem hundredths_nonneg (usCTR : UInt16) (hr : 0 ≤ r) : 0 ≤ hundredths usCTR r := by
  unfold hundredths
  positivity

theorem toNat_ratio : (usCTR / 5).toNat = usCTR.toNat / 5 := by
  rw [UInt16.toNat_div]
  rfl

theorem ratio_ne_zero : usCTR / 5 ≠ 0 ↔ 5 ≤ usCTR.toNat := by
  rw [Ne, ← UInt16.toNat_inj, toNat_ratio]
  simp only [UInt16.reduceToNat]
  omega

theorem toNat_recEP (h : ⌊hundredths usCTR r⌋₊ < 65536) :
    (recEP usCTR r).toNat = ⌊hundredths usCTR r⌋₊ := by
  rw [recEP, UInt16.toNat_ofNat']
  omega

/-- One more reading is split when the sum of the remainder and the reading
is. -/
theorem Split.add_iff (h : Split usCTR e counted r) {u : ℕ} {r' : ℚ} :
    Split usCTR (e + x) (counted + u) r' ↔ Split usCTR (r + x) u r' := by
  have hold := h.conserved
  constructor
  · rintro ⟨hcons, hnonneg, hbelow⟩
    refine ⟨?_, hnonneg, hbelow⟩
    push_cast at hcons
    linarith
  · rintro ⟨hcons, hnonneg, hbelow⟩
    refine ⟨?_, hnonneg, hbelow⟩
    push_cast
    linarith

/-- Nothing to count: everything is kept. -/
theorem addEP_of_lt_one (h : hundredths usCTR (r + x) < 1) :
    addEP usCTR r x = (r + x, 0) := by
  have hzero : recEP usCTR (r + x) = 0 := by
    rw [recEP, Nat.floor_eq_zero.2 h]
    rfl
  unfold addEP
  dsimp only
  rw [hzero]
  split
  · simp
  · rfl

/-- Where five divides the ratio and the count fits, the remainder gives
back what is counted. -/
theorem addEP_of_dvd (h5 : 5 ≤ usCTR.toNat) (hdvd : usCTR.toNat % 5 = 0) (hs : 0 ≤ r + x)
    (hfits : ⌊hundredths usCTR (r + x)⌋₊ < 65536) :
    (addEP usCTR r x).2.toNat = ⌊hundredths usCTR (r + x)⌋₊ ∧
      (addEP usCTR r x).1 = r + x -
        (⌊hundredths usCTR (r + x)⌋₊ : ℚ) / 100 / (usCTR.toNat / 5 : ℕ) := by
  obtain ⟨m, hm⟩ : ∃ m, usCTR.toNat = 5 * m := ⟨usCTR.toNat / 5, by omega⟩
  have hm0 : (0 : ℚ) < m := by
    have : 0 < m := by omega
    exact_mod_cast this
  have hratio : (usCTR / 5).toNat = m := by
    rw [toNat_ratio]
    omega
  have hquot : usCTR.toNat / 5 = m := by omega
  have hfloor := Nat.floor_le (hundredths_nonneg usCTR hs)
  have hscale : hundredths usCTR (r + x) = (r + x) * m * 100 := by
    rw [hundredths, hm]
    push_cast
    ring
  have hguard : (⌊hundredths usCTR (r + x)⌋₊ : ℚ) / 100 / m ≤ r + x := by
    rw [div_div, div_le_iff₀ (by positivity)]
    rw [hscale] at hfloor ⊢
    linarith
  unfold addEP
  dsimp only
  rw [toNat_recEP hfits, hratio, hquot, if_pos ⟨by omega, hguard⟩]
  exact ⟨toNat_recEP hfits, rfl⟩

theorem split_of_dvd (h5 : 5 ≤ usCTR.toNat) (hdvd : usCTR.toNat % 5 = 0) (hs : 0 ≤ r + x)
    (hfits : ⌊hundredths usCTR (r + x)⌋₊ < 65536) :
    Split usCTR (r + x) (addEP usCTR r x).2.toNat (addEP usCTR r x).1 := by
  obtain ⟨hu, hr⟩ := addEP_of_dvd h5 hdvd hs hfits
  obtain ⟨m, hm⟩ : ∃ m, usCTR.toNat = 5 * m := ⟨usCTR.toNat / 5, by omega⟩
  have hm0 : (0 : ℚ) < m := by
    have : 0 < m := by omega
    exact_mod_cast this
  have hquot : usCTR.toNat / 5 = m := by omega
  have hscale : (usCTR.toNat : ℚ) / 5 = m := by
    rw [hm]
    push_cast
    ring
  have hhund : hundredths usCTR (r + x) = (r + x) * m * 100 := by
    rw [hundredths, mul_div_assoc, hscale]
  have hfloor := Nat.floor_le (hundredths_nonneg usCTR hs)
  have hnext := Nat.lt_floor_add_one (hundredths usCTR (r + x))
  rw [hhund] at hfloor hnext
  rw [hu, hr, hquot, hhund]
  set n : ℚ := (⌊(r + x) * m * 100⌋₊ : ℚ)
  have hback : n / 100 / m * m = n / 100 := div_mul_cancel₀ _ hm0.ne'
  refine ⟨?_, ?_, ?_⟩
  · rw [hscale, sub_mul, hback]
    ring
  · rw [sub_nonneg, div_div, div_le_iff₀ (by positivity)]
    linarith
  · rw [hscale, sub_mul, hback]
    linarith

/-- A count that is given back whole was taken with a ratio that five
divides. -/
theorem dvd_of_split (h5 : 5 ≤ usCTR.toNat) (hfits : ⌊hundredths usCTR (r + x)⌋₊ < 65536)
    (hge : 1 ≤ hundredths usCTR (r + x))
    (h : Split usCTR (r + x) (addEP usCTR r x).2.toNat (addEP usCTR r x).1) :
    usCTR.toNat % 5 = 0 := by
  have hcount : (1 : ℚ) ≤ ⌊hundredths usCTR (r + x)⌋₊ := by
    have : 1 ≤ ⌊hundredths usCTR (r + x)⌋₊ := Nat.le_floor (by simpa using hge)
    exact_mod_cast this
  have hm0 : (0 : ℚ) < (usCTR.toNat / 5 : ℕ) := by
    have : 0 < usCTR.toNat / 5 := by omega
    exact_mod_cast this
  unfold addEP at h
  dsimp only at h
  rw [toNat_recEP hfits, toNat_ratio] at h
  split at h
  · have hcons := h.conserved
    rw [toNat_recEP hfits] at hcons
    set n : ℚ := (⌊hundredths usCTR (r + x)⌋₊ : ℚ)
    set m : ℚ := ((usCTR.toNat / 5 : ℕ) : ℚ) with hm
    have hback : n / 100 / m * m = n / 100 := div_mul_cancel₀ _ hm0.ne'
    have hsame : n / 100 / m * (usCTR.toNat / 5) = n / 100 / m * m := by
      rw [hback]
      linarith
    have hpos : n / 100 / m ≠ 0 := by positivity
    have hscale := mul_left_cancel₀ hpos hsame
    rw [hm, div_eq_iff (by norm_num)] at hscale
    have hnat : usCTR.toNat = usCTR.toNat / 5 * 5 := by exact_mod_cast hscale
    omega
  · have hbelow := h.below
    unfold hundredths at hge
    linarith

/-- **One reading**: it is split right exactly when it is countable. -/
theorem split_addEP_iff (h : Split usCTR e counted r) (hx : 0 ≤ x) :
    Exact usCTR (r + x) ∧
      Split usCTR (e + x) (counted + (addEP usCTR r x).2.toNat) (addEP usCTR r x).1 ↔
    Countable usCTR (r + x) := by
  have hs : 0 ≤ r + x := add_nonneg h.nonneg hx
  have hn := hundredths_nonneg usCTR hs
  rw [h.add_iff]
  constructor
  · rintro ⟨⟨hdiv, hfits⟩, hsplit⟩
    have h5 := ratio_ne_zero.1 hdiv
    refine ⟨h5, ?_⟩
    rcases lt_or_ge (hundredths usCTR (r + x)) 1 with hlt | hge
    · exact Or.inr hlt
    · refine Or.inl ⟨?_, (Nat.floor_lt hn).1 hfits⟩
      exact dvd_of_split h5 hfits hge hsplit
  · rintro ⟨h5, ⟨hdvd, hlt⟩ | hlt⟩
    · have hfits : ⌊hundredths usCTR (r + x)⌋₊ < 65536 := (Nat.floor_lt hn).2 hlt
      refine ⟨⟨ratio_ne_zero.2 h5, hfits⟩, ?_⟩
      exact split_of_dvd h5 hdvd hs hfits
    · refine ⟨⟨ratio_ne_zero.2 h5, ?_⟩, ?_⟩
      · rw [Nat.floor_eq_zero.2 hlt]
        omega
      · rw [addEP_of_lt_one hlt]
        refine ⟨by simp, hs, ?_⟩
        unfold hundredths at hlt
        linarith

/-! ## Runs -/

/-- What a call of `Acq_RTEnergy` reads: the registers of the active
energies, and the reactive energies it comes to. -/
structure ChipReading where
  ep : Fin 2 → Fin 4 → BitVec 24
  fEQ : Fin 2 → Vector UInt32 4

/-- The counters with `fEPremain[i*4+k]`, what was added to each counter and
the sum of its readings. -/
structure RemainderRun where
  meter : EnergyMeter
  fEPremain : Fin 2 → Fin 4 → ℚ
  added : Fin 2 → Fin 4 → ℕ
  energy : Fin 2 → Fin 4 → ℚ

namespace RemainderRun

variable (usCTR : Fin 2 → UInt16) (R : RemainderRun) (d : ChipReading)

/-- The remainder of a counter and what is added to it. -/
def next (i : Fin 2) (k : Fin 4) : ℚ × UInt16 :=
  addEP (usCTR i) (R.fEPremain i k) (epRead (d.ep i k))

/-- What the counters are given. -/
def metering (i : Fin 2) : Metering where
  usRecEP := .ofFn fun k => (R.next usCTR d i k).2
  fEQ := d.fEQ i

instance (m : EnergyMeter) (i : Fin 2) : Decidable (i ∈ m.metered) :=
  decidable_of_iff (m.metered.any (· == i) = true) (by simp)

/-- `Acq_RTEnergy`, with its remainders. -/
def step (R : RemainderRun) (d : ChipReading) : RemainderRun where
  meter := R.meter.acqRTEnergy (R.metering usCTR d)
  fEPremain := fun i k =>
    if i ∈ R.meter.metered then (R.next usCTR d i k).1 else R.fEPremain i k
  added := fun i k =>
    if i ∈ R.meter.metered then R.added i k + ((R.metering usCTR d i).usRecEP.get k).toNat
    else R.added i k
  energy := fun i k =>
    if i ∈ R.meter.metered then R.energy i k + epRead (d.ep i k) else R.energy i k

/-- Power comes on: the remainders are static and start at zero. -/
def init (meter : EnergyMeter) : RemainderRun :=
  ⟨meter, fun _ _ => 0, fun _ _ => 0, fun _ _ => 0⟩

/-- Every counter's energy is split into what was added and what is kept. -/
def Conserved : Prop := ∀ i k, Split (usCTR i) (R.energy i k) (R.added i k) (R.fEPremain i k)

/-- **A call neither loses nor invents energy**: no counter it goes through
divides by zero or loses bits, afterwards all energies are split, and the
counters have grown by what was added, modulo their 32 bits. -/
structure Conserves (R : RemainderRun) (d : ChipReading) : Prop where
  readings : ∀ i ∈ R.meter.metered, ∀ k, Exact (usCTR i) (R.fEPremain i k + epRead (d.ep i k))
  split : (R.step usCTR d).Conserved usCTR
  uiEP : ∀ i k, (((R.step usCTR d).meter.acqBusVar i).uiEP.get k).toNat =
    (((R.meter.acqBusVar i).uiEP.get k).toNat + ((R.step usCTR d).added i k - R.added i k)) %
      2 ^ 32

/-- Every counter the call goes through is countable. -/
def AllCountable (R : RemainderRun) (d : ChipReading) : Prop :=
  ∀ i ∈ R.meter.metered, ∀ k, Countable (usCTR i) (R.fEPremain i k + epRead (d.ep i k))

variable {usCTR R d}

theorem conserved_init (meter : EnergyMeter) : (init meter).Conserved usCTR := by
  intro i k
  refine ⟨?_, le_refl _, ?_⟩
  · simp [init]
  · norm_num [init]

theorem get_usRecEP (i : Fin 2) (k : Fin 4) :
    (R.metering usCTR d i).usRecEP.get k = (R.next usCTR d i k).2 :=
  Vector.getElem_ofFn _

/-- The counters hold what was added, modulo their 32 bits. -/
theorem uiEP_step (i : Fin 2) (k : Fin 4) :
    (((R.step usCTR d).meter.acqBusVar i).uiEP.get k).toNat =
      (((R.meter.acqBusVar i).uiEP.get k).toNat + ((R.step usCTR d).added i k - R.added i k)) %
        2 ^ 32 := by
  have hcounter := (R.meter.acqRTEnergy_apply (R.metering usCTR d) i).1
  change (((R.meter.acqRTEnergy (R.metering usCTR d)).acqBusVar i).uiEP.get k).toNat = _
  rw [hcounter]
  by_cases hi : i ∈ R.meter.metered
  · have hadded : (R.step usCTR d).added i k =
        R.added i k + ((R.metering usCTR d i).usRecEP.get k).toNat := if_pos hi
    rw [if_pos hi, hadded, Nat.add_sub_cancel_left, BusEnergy.get_add]
  · have hadded : (R.step usCTR d).added i k = R.added i k := if_neg hi
    rw [if_neg hi, hadded, Nat.sub_self, Nat.add_zero]
    exact (Nat.mod_eq_of_lt (UInt32.toNat_lt _)).symm

/-- **One call**: from split energies it conserves exactly when all is
countable. -/
theorem conserves_iff (h : R.Conserved usCTR) :
    R.Conserves usCTR d ↔ R.AllCountable usCTR d := by
  have hone : ∀ i ∈ R.meter.metered, ∀ k,
      (Exact (usCTR i) (R.fEPremain i k + epRead (d.ep i k)) ∧
        Split (usCTR i) ((R.step usCTR d).energy i k) ((R.step usCTR d).added i k)
          ((R.step usCTR d).fEPremain i k)) ↔
      Countable (usCTR i) (R.fEPremain i k + epRead (d.ep i k)) := by
    intro i hi k
    rw [← split_addEP_iff (h i k) (epRead_nonneg _)]
    have henergy : (R.step usCTR d).energy i k = R.energy i k + epRead (d.ep i k) := if_pos hi
    have hadded : (R.step usCTR d).added i k =
        R.added i k + ((R.metering usCTR d i).usRecEP.get k).toNat := if_pos hi
    have hremain : (R.step usCTR d).fEPremain i k = (R.next usCTR d i k).1 := if_pos hi
    rw [henergy, hadded, hremain, get_usRecEP]
    rfl
  constructor
  · rintro ⟨hexact, hsplit, -⟩ i hi k
    exact (hone i hi k).1 ⟨hexact i hi k, hsplit i k⟩
  · intro hall
    refine ⟨fun i hi k => ((hone i hi k).2 (hall i hi k)).1, fun i k => ?_, uiEP_step⟩
    by_cases hi : i ∈ R.meter.metered
    · exact ((hone i hi k).2 (hall i hi k)).2
    · -- a busbar that is not metered is not touched
      have henergy : (R.step usCTR d).energy i k = R.energy i k := if_neg hi
      have hadded : (R.step usCTR d).added i k = R.added i k := if_neg hi
      have hremain : (R.step usCTR d).fEPremain i k = R.fEPremain i k := if_neg hi
      rw [henergy, hadded, hremain]
      exact h i k

/-- **Energy is neither lost nor invented**, for every pair of ratios and
every sequence of readings, exactly as long as every call finds its counters
countable. -/
theorem energy_conserved_iff (usCTR : Fin 2 → UInt16) (meter : EnergyMeter)
    (readings : List ChipReading) :
    Meets (step usCTR) (Conserves usCTR) (init meter) readings ↔
      Meets (step usCTR) (AllCountable usCTR) (init meter) readings :=
  meets_congr readings (conserved_init meter) (fun _ _ _ h => h.split) fun _ _ h => conserves_iff h

/-- A unit of energy on the first counter. -/
def unitReading : ChipReading where
  ep := fun i k => if i = 0 ∧ k = 0 then 3200 else 0
  fEQ := fun _ => .replicate 4 0

/-- A single busbar. -/
def singleMeter : EnergyMeter := ⟨fun _ => .fill 0, fun _ => 0, busModeD, 0⟩

/-- At the ratio 12 the unit comes to 2.40, the integer quotient gives back
1.20, and the energy stays in the remainder. -/
theorem unit_not_counted :
    ¬ Meets (step fun _ => 12) (Conserves fun _ => 12) (init singleMeter) [unitReading] := by
  rintro ⟨h, -⟩
  have hcount := (conserves_iff (conserved_init singleMeter)).1 h 0 (by decide) 0
  have hund : hundredths 12 ((init singleMeter).fEPremain 0 0 + epRead (unitReading.ep 0 0)) =
      240 := by
    have hreg : (unitReading.ep 0 0).toNat = 3200 := rfl
    have hctr : (12 : UInt16).toNat = 12 := rfl
    rw [hundredths, epRead, hreg, hctr]
    norm_num [init]
  obtain ⟨-, ⟨hdvd, -⟩ | hlt⟩ := hcount
  · exact absurd hdvd (by decide)
  · rw [hund] at hlt
    norm_num at hlt

end RemainderRun

end BusMonitor
