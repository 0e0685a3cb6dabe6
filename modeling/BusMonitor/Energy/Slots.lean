import BusMonitor.Energy.Effect
import BusMonitor.Lib.Run
import Mathlib.Data.Prod.Lex
/-!
# What the slots hold

Runs of the energy store: the clock goes on, `gPTE_Save` is called, the
energy is cleared, the device restarts, a query is made. Beside the store
a run keeps the records `gPTE_Save` has written since the last clearing.
`queries_honest` says in which runs a query reads nothing else.
-/


namespace BusMonitor

open LittleEndian Month Stepwise

/-! ## Runs -/

/-- The clock as it is compared: the month, then the minute in it. -/
def Clock.time (now : Clock) : ℕ ×ₗ ℕ ×ₗ ℕ ×ₗ ℕ :=
  toLex (gPTEFTime now, toLex (now.date, toLex (now.hours, now.minutes)))

/-- The energy store and the clock, with the records written since the
last clearing. -/
structure EnergyRun where
  store : EnergyStore
  now : Clock
  saved : Nat → Option PTEnergy

/-- What happens to the store. Without power the clock goes on and the
device restarts after it. -/
inductive EnergyOp where
  | advance (later : Clock)
  | save (ep : Vector UInt32 8)
  | clear
  | restart
  | query (usTimeS usTimeE : Nat)

namespace EnergyRun

/-- Codes of the base and of the current month. -/
def base (R : EnergyRun) : Nat := R.store.usPTEBaseTime

def month (R : EnergyRun) : Nat := gPTEFTime R.now

/-- One step of a run. The clock does not go back. -/
def step (R : EnergyRun) : EnergyOp → EnergyRun
  | .advance later => if R.now.time ≤ later.time then { R with now := later } else R
  | .save ep =>
    { R with
      store := gPTESave R.store R.now ep
      saved := if Saves R.store R.now then
          Function.update R.saved R.month (some (currentRecord R.now ep))
        else R.saved }
  | .clear =>
    { R with
      store := gPTEBaseTime (acqEnergyClear R.store) R.now
      saved := fun _ => none }
  | .restart => { R with store := .powerUp R.store.fram }
  | .query _ _ => R

/-- The device as it is first switched on. -/
def init (fram : Mem) (now : Clock) : EnergyRun := ⟨.powerUp fram, now, fun _ => none⟩

/-- The slot read for `t` holds the record `gPTE_Save` wrote for its month
since the last clearing. An endpoint need not be the code of a month: the
13th month of a year, which the firmware asks for when the base is a
December, is the January of the next. -/
def Holds (R : EnergyRun) (t : Nat) : Prop :=
  ∃ r, R.saved (ofIndex (index t)) = some r ∧
    R.store.fram.read (nPTEAddr R.base t) sizeofPTEnergy = r.toBytes

/-- **An honest query** takes its answer from slots that hold the record
of their month. -/
def Honest (R : EnergyRun) : EnergyOp → Prop
  | .query usTimeS usTimeE => ∀ t ∈ usedMonths R.base R.month usTimeS usTimeE, R.Holds t
  | _ => True

/-- **The condition on a step**. The months after the base are not missed:
the clock leaves the first minute of one only with the record stored, and
a new month follows the last one and starts with its first minute and the
save flag down. A query that uses a slot finds a base, asks for a month
after it and up to the current one, and finds the record of the current
month not still to come. -/
def StepOk (R : EnergyRun) : EnergyOp → Prop
  | .advance later => R.now.time ≤ later.time → R.base ≠ 0 → R.base < gPTEFTime later →
    (R.base < R.month → Pending R.store R.now → gPTEFTime later = R.month ∧ later.FirstMinute) ∧
    (gPTEFTime later ≠ R.month → index (gPTEFTime later) = index R.month + 1 ∧
      Pending R.store later)
  | .query usTimeS usTimeE => ∀ t ∈ usedMonths R.base R.month usTimeS usTimeE,
    R.base ≠ 0 ∧ index R.base < index t ∧ index t ≤ index R.month ∧
      (index t = index R.month → ¬ Pending R.store R.now)
  | _ => True

instance (R : EnergyRun) (op : EnergyOp) : Decidable (R.StepOk op) := by
  unfold StepOk
  split <;> infer_instance

/-! ## The invariant -/

variable {R : EnergyRun} {op : EnergyOp}

/-- The header mirrors the store, the base is a month, and every month
after it has its record, but for the current one while it is pending. -/
structure Sound (R : EnergyRun) : Prop where
  mirrored : Mirrored R.store
  isCode : R.base ≠ 0 → IsCode R.base
  holds : R.base ≠ 0 → ∀ t, IsCode t → R.base < t → t ≤ R.month →
    (t = R.month → ¬ Pending R.store R.now) → R.Holds t

theorem sound_init {fram : Mem} (hf : readWord fram fmAddrEPPastTime ≠ initMark) (now : Clock) :
    (init fram now).Sound where
  mirrored := mirrored_powerUp hf
  isCode hb := absurd (congrArg EnergyStore.usPTEBaseTime (powerUp_unmarked hf)) hb
  holds hb := absurd (congrArg EnergyStore.usPTEBaseTime (powerUp_unmarked hf)) hb

/-- Slots that are left alone hold what they held. -/
theorem Holds.of_sameSlots {R' : EnergyRun} {t : Nat} (h : R.Holds t)
    (hsaved : R'.saved = R.saved) (hbase : R'.base = R.base)
    (hslots : SameSlots R.store.fram R'.store.fram)
    (ha : fmAddrEPPastTime + fmOffsetPTE ≤ nPTEAddr R.base t) : R'.Holds t := by
  obtain ⟨r, hr, hread⟩ := h
  refine ⟨r, (congrFun hsaved _).trans hr, ?_⟩
  rw [hbase, hslots.read ha, hread]

/-- The clock goes on: a month it comes to is pending. -/
theorem Sound.advance (h : R.Sound) {later : Clock} (hok : R.StepOk (.advance later)) :
    (R.step (.advance later)).Sound := by
  by_cases hfwd : R.now.time ≤ later.time
  · have hstep : R.step (.advance later) = { R with now := later } := if_pos hfwd
    rw [hstep]
    refine ⟨h.mirrored, h.isCode, fun hb t ht hbt hle hpend => ?_⟩
    change t ≤ gPTEFTime later at hle
    change t = gPTEFTime later → ¬ Pending R.store later at hpend
    obtain ⟨hleave, henter⟩ := hok hfwd hb (hbt.trans_le hle)
    refine h.holds hb t ht hbt ?_ ?_
    · by_cases hm : gPTEFTime later = R.month
      · exact hle.trans hm.le
      · -- the new month is pending, so `t` is one of those before it
        obtain ⟨hindex, hnew⟩ := henter hm
        have hne : t ≠ gPTEFTime later := fun he => hpend he hnew
        have hlt := (index_lt_index ht (isCode_gPTEFTime later)).2 (by omega)
        by_contra hgt
        have := (index_lt_index (isCode_gPTEFTime R.now) ht).2 (Nat.lt_of_not_le hgt)
        change index R.month < index t at this
        omega
    · rintro rfl hp
      obtain ⟨hm, hfirst⟩ := hleave hbt hp
      exact hpend hm.symm ⟨hfirst, hp.2⟩
  · rw [show R.step (.advance later) = R from if_neg hfwd]
    exact h

/-- A record in its slot leaves the slots of the other months, and the
header, as they are. -/
theorem Sound.recorded (h : R.Sound) (hs : Saves R.store R.now) (ep : Vector UInt32 8) :
    Sound ⟨recorded (rebase R.store R.now) R.now ep, R.now,
      Function.update R.saved R.month (some (currentRecord R.now ep))⟩ := by
  have hcode := isCode_rebase h.isCode R.now
  have haddr := nPTEAddr_month hcode (isCode_gPTEFTime R.now) hs.2 le_rfl
  have hstart : fmAddrEPPastTime + fmOffsetPTE = 0x3006 := rfl
  refine ⟨(h.mirrored.rebase.write (.inr (by omega))).setFlag 1, fun _ => hcode, ?_⟩
  intro _ t ht hbt hle _
  change (rebase R.store R.now).usPTEBaseTime < t at hbt
  change t ≤ gPTEFTime R.now at hle
  have hat := nPTEAddr_month hcode ht hbt hle
  by_cases htm : t = gPTEFTime R.now
  · subst htm
    refine ⟨currentRecord R.now ep, ?_, recorded_read_self (by omega)⟩
    rw [ofIndex_index ht]
    exact Function.update_self ..
  · -- an earlier month, so the base is the old one and its record was there
    have hb : R.store.usPTEBaseTime ≠ 0 := by
      intro hb
      rw [rebase_base, if_pos hb] at hbt
      exact htm (eq_of_monthBefore_lt ht hbt hle)
    have hsame : rebase R.store R.now = R.store := if_neg hb
    have hdisj := nPTEAddr_disjoint hcode ht (isCode_gPTEFTime R.now) hbt hs.2 hle le_rfl htm
    rw [hsame] at hbt hat hdisj ⊢
    obtain ⟨r, hr, hread⟩ := h.holds hb t ht hbt hle fun he => absurd he htm
    refine ⟨r, ?_, (recorded_read_disjoint (by omega) hdisj).trans hread⟩
    rw [ofIndex_index ht] at hr ⊢
    exact (Function.update_of_ne htm ..).trans hr

/-- `gPTE_Save` stores the record of a pending month, and disturbs no other
slot. -/
theorem Sound.save (h : R.Sound) (ep : Vector UInt32 8) : (R.step (.save ep)).Sound := by
  have hstep : R.step (.save ep) = ⟨gPTESave R.store R.now ep, R.now,
      if Saves R.store R.now then Function.update R.saved R.month (some (currentRecord R.now ep))
        else R.saved⟩ := rfl
  rw [hstep]
  rcases gPTESave_cases R.store R.now ep with ⟨hs, he⟩ | ⟨hle, he⟩ | ⟨hp, he⟩
  · rw [he, if_pos hs]
    exact h.recorded hs ep
  · -- no month comes after the base
    rw [he, if_neg fun hs => absurd hs.2 (Nat.not_lt.2 hle)]
    exact ⟨h.mirrored.rebase, fun _ => isCode_rebase h.isCode R.now,
      fun _ t _ hbt hnow => absurd (hnow.trans hle) (Nat.not_le.2 hbt)⟩
  · rw [he, if_neg fun hs => hp hs.1]
    have hbase : (lowerFlag R.store R.now).usPTEBaseTime = R.base := lowerFlag_base
    refine ⟨h.mirrored.lowerFlag, fun hb => ?_, fun hb t ht hbt hle _ => ?_⟩
    · rw [base, hbase] at hb ⊢
      exact h.isCode hb
    rw [base, hbase] at hb hbt
    have hat := nPTEAddr_month (h.isCode hb) ht hbt hle
    exact (h.holds hb t ht hbt hle fun _ => hp).of_sameSlots rfl hbase lowerFlag_sameSlots
      (by rw [hat]; exact Nat.le_add_right _ _)

/-- A clear leaves no month after the base. -/
theorem Sound.clear (h : R.Sound) : (R.step .clear).Sound where
  mirrored := h.mirrored.acqEnergyClear.setBase (gPTEFTime_lt R.now)
  isCode _ := isCode_gPTEFTime R.now
  holds _ _ _ hbt hle := absurd hle (Nat.not_le.2 hbt)

theorem Sound.restart (h : R.Sound) : R.step .restart = R := by
  change ({ R with store := .powerUp R.store.fram } : EnergyRun) = R
  rw [h.mirrored.powerUp]

/-- **One step** keeps the slots sound. -/
theorem Sound.step (h : R.Sound) (hok : R.StepOk op) : (R.step op).Sound := by
  cases op with
  | advance later => exact h.advance hok
  | save ep => exact h.save ep
  | clear => exact h.clear
  | restart => rwa [h.restart]
  | query usTimeS usTimeE => exact h

/-- The month an endpoint stands for has the slot that is read for the
endpoint. -/
theorem nPTEAddr_ofIndex {base t : Nat} {now : Clock} (hcode : IsCode base)
    (hb : index base < index t) (hnow : index t ≤ index (gPTEFTime now))
    (hle : t ≤ gPTEFTime now) : nPTEAddr base t = nPTEAddr base (ofIndex (index t)) := by
  have hone := hcode.one_le_index
  have hmonth := index_gPTEFTime_le now
  have hlt := gPTEFTime_lt now
  have hindex : index (ofIndex (index t)) = index t := index_ofIndex (by omega)
  have hcodes := (index_lt_index hcode (isCode_ofIndex (index t))).1 (by omega)
  have hofle : ofIndex (index t) < 65536 := by
    unfold ofIndex
    omega
  rw [nPTEAddr_eq hb (by omega) (by omega) (by omega),
    nPTEAddr_eq (by omega) (by omega) (by omega) hofle, hindex]

theorem Sound.honest (h : R.Sound) (hok : R.StepOk op) : R.Honest op := by
  cases op with
  | query usTimeS usTimeE =>
    intro t ht
    obtain ⟨hb, hafter, hupto, hpend⟩ := hok t ht
    obtain ⟨-, hle⟩ := bounds_of_mem_usedMonths ht
    have hcode := h.isCode hb
    have hone := hcode.one_le_index
    have hmonth := isCode_ofIndex (index t)
    have hnow : IsCode R.month := isCode_gPTEFTime R.now
    have hindex : index (ofIndex (index t)) = index t := index_ofIndex (by omega)
    have hle' : ofIndex (index t) ≤ R.month := by
      by_contra hgt
      have := (index_lt_index hnow hmonth).2 (Nat.lt_of_not_le hgt)
      omega
    obtain ⟨r, hr, hread⟩ := h.holds hb _ hmonth
      ((index_lt_index hcode hmonth).1 (by omega)) hle' fun he => hpend (by rw [← he, hindex])
    rw [hindex] at hr
    exact ⟨r, hr, (congrArg (R.store.fram.read · _)
      (nPTEAddr_ofIndex hcode hafter hupto hle)).trans hread⟩
  | _ => trivial

/-- **Queries are honest** in every run that misses no month after the
base and asks for none that is still to come. -/
theorem queries_honest {fram : Mem} (hf : readWord fram fmAddrEPPastTime ≠ initMark) (now : Clock)
    (ops : List EnergyOp) (hok : Meets step StepOk (init fram now) ops) :
    Meets step Honest (init fram now) ops :=
  hok.imp (sound_init hf now) (fun _ _ h ho => h.step ho) fun _ _ h ho => h.honest ho

/-- Two months stored, with a restart between them. What was used in the
first, and the month after the base, a December. -/
theorem two_months_honest : Meets step Honest (init (fun _ => 0xFF) (january 0))
    [.save (.replicate 8 100), .advance (january 1), .save (.replicate 8 100), .restart,
      .advance (february 0), .save (.replicate 8 250), .query 0x1801 0x1802,
      .query 0x170C 0x170D] :=
  queries_honest (by decide) _ _ (by decide +kernel)

/-- The power goes off in January and comes back in March. -/
def februaryMissed : List EnergyOp :=
  [.save (.replicate 8 100), .advance (january 1), .save (.replicate 8 100), .advance (march 0),
    .restart, .save (.replicate 8 250)]

/-- A query reads a slot never written, before the device has a base, and
for a month the power was off. -/
theorem slots_not_written :
    ¬ Meets step Honest (init (fun _ => 0xFF) (march 0)) [.query 0 0x1803] ∧
    ¬ Meets step Honest (init (fun _ => 0xFF) (january 0))
      (februaryMissed ++ [.query 0x1802 0x1803]) := by
  constructor
  · intro h
    obtain ⟨r, hr, -⟩ := h.1 0x1803 (by decide +kernel)
    exact Option.some_ne_none r hr.symm
  · intro h
    rw [meets_append] at h
    have hnone : (run step (init (fun _ => 0xFF) (january 0)) februaryMissed).saved 0x1802 =
        none := by decide +kernel
    obtain ⟨r, hr, -⟩ := h.2.1 0x1802 (by decide +kernel)
    exact Option.some_ne_none r (hr.symm.trans hnone)

end EnergyRun

end BusMonitor
