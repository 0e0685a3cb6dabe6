import Mathlib.Order.Lattice
import BusMonitor.Energy.Effect
/-!
# Energy of a range of months

Every query is the difference of two readings: the energy stored up to a
month, brought into the range from the base to the current month
(`ep_gPTEQuery`). So the energy of a range is that of its parts, whatever
the FRAM holds (`gPTEQuery_add`).
-/


namespace BusMonitor

variable {s : EnergyStore} {now : Clock} {usTimeS usTimeE : Nat}

/-- A month brought into the range a query can answer for. The base wins
where the clock is behind it. -/
def answeredMonth (base month usTime : Nat) : Nat := max base (min usTime month)

/-- The counters up to a month: none at the base or before, and those of
its slot after it. -/
def energyUpTo (s : EnergyStore) (usTime : Nat) : Vector UInt32 8 :=
  if usTime ≤ s.usPTEBaseTime then .replicate 8 0
  else (readPTEnergy s.fram (nPTEAddr s.usPTEBaseTime usTime)).ep

theorem get_sub (u v : Vector UInt32 8) (i : Fin 8) :
    (Vector.zipWith (· - ·) u v).get i = u.get i - v.get i :=
  Vector.getElem_zipWith i.isLt

/-- What the query reads for its start. -/
theorem ep_start : (if usTimeS ≤ s.usPTEBaseTime then zeroPTEnergy
    else readPTEnergy s.fram (nPTEAddr s.usPTEBaseTime usTimeS)).ep = energyUpTo s usTimeS := by
  unfold energyUpTo
  split
  · rfl
  · rfl

/-- A range with nothing to answer for starts and stops at one month. -/
theorem answeredMonth_eq_of_empty {base month : Nat} (hle : usTimeS ≤ usTimeE)
    (hempty : ¬ (queryStart base usTimeS < queryStop month usTimeE ∧
      base < queryStop month usTimeE)) :
    answeredMonth base month usTimeE = answeredMonth base month usTimeS := by
  unfold queryStart queryStop at hempty
  unfold answeredMonth
  split_ifs at hempty <;> omega

/-- **A query is a difference of readings**, at its stop and at its start,
each at the month answered for. -/
theorem ep_gPTEQuery (hle : usTimeS ≤ usTimeE) (i : Fin 8) :
    (gPTEQuery s now usTimeS usTimeE).ep.get i =
      (energyUpTo s (answeredMonth s.usPTEBaseTime (gPTEFTime now) usTimeE)).get i -
        (energyUpTo s (answeredMonth s.usPTEBaseTime (gPTEFTime now) usTimeS)).get i := by
  by_cases hsome : queryStart s.usPTEBaseTime usTimeS < queryStop (gPTEFTime now) usTimeE ∧
      s.usPTEBaseTime < queryStop (gPTEFTime now) usTimeE
  · have hstop : answeredMonth s.usPTEBaseTime (gPTEFTime now) usTimeE =
        queryStop (gPTEFTime now) usTimeE := by
      unfold queryStart queryStop at hsome
      unfold answeredMonth queryStop
      split_ifs at hsome ⊢ <;> omega
    have hstart : energyUpTo s (answeredMonth s.usPTEBaseTime (gPTEFTime now) usTimeS) =
        energyUpTo s usTimeS := by
      unfold queryStart queryStop at hsome
      -- below the base both read nothing; above it the start is not cut
      by_cases hbase : usTimeS ≤ s.usPTEBaseTime
      · have hcut : answeredMonth s.usPTEBaseTime (gPTEFTime now) usTimeS ≤ s.usPTEBaseTime := by
          unfold answeredMonth
          omega
        rw [energyUpTo, if_pos hcut, energyUpTo, if_pos hbase]
      · have hkept : answeredMonth s.usPTEBaseTime (gPTEFTime now) usTimeS = usTimeS := by
          unfold answeredMonth
          split_ifs at hsome <;> omega
        rw [hkept]
    have hread : energyUpTo s (queryStop (gPTEFTime now) usTimeE) =
        (readPTEnergy s.fram (nPTEAddr s.usPTEBaseTime (queryStop (gPTEFTime now) usTimeE))).ep :=
      if_neg (by omega)
    rw [hstop, hstart, hread, ← ep_start]
    unfold queryStart queryStop at hsome
    simp only [gPTEQuery, if_pos hsome, queryStop, get_sub]
  · have hzero : gPTEQuery s now usTimeS usTimeE = zeroPTEnergy := by
      unfold queryStart queryStop at hsome
      simp only [gPTEQuery, if_neg hsome]
    rw [hzero, answeredMonth_eq_of_empty hle hsome, UInt32.sub_self]
    exact Vector.getElem_replicate i.isLt

/-- **Energy queries add up**, each counter modulo 2^32. -/
theorem gPTEQuery_add (s : EnergyStore) (now : Clock) {a b c : Nat} (hab : a ≤ b) (hbc : b ≤ c)
    (i : Fin 8) : (gPTEQuery s now a b).ep.get i + (gPTEQuery s now b c).ep.get i =
      (gPTEQuery s now a c).ep.get i := by
  rw [ep_gPTEQuery hab, ep_gPTEQuery hbc, ep_gPTEQuery (hab.trans hbc)]
  grind

/-- From before the base, a December, to January and on to March, over a
FRAM that holds at every address its low byte. -/
theorem gPTEQuery_add_before_base :
    let s : EnergyStore := ⟨fun x => UInt8.ofNat x, 0x170C, 0⟩
    (gPTEQuery s (march 0) 0x0001 0x1801).ep.get 3 +
        (gPTEQuery s (march 0) 0x1801 0x1803).ep.get 3 =
      (gPTEQuery s (march 0) 0x0001 0x1803).ep.get 3 ∧
    (gPTEQuery s (march 0) 0x0001 0x1801).ep.get 3 ≠ 0 ∧
      (gPTEQuery s (march 0) 0x1801 0x1803).ep.get 3 ≠ 0 :=
  ⟨gPTEQuery_add _ _ (by decide) (by decide) 3, by decide +kernel, by decide +kernel⟩

end BusMonitor
