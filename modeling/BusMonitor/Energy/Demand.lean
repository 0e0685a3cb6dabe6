import BusMonitor.Energy.Counters
import Mathlib.Algebra.BigOperators.Group.List.Basic
import Mathlib.Algebra.Field.Rat
/-!
# Demand values

`Acq_Req` of `app_Acquisition.c` is called once a minute. It adds the
samples of the metered busbars to `fReq_Buff`, and the call that brings
`ucCounter` to 15 publishes the means; `Acq_MAXClear` starts the maxima
again. Beside the meter a run keeps the samples taken since a busbar was
last published or cleared. The counter is reset by neither function, so
`demands_right` asks for a window that begins when the counter does.
-/


namespace BusMonitor

open Stepwise

/-! ## The meter -/

/-- The quantities of a demand, in the order of `fReq_Buff`. -/
inductive DemandKind where
  | ia
  | ib
  | ic
  | pa
  | pb
  | pc
  | pt
  deriving DecidableEq, Repr

/-- A value of each quantity, a sample or a demand. -/
abbrev Demand := DemandKind → ℚ≥0

/-- The demands of a busbar in `Ana_BusVar_st_a`, `fReqIa` to `fReqPt` and
`fMaxReqIa` to `fMaxReqPt`. -/
structure BusDemand where
  fReq : Demand
  fMaxReq : Demand

/-- The `float` of bytes `0x20`: its significand is `0xA02020`. -/
def spaces : ℚ≥0 := 10493984 / 2 ^ 86

/-- The bus mode, the static `ucCounter` of `Acq_Req`, `fReq_Buff[i*7+q]` and
the demands of both busbars. -/
structure DemandMeter where
  bBusMode : UInt8
  ucCounter : UInt8
  fReqBuff : Fin 2 → Demand
  ana : Fin 2 → BusDemand

/-- A busbar `Acq_Req` goes through. -/
def Metered (mode : UInt8) (i : Fin 2) : Prop := i.val < if TwoMeters mode then 2 else 1

instance (mode : UInt8) (i : Fin 2) : Decidable (Metered mode i) :=
  inferInstanceAs (Decidable (_ < _))

/-- The demands of a busbar with one published. -/
def BusDemand.publish (a : BusDemand) (fReq : Demand) : BusDemand where
  fReq := fReq
  fMaxReq := fun q => max (a.fMaxReq q) (fReq q)

namespace DemandMeter

variable (s : DemandMeter) (acqBusVar : Fin 2 → Demand)

/-- `fReq_Buff` with the samples added. -/
def added : Fin 2 → Demand := fun i q =>
  if Metered s.bBusMode i then s.fReqBuff i q + acqBusVar i q else s.fReqBuff i q

/-- The demands after the `memset` of the busbar that is not metered. -/
def filled : Fin 2 → BusDemand := fun i =>
  if ¬ TwoMeters s.bBusMode ∧ i = 1 then ⟨fun _ => spaces, fun _ => spaces⟩ else s.ana i

/-- `Acq_Req`. -/
def acqReq : DemandMeter :=
  let fReqBuff := s.added acqBusVar
  let ucCounter := s.ucCounter + 1
  if ucCounter = 15 then
    { s with
      ucCounter := ucCounter
      fReqBuff := fun _ _ => 0
      ana := fun i =>
        if Metered s.bBusMode i then (s.filled i).publish fun q => fReqBuff i q / 15
        else s.filled i }
  else { s with ucCounter := ucCounter, fReqBuff := fReqBuff, ana := s.filled }

/-- `Acq_MAXClear`. -/
def acqMAXClear : DemandMeter :=
  { s with
    fReqBuff := fun _ _ => 0
    ana := fun i => { s.ana i with fMaxReq := fun _ => 0 } }

/-- The meter when power comes on. -/
def powerOn (mode : UInt8) : DemandMeter :=
  ⟨mode, 0, fun _ _ => 0, fun _ => ⟨fun _ => 0, fun _ => 0⟩⟩

end DemandMeter

/-! ## Runs -/

/-- The meter, the samples of the calls of `Acq_Req` since a busbar was last
published or cleared (`none` for a call that does not meter it), and the
demands published since the last clear, the newest first. -/
structure DemandRun where
  meter : DemandMeter
  calls : Fin 2 → List (Option Demand)
  published : Fin 2 → List Demand

/-- What happens to the demands. -/
inductive DemandOp where
  | req (acqBusVar : Fin 2 → Demand)
  | maxClear
  | busMode (mode : UInt8)

/-- **The mean of exactly fifteen samples**, one from each call. -/
def IsMean (v : Demand) (calls : List (Option Demand)) : Prop :=
  ∃ l : List Demand, calls = l.map some ∧ l.length = 15 ∧ ∀ q, v q = (l.map (· q)).sum / 15

/-- The largest of some demands. -/
def maximum (published : List Demand) : Demand := fun q =>
  (published.map (· q)).foldr max 0

namespace DemandRun

variable (R : DemandRun) (i : Fin 2) (acqBusVar : Fin 2 → Demand)

def Metered : Prop := BusMonitor.Metered R.meter.bBusMode i

instance : Decidable (R.Metered i) := inferInstanceAs (Decidable (BusMonitor.Metered _ _))

/-- The next call of `Acq_Req` publishes the busbar. -/
def Publishes : Prop := R.Metered i ∧ R.meter.ucCounter + 1 = 15

instance : Decidable (R.Publishes i) := inferInstanceAs (Decidable (_ ∧ _))

/-- The calls since, with the one being made. -/
def callsWith : List (Option Demand) :=
  (if R.Metered i then some (acqBusVar i) else none) :: R.calls i

/-- One step of a run. -/
def step : DemandOp → DemandRun
  | .req acqBusVar =>
    { meter := R.meter.acqReq acqBusVar
      calls := fun i => if R.Publishes i then [] else R.callsWith i acqBusVar
      published := fun i =>
        if R.Publishes i then ((R.meter.acqReq acqBusVar).ana i).fReq :: R.published i
        else R.published i }
  | .maxClear => ⟨R.meter.acqMAXClear, fun _ => [], fun _ => []⟩
  | .busMode mode => { R with meter := { R.meter with bBusMode := mode } }

def init (mode : UInt8) : DemandRun := ⟨.powerOn mode, fun _ => [], fun _ => []⟩

/-- **The demands of a busbar are right**: what a step publishes is a mean,
and the maximum after it is that of what was published. -/
def Right (R : DemandRun) (op : DemandOp) : Prop :=
  (∀ acqBusVar, op = .req acqBusVar → R.Publishes i →
    IsMean ((R.meter.acqReq acqBusVar).ana i).fReq (R.callsWith i acqBusVar)) ∧
  ((R.step op).meter.ana i).fMaxReq = maximum ((R.step op).published i)

/-- **The condition on a step**: a call of `Acq_Req` meters the busbar, and
is the first one since it was published or cleared when it finds the
counter at zero; a clear does not come between the calls of a window. -/
def Timely (R : DemandRun) : DemandOp → Prop
  | .req _ => R.Metered i ∧ (R.meter.ucCounter = 0 → R.calls i = [])
  | .maxClear => R.meter.ucCounter = 0 ∨ 15 ≤ R.meter.ucCounter
  | .busMode _ => True

instance : ∀ op, Decidable (R.Timely i op)
  | .req _ => inferInstanceAs (Decidable (_ ∧ (_ → _)))
  | .maxClear => inferInstanceAs (Decidable (_ ∨ _))
  | .busMode _ => isTrue trivial

/-- A call of `Acq_Req` meters the busbar. -/
def Meters (R : DemandRun) : DemandOp → Prop
  | .req _ => R.Metered i
  | _ => True

/-! ## What a step preserves -/

variable {R i acqBusVar}


/-- The window of a busbar, as long as the steps are timely: every call
metered it, the accumulators hold the sums, and from the first call of a
window to the fourteenth the counter counts them. -/
structure Counted (R : DemandRun) (i : Fin 2) (l : List Demand) : Prop where
  calls : R.calls i = l.map some
  sums : ∀ q, R.meter.fReqBuff i q = (l.map (· q)).sum
  counter : R.meter.ucCounter ≠ 0 → R.meter.ucCounter < 15 →
    l.length = R.meter.ucCounter.toNat
  maxima : (R.meter.ana i).fMaxReq = maximum (R.published i)

theorem counted_init (mode : UInt8) : Counted (init mode) i [] where
  calls := rfl
  sums _ := rfl
  counter h := absurd rfl h
  maxima := rfl

theorem maximum_cons (v : Demand) (published : List Demand) :
    maximum (v :: published) = fun q => max (v q) (maximum published q) := rfl

theorem filled_of_metered (h : R.Metered i) : R.meter.filled i = R.meter.ana i := by
  unfold DemandMeter.filled
  refine if_neg ?_
  rintro ⟨hone, rfl⟩
  unfold Metered BusMonitor.Metered at h
  rw [if_neg hone] at h
  exact absurd h (by decide)

theorem added_of_metered (h : R.Metered i) (q : DemandKind) :
    R.meter.added acqBusVar i q = R.meter.fReqBuff i q + acqBusVar i q :=
  if_pos h

/-- A call that publishes. -/
theorem acqReq_of_publishes (h : R.Publishes i) :
    (R.meter.acqReq acqBusVar).ana i = (R.meter.ana i).publish fun q =>
      (R.meter.fReqBuff i q + acqBusVar i q) / 15 := by
  obtain ⟨hm, hc⟩ := h
  have hana : (R.meter.acqReq acqBusVar).ana i = if R.Metered i then
      (R.meter.filled i).publish fun q => R.meter.added acqBusVar i q / 15
      else R.meter.filled i := by
    unfold DemandMeter.acqReq
    rw [if_pos hc]
    rfl
  rw [hana, if_pos hm, filled_of_metered hm]
  simp only [added_of_metered hm]

/-- A call that does not. -/
theorem acqReq_of_not_publishes (acqBusVar : Fin 2 → Demand) (hm : R.Metered i)
    (h : ¬ R.Publishes i) :
    (R.meter.acqReq acqBusVar).ana i = R.meter.ana i ∧
      ∀ q, (R.meter.acqReq acqBusVar).fReqBuff i q = R.meter.fReqBuff i q + acqBusVar i q := by
  have hc : ¬ R.meter.ucCounter + 1 = 15 := fun hc => h ⟨hm, hc⟩
  unfold DemandMeter.acqReq
  rw [if_neg hc]
  exact ⟨filled_of_metered hm, added_of_metered hm⟩

/-- **The maximum** follows what is published, whenever that is. -/
theorem maxima_step {op : DemandOp} (h : (R.meter.ana i).fMaxReq = maximum (R.published i))
    (hm : R.Meters i op) :
    ((R.step op).meter.ana i).fMaxReq = maximum ((R.step op).published i) := by
  cases op with
  | req acqBusVar =>
    change ((R.meter.acqReq acqBusVar).ana i).fMaxReq = _
    by_cases hp : R.Publishes i
    · have hpub : (R.step (.req acqBusVar)).published i =
          ((R.meter.acqReq acqBusVar).ana i).fReq :: R.published i := if_pos hp
      rw [hpub, maximum_cons, ← h, acqReq_of_publishes hp]
      funext q
      exact max_comm _ _
    · have hpub : (R.step (.req acqBusVar)).published i = R.published i := if_neg hp
      rw [hpub, ← h, (acqReq_of_not_publishes acqBusVar hm hp).1]
  | maxClear => rfl
  | busMode mode => exact h

theorem ucCounter_acqReq :
    (R.meter.acqReq acqBusVar).ucCounter = R.meter.ucCounter + 1 := by
  unfold DemandMeter.acqReq
  dsimp only
  split <;> rfl

theorem toNat_succ (c : UInt8) : (c + 1).toNat = (c.toNat + 1) % 256 := by
  rw [UInt8.toNat_add]
  rfl

namespace Counted

variable {l : List Demand}

/-- The fifteenth call of a window publishes its mean. -/
theorem isMean (h : Counted R i l) (hp : R.Publishes i) :
    IsMean ((R.meter.acqReq acqBusVar).ana i).fReq (R.callsWith i acqBusVar) := by
  refine ⟨acqBusVar i :: l, ?_, ?_, fun q => ?_⟩
  · rw [callsWith, if_pos hp.1, h.calls, List.map_cons]
  · have hc : R.meter.ucCounter = 14 := by
      have h15 := congrArg UInt8.toNat hp.2
      have hbound := R.meter.ucCounter.toNat_lt
      rw [toNat_succ] at h15
      apply UInt8.toNat.inj
      simp only [UInt8.reduceToNat] at h15 ⊢
      omega
    have hlen := h.counter (by rw [hc]; decide) (by rw [hc]; decide)
    rw [List.length_cons, hlen, hc]
    rfl
  · rw [acqReq_of_publishes hp, List.map_cons, List.sum_cons, ← h.sums q, add_comm]
    rfl

theorem req (h : Counted R i l) (ht : R.Timely i (.req acqBusVar)) :
    ∃ l', Counted (R.step (.req acqBusVar)) i l' := by
  obtain ⟨hm, hfirst⟩ := ht
  by_cases hp : R.Publishes i
  · have h15 : (R.meter.acqReq acqBusVar).ucCounter = 15 := ucCounter_acqReq.trans hp.2
    refine ⟨[], if_pos hp, fun q => ?_, fun _ hlt => ?_, ?_⟩
    · have hbuff : (R.meter.acqReq acqBusVar).fReqBuff = fun _ _ => 0 := by
        unfold DemandMeter.acqReq
        rw [if_pos hp.2]
      exact congrFun (congrFun hbuff i) q
    · rw [step, h15] at hlt
      exact absurd hlt (by decide)
    · exact maxima_step h.maxima hm
  · have hbuff := (acqReq_of_not_publishes acqBusVar hm hp).2
    refine ⟨acqBusVar i :: l, ?_, fun q => ?_, fun hne hlt => ?_, ?_⟩
    · have hcalls : (R.step (.req acqBusVar)).calls i = R.callsWith i acqBusVar := if_neg hp
      rw [hcalls, callsWith, if_pos hm, h.calls, List.map_cons]
    · exact (hbuff q).trans (by rw [h.sums q, List.map_cons, List.sum_cons, add_comm])
    · change (R.meter.acqReq acqBusVar).ucCounter ≠ 0 at hne
      change (R.meter.acqReq acqBusVar).ucCounter < 15 at hlt
      change (acqBusVar i :: l).length = (R.meter.acqReq acqBusVar).ucCounter.toNat
      rw [ucCounter_acqReq] at hne hlt ⊢
      have hne' : (R.meter.ucCounter + 1).toNat ≠ 0 := fun h0 => hne (UInt8.toNat.inj h0)
      have hlt' : (R.meter.ucCounter + 1).toNat < 15 := UInt8.lt_iff_toNat_lt.1 hlt
      rw [toNat_succ] at hne' hlt' ⊢
      rw [List.length_cons]
      by_cases h0 : R.meter.ucCounter = 0
      · -- the first call of a window
        have hl : l = [] := List.map_eq_nil_iff.1 (h.calls.symm.trans (hfirst h0))
        rw [hl, h0]
        rfl
      · have hbound := R.meter.ucCounter.toNat_lt
        have hc : R.meter.ucCounter.toNat < 15 := by omega
        have hlen := h.counter h0 (UInt8.lt_iff_toNat_lt.2 hc)
        omega
    · exact maxima_step h.maxima hm

/-- **One step** of the invariant. -/
theorem step {op : DemandOp} (h : Counted R i l) (ht : R.Timely i op) :
    ∃ l', Counted (R.step op) i l' := by
  cases op with
  | req acqBusVar => exact h.req ht
  | maxClear =>
    refine ⟨[], rfl, fun q => rfl, fun hne hlt => ?_, rfl⟩
    rcases ht with h0 | h15
    · exact absurd h0 hne
    · exact absurd hlt (UInt8.not_lt.2 h15)
  | busMode mode => exact ⟨l, h.calls, h.sums, h.counter, h.maxima⟩

end Counted

/-! ## The law -/

/-- **Demand values.** In every run from power-up whose steps are timely for
a busbar, every demand published for it is the mean of exactly fifteen
samples of consecutive calls since it was last published or cleared, and in
every state its maximum demand is that of the demands published since the
last clear. -/
theorem demands_right (i : Fin 2) (mode : UInt8) (ops : List DemandOp)
    (h : Meets step (fun R op => R.Timely i op) (init mode) ops) :
    Meets step (fun R op => R.Right i op) (init mode) ops := by
  refine h.imp (I := fun R => ∃ l, Counted R i l) ⟨[], counted_init mode⟩ ?_ ?_
  · rintro R op ⟨l, hl⟩ ht
    exact hl.step ht
  · rintro R op ⟨l, hl⟩ ht
    obtain ⟨l', hl'⟩ := hl.step ht
    refine ⟨?_, hl'.maxima⟩
    rintro acqBusVar rfl hp
    exact hl.isMean hp

/-- **The maximum demand.** In every run from power-up whose calls meter a
busbar, timely or not, its maximum demand is that of the demands published
since the last clear. -/
theorem maxima_right (i : Fin 2) (mode : UInt8) (ops : List DemandOp)
    (h : Meets step (fun R op => R.Meters i op) (init mode) ops) :
    ((run step (init mode) ops).meter.ana i).fMaxReq =
      maximum ((run step (init mode) ops).published i) :=
  h.invariant (I := fun R => (R.meter.ana i).fMaxReq = maximum (R.published i)) rfl
    fun _ _ hmax hm => maxima_step hmax hm

/-- A minute with the sample one. -/
def minute : DemandOp := .req fun _ _ => 1

/-- A window of the second busbar, a clear after it, and a change between
the modes with two meters. -/
theorem demands_right_window : Meets step (fun R op => R.Right 1 op) (init busModeS)
    (List.replicate 15 minute ++ [.maxClear, .busMode busModeY]) :=
  demands_right 1 busModeS _ (by decide +kernel)

/-- A clear in the middle of a window: the eight samples after it are
published as a mean of fifteen. -/
theorem cleared_window_not_right : ¬ Meets step (fun R op => R.Right 0 op) (init busModeD)
    (List.replicate 7 minute ++ .maxClear :: List.replicate 8 minute) := by
  intro h
  have hlast := ((meets_append (init busModeD)
    (List.replicate 7 minute ++ .maxClear :: List.replicate 7 minute) [minute]).1 h).2.1
  obtain ⟨l, hl, hlen, -⟩ := hlast.1 _ rfl (by decide +kernel)
  have h8 := congrArg List.length hl
  rw [List.length_map, hlen] at h8
  exact absurd h8 (by decide +kernel)

end DemandRun

end BusMonitor
