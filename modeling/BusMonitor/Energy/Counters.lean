import BusMonitor.Energy.Model
import BusMonitor.Lib.Run
import Mathlib.Order.Fin.Basic
/-!
# The energy counters

`app_Acquisition.c`. The counters of a busbar live among its measurements
and have a copy in the FRAM. `Acq_BusVar` fills the second busbar with a
pattern where the bus mode does not meter it, the counters included;
`Acq_RTEnergy` adds to the counters and stores them whole. Beside them a
run keeps the sum of what was added, and `counts_right_iff` says when the
stored counters agree with it.
-/


namespace BusMonitor

open LittleEndian Stepwise

/-! ## Counters of a busbar -/

/-- The 32 bytes from `uiEPa` on: the active energies, and the reactive
ones by the bits of their `float`. -/
structure BusEnergy where
  uiEP : Vector UInt32 4
  fEQ : Vector UInt32 4
  deriving DecidableEq, Repr

/-- The words of the counters, in the order they are stored in. -/
def BusEnergy.words (c : BusEnergy) : List Nat :=
  c.uiEP.toList.map UInt32.toNat ++ c.fEQ.toList.map UInt32.toNat

/-- The 32 bytes of the counters. -/
def BusEnergy.toBytes (c : BusEnergy) : List UInt8 := encodeAll 4 c.words

/-- The counters stored in the 32 bytes from `a` on. -/
def readBusEnergy (m : Mem) (a : Nat) : BusEnergy where
  uiEP := .ofFn fun k => UInt32.ofNat (decode (m.read (a + 4 * k) 4))
  fEQ := .ofFn fun k => UInt32.ofNat (decode (m.read (a + 4 * (4 + k)) 4))

/-- Every byte the same. -/
def BusEnergy.fill (b : UInt8) : BusEnergy where
  uiEP := .replicate 4 (UInt32.ofNat (decode [b, b, b, b]))
  fEQ := .replicate 4 (UInt32.ofNat (decode [b, b, b, b]))

/-- Where the counters of a busbar are stored. -/
def energyAddr (i : Fin 2) : Nat := fmAddrEPRealTime + 32 * i

@[simp] theorem BusEnergy.length_words (c : BusEnergy) : c.words.length = 8 := by
  simp [words]

@[simp] theorem BusEnergy.length_toBytes (c : BusEnergy) : c.toBytes.length = 32 := by
  simp [toBytes]

theorem BusEnergy.words_lt (c : BusEnergy) {n : Nat} (hn : n ∈ c.words) : n < 256 ^ 4 := by
  obtain hn | hn := List.mem_append.1 hn
  all_goals
    obtain ⟨w, -, rfl⟩ := List.mem_map.1 hn
    exact w.toNat_lt

/-- A word is read back from its place. -/
theorem BusEnergy.decode_word (c : BusEnergy) {m : Mem} {a k : Nat} (hk : k < c.words.length) :
    decode ((m.write a c.toBytes).read (a + 4 * k) 4) = c.words[k] := by
  rw [toBytes, read_write_encodeAll hk]
  exact decode_encode (c.words_lt (List.getElem_mem hk))

/-- **Round trip.** The counters stored are the counters read. -/
theorem readBusEnergy_write (m : Mem) (a : Nat) (c : BusEnergy) :
    readBusEnergy (m.write a c.toBytes) a = c := by
  obtain ⟨uiEP, fEQ⟩ := c
  unfold readBusEnergy
  congr 1
  · refine Vector.ext fun k hk => ?_
    have hword := (BusEnergy.mk uiEP fEQ).decode_word (m := m) (a := a) (k := k) (by simp; omega)
    rw [Vector.getElem_ofFn, hword]
    simp [BusEnergy.words, hk]
  · refine Vector.ext fun k hk => ?_
    have hword := (BusEnergy.mk uiEP fEQ).decode_word (m := m) (a := a) (k := 4 + k)
      (by simp; omega)
    rw [Vector.getElem_ofFn, hword]
    simp [BusEnergy.words]

/-- The counters of one busbar are stored apart from those of the other. -/
theorem readBusEnergy_write_ne (m : Mem) {i j : Fin 2} (hij : i ≠ j) (c : BusEnergy) :
    readBusEnergy (m.write (energyAddr j) c.toBytes) (energyAddr i) =
      readBusEnergy m (energyAddr i) := by
  have hword (k : Nat) (hk : k < 8) : (m.write (energyAddr j) c.toBytes).read
      (energyAddr i + 4 * k) 4 = m.read (energyAddr i + 4 * k) 4 := by
    refine Mem.read_write_disjoint ?_
    rw [BusEnergy.length_toBytes]
    unfold energyAddr
    omega
  unfold readBusEnergy
  refine congrArg₂ BusEnergy.mk (congrArg Vector.ofFn (funext fun k => ?_))
    (congrArg Vector.ofFn (funext fun k => ?_))
  · rw [hword k (by omega)]
  · rw [hword (4 + k) (by omega)]

/-! ## The acquisition -/

/-- What one call of `Acq_RTEnergy` takes from the meter of a busbar: the
hundredths of a unit it adds to the active energies (0 where its test on
the remainder fails) and the reactive energies it comes to. -/
structure Metering where
  usRecEP : Vector UInt16 4
  fEQ : Vector UInt32 4

/-- The counters after a metering. -/
def BusEnergy.add (c : BusEnergy) (d : Metering) : BusEnergy where
  uiEP := .zipWith (fun w u => w + u.toUInt32) c.uiEP d.usRecEP
  fEQ := d.fEQ

/-- The counters of both busbars, the FRAM, the bus mode and the counter
of `Data_TaskFun`. -/
structure EnergyMeter where
  acqBusVar : Fin 2 → BusEnergy
  fram : Mem
  bBusMode : UInt8
  timeCounter : Nat

/-- The bus modes with two meters. -/
def TwoMeters (mode : UInt8) : Prop := mode = busModeS ∨ mode = busModeY

instance (mode : UInt8) : Decidable (TwoMeters mode) := inferInstanceAs (Decidable (_ ∨ _))

namespace EnergyMeter

variable (s : EnergyMeter)

/-- The counters the FRAM holds for a busbar. -/
def stored (i : Fin 2) : BusEnergy := readBusEnergy s.fram (energyAddr i)

/-- Counters of a busbar, in the RAM and in the FRAM. -/
def setBus (i : Fin 2) (c : BusEnergy) : EnergyMeter :=
  { s with
    acqBusVar := Function.update s.acqBusVar i c
    fram := s.fram.write (energyAddr i) c.toBytes }

/-- The busbars `Acq_RTEnergy` goes through. -/
def metered : List (Fin 2) := if TwoMeters s.bBusMode then [0, 1] else [0]

/-- What `Acq_BusVar` does to the counters. -/
def acqBusVarPass : EnergyMeter :=
  if TwoMeters s.bBusMode then s
  else { s with acqBusVar := Function.update s.acqBusVar 1 (.fill 0x20) }

/-- `Acq_RTEnergy`. -/
def acqRTEnergy (d : Fin 2 → Metering) : EnergyMeter :=
  s.metered.foldl (fun s i => s.setBus i ((s.acqBusVar i).add (d i))) s

/-- `Acq_EnergyClear`. -/
def acqEnergyClear : EnergyMeter := (s.setBus 0 (.fill 0)).setBus 1 (.fill 0)

/-- `Acq_EnergyInit`. -/
def acqEnergyInit : EnergyMeter := { s with acqBusVar := s.stored }

/-- One pass of `Data_TaskFun`. -/
def dataPass (d : Fin 2 → Metering) : EnergyMeter :=
  let s := s.acqBusVarPass
  let s := if s.timeCounter % 10 = 0 then s.acqRTEnergy d else s
  { s with timeCounter := (if s.timeCounter = 30 then 0 else s.timeCounter) + 1 }

/-- Power comes on: the RAM is cleared and the counters are read. -/
def powerUp (fram : Mem) (mode : UInt8) : EnergyMeter :=
  acqEnergyInit ⟨fun _ => .fill 0, fram, mode, 0⟩

/-! ## What the calls change -/

variable {s : EnergyMeter}

theorem mem_metered {i : Fin 2} : i ∈ s.metered ↔ i = 0 ∨ TwoMeters s.bBusMode := by
  unfold metered
  split
  · next h =>
    have hi : i = 0 ∨ i = 1 := by omega
    simp [h, hi]
  · next h => simp [h]

theorem stored_setBus (i j : Fin 2) (c : BusEnergy) :
    (s.setBus i c).stored j = if j = i then c else s.stored j := by
  unfold stored setBus
  split
  · next h => rw [h, readBusEnergy_write]
  · next h => exact readBusEnergy_write_ne _ h c

theorem acqBusVar_setBus (i j : Fin 2) (c : BusEnergy) :
    (s.setBus i c).acqBusVar j = if j = i then c else s.acqBusVar j :=
  Function.update_apply ..

/-- **`Acq_RTEnergy`** adds to the counters of the metered busbars, in the
RAM and from there in the FRAM. -/
theorem acqRTEnergy_apply (d : Fin 2 → Metering) (i : Fin 2) :
    (s.acqRTEnergy d).acqBusVar i =
      (if i ∈ s.metered then (s.acqBusVar i).add (d i) else s.acqBusVar i) ∧
    (s.acqRTEnergy d).stored i =
      (if i ∈ s.metered then (s.acqBusVar i).add (d i) else s.stored i) := by
  unfold acqRTEnergy metered
  by_cases h : TwoMeters s.bBusMode
  · rw [if_pos h]
    simp only [List.foldl_cons, List.foldl_nil, stored_setBus, acqBusVar_setBus]
    match i with
    | 0 => simp
    | 1 => simp
  · rw [if_neg h]
    simp only [List.foldl_cons, List.foldl_nil, stored_setBus, acqBusVar_setBus,
      List.mem_singleton]
    by_cases hi : i = 0
    · simp [hi]
    · simp [hi]

@[simp] theorem acqBusVarPass_fram : s.acqBusVarPass.fram = s.fram := by
  unfold acqBusVarPass
  split <;> rfl

@[simp] theorem acqBusVarPass_mode : s.acqBusVarPass.bBusMode = s.bBusMode := by
  unfold acqBusVarPass
  split <;> rfl

@[simp] theorem acqBusVarPass_timeCounter : s.acqBusVarPass.timeCounter = s.timeCounter := by
  unfold acqBusVarPass
  split <;> rfl

@[simp] theorem acqBusVarPass_metered : s.acqBusVarPass.metered = s.metered := by
  unfold metered
  rw [acqBusVarPass_mode]

@[simp] theorem acqBusVarPass_stored (i : Fin 2) : s.acqBusVarPass.stored i = s.stored i := by
  unfold stored
  rw [acqBusVarPass_fram]

theorem acqBusVarPass_apply (i : Fin 2) : s.acqBusVarPass.acqBusVar i =
    if i ∈ s.metered then s.acqBusVar i else .fill 0x20 := by
  have hi : i = 0 ∨ i = 1 := by omega
  unfold acqBusVarPass metered
  by_cases h : TwoMeters s.bBusMode
  · rw [if_pos h, if_pos h, if_pos (by simpa using hi)]
  · rw [if_neg h, if_neg h]
    rcases hi with rfl | rfl
    · rfl
    · rfl

/-- The passes in which `Data_TaskFun` calls `Acq_RTEnergy`. -/
def Due (s : EnergyMeter) : Prop := s.timeCounter % 10 = 0

instance : Decidable s.Due := inferInstanceAs (Decidable (_ = _))

/-- **One pass**: the counters of a busbar that is not metered are
overwritten in the RAM; the others are added to and stored when due. -/
theorem dataPass_apply (d : Fin 2 → Metering) (i : Fin 2) :
    (s.dataPass d).acqBusVar i = (if i ∈ s.metered then
      if s.Due then (s.acqBusVar i).add (d i) else s.acqBusVar i else .fill 0x20) ∧
    (s.dataPass d).stored i =
      if i ∈ s.metered ∧ s.Due then (s.acqBusVar i).add (d i) else s.stored i := by
  have hbus := acqBusVarPass_apply (s := s) i
  obtain ⟨hram, hstored⟩ := acqRTEnergy_apply (s := s.acqBusVarPass) d i
  rw [acqBusVarPass_metered] at hram hstored
  rw [hbus] at hram hstored
  have hpass : (s.dataPass d).acqBusVar i =
      (if s.acqBusVarPass.timeCounter % 10 = 0 then s.acqBusVarPass.acqRTEnergy d
        else s.acqBusVarPass).acqBusVar i ∧
    (s.dataPass d).stored i =
      (if s.acqBusVarPass.timeCounter % 10 = 0 then s.acqBusVarPass.acqRTEnergy d
        else s.acqBusVarPass).stored i := ⟨rfl, rfl⟩
  rw [hpass.1, hpass.2, acqBusVarPass_timeCounter]
  by_cases hdue : s.Due
  · rw [if_pos (show s.timeCounter % 10 = 0 from hdue), hram, hstored]
    by_cases hi : i ∈ s.metered
    · simp [hi, hdue]
    · simp [hi]
  · rw [if_neg (show ¬ s.timeCounter % 10 = 0 from hdue), hbus, acqBusVarPass_stored]
    simp [hdue]

/-- A clear writes what the clearing of the monthly records assumes. -/
theorem acqEnergyClear_fram (base : Nat) (flag : UInt8) :
    s.acqEnergyClear.fram = (BusMonitor.acqEnergyClear ⟨s.fram, base, flag⟩).fram := by
  have hbytes : (BusEnergy.fill 0).toBytes = List.replicate 32 0 := by decide +kernel
  unfold acqEnergyClear setBus
  simp only [hbytes]
  rfl

theorem acqEnergyClear_apply (i : Fin 2) :
    s.acqEnergyClear.acqBusVar i = .fill 0 ∧ s.acqEnergyClear.stored i = .fill 0 := by
  have hi : i = 0 ∨ i = 1 := by omega
  unfold acqEnergyClear
  rw [acqBusVar_setBus, stored_setBus, acqBusVar_setBus, stored_setBus]
  rcases hi with rfl | rfl
  · simp
  · simp

end EnergyMeter

theorem BusEnergy.get_add (c : BusEnergy) (d : Metering) (k : Fin 4) :
    ((c.add d).uiEP.get k).toNat =
      ((c.uiEP.get k).toNat + (d.usRecEP.get k).toNat) % 2 ^ 32 := by
  have hget : (c.add d).uiEP.get k = c.uiEP.get k + (d.usRecEP.get k).toUInt32 :=
    Vector.getElem_zipWith ..
  rw [hget, UInt32.toNat_add, UInt16.toNat_toUInt32]

/-! ## Runs -/

/-- The counters, the sum of what was added to each active energy since
the last clear, and whether the second busbar was overwritten since its
counters were last read or cleared. -/
structure MeterRun where
  meter : EnergyMeter
  counted : Fin 2 → Fin 4 → Nat
  filled : Bool

/-- What happens to the counters: a pass of `Data_TaskFun`, a change of
the bus mode, a clear, a restart. -/
inductive MeterOp where
  | pass (d : Fin 2 → Metering)
  | busMode (mode : UInt8)
  | clear
  | restart

namespace MeterRun

open EnergyMeter

/-- One step of a run. -/
def step (R : MeterRun) : MeterOp → MeterRun
  | .pass d =>
    { meter := R.meter.dataPass d
      counted := fun i k => if i ∈ R.meter.metered ∧ R.meter.Due then
          R.counted i k + ((d i).usRecEP.get k).toNat
        else R.counted i k
      filled := if 1 ∈ R.meter.metered then R.filled && !R.meter.Due else true }
  | .busMode mode => { R with meter := { R.meter with bBusMode := mode } }
  | .clear => ⟨R.meter.acqEnergyClear, fun _ _ => 0, false⟩
  | .restart => { R with meter := powerUp R.meter.fram R.meter.bBusMode, filled := false }

/-- Power comes on over the counters of the FRAM. -/
def init (fram : Mem) (mode : UInt8) : MeterRun where
  meter := powerUp fram mode
  counted i k := ((readBusEnergy fram (energyAddr i)).uiEP.get k).toNat
  filled := false

/-- The stored counters are the sums, to 32 bits. -/
def Counts (R : MeterRun) : Prop :=
  ∀ i k, ((R.meter.stored i).uiEP.get k).toNat = R.counted i k % 2 ^ 32

instance (R : MeterRun) : Decidable R.Counts := inferInstanceAs (Decidable (∀ _ _, _ = _))

/-- **A step is right** if the stored counters are the sums after it, and
after `Acq_RTEnergy` those of a metered busbar are stored. -/
def StepRight (R : MeterRun) (op : MeterOp) : Prop :=
  (R.step op).Counts ∧ match op with
    | .pass _ => R.meter.Due → ∀ i ∈ R.meter.metered,
      (R.step op).meter.acqBusVar i = (R.step op).meter.stored i
    | _ => True

instance (R : MeterRun) (op : MeterOp) : Decidable (R.StepRight op) := by
  unfold StepRight
  cases op <;> infer_instance

/-- **The condition on a step**: the second busbar is not added to while
it is overwritten, or its stored counters are the pattern by chance. -/
def StepOk (R : MeterRun) : MeterOp → Prop
  | .pass _ => 1 ∈ R.meter.metered → R.meter.Due → R.filled = true →
    (R.meter.stored 1).uiEP = (BusEnergy.fill 0x20).uiEP
  | _ => True

instance (R : MeterRun) (op : MeterOp) : Decidable (R.StepOk op) := by
  unfold StepOk
  cases op <;> infer_instance

/-! ## The invariant -/

variable {R : MeterRun} {op : MeterOp}

/-- The stored counters are the sums; those of the RAM are stored, but for
the second busbar while it is overwritten. -/
structure Sound (R : MeterRun) : Prop where
  counts : R.Counts
  busA : R.meter.acqBusVar 0 = R.meter.stored 0
  busB : R.meter.acqBusVar 1 = if R.filled = true then .fill 0x20 else R.meter.stored 1

theorem sound_init (fram : Mem) (mode : UInt8) : (init fram mode).Sound where
  counts _ _ := (Nat.mod_eq_of_lt (UInt32.toNat_lt _)).symm
  busA := rfl
  busB := rfl

/-- The counters that are added to are those of the FRAM. -/
theorem Sound.metered_eq (h : R.Sound) {d : Fin 2 → Metering} (hok : R.StepOk (.pass d))
    {i : Fin 2} (hi : i ∈ R.meter.metered) (hdue : R.meter.Due) :
    (R.meter.acqBusVar i).uiEP = (R.meter.stored i).uiEP := by
  have hcase : i = 0 ∨ i = 1 := by omega
  rcases hcase with rfl | rfl
  · rw [h.busA]
  · rw [h.busB]
    split
    · -- over the pattern the condition says that the two agree
      next hf => exact (hok hi hdue hf).symm
    · rfl

theorem Sound.pass (h : R.Sound) {d : Fin 2 → Metering} (hok : R.StepOk (.pass d)) :
    (R.step (.pass d)).Sound := by
  have happly := dataPass_apply (s := R.meter) d
  refine ⟨fun i k => ?_, ?_, ?_⟩
  · change (((R.meter.dataPass d).stored i).uiEP.get k).toNat = (if i ∈ R.meter.metered ∧
      R.meter.Due then R.counted i k + ((d i).usRecEP.get k).toNat else R.counted i k) % 2 ^ 32
    rw [(happly i).2]
    by_cases hadd : i ∈ R.meter.metered ∧ R.meter.Due
    · rw [if_pos hadd, if_pos hadd, BusEnergy.get_add, h.metered_eq hok hadd.1 hadd.2,
        h.counts i k, Nat.mod_add_mod]
    · rw [if_neg hadd, if_neg hadd, h.counts i k]
  · change (R.meter.dataPass d).acqBusVar 0 = (R.meter.dataPass d).stored 0
    rw [(happly 0).1, (happly 0).2, if_pos (mem_metered.2 (.inl rfl)), h.busA]
    simp [mem_metered]
  · change (R.meter.dataPass d).acqBusVar 1 = if (if 1 ∈ R.meter.metered then
      R.filled && !R.meter.Due else true) = true then .fill 0x20 else (R.meter.dataPass d).stored 1
    rw [(happly 1).1, (happly 1).2, h.busB]
    by_cases hi : 1 ∈ R.meter.metered
    · by_cases hdue : R.meter.Due
      · simp [hi, hdue]
      · simp [hi, hdue]
    · simp [hi]

/-- **One step** that meets the condition. -/
theorem Sound.step (h : R.Sound) (hok : R.StepOk op) : (R.step op).Sound := by
  cases op with
  | pass d => exact h.pass hok
  | busMode mode => exact ⟨h.counts, h.busA, h.busB⟩
  | clear =>
    refine ⟨fun i k => ?_, ?_, ?_⟩
    · change ((R.meter.acqEnergyClear.stored i).uiEP.get k).toNat = 0 % 2 ^ 32
      have hzero : (BusEnergy.fill 0).uiEP.get k = 0 := Vector.getElem_replicate ..
      rw [(acqEnergyClear_apply i).2, hzero]
      rfl
    · exact (acqEnergyClear_apply 0).1.trans (acqEnergyClear_apply 0).2.symm
    · exact (acqEnergyClear_apply 1).1.trans (acqEnergyClear_apply 1).2.symm
  | restart => exact ⟨h.counts, rfl, rfl⟩

theorem Sound.stepRight (h : R.Sound) (hok : R.StepOk op) : R.StepRight op := by
  refine ⟨(h.step hok).counts, ?_⟩
  cases op with
  | pass d =>
    intro hdue i hi
    change (R.meter.dataPass d).acqBusVar i = (R.meter.dataPass d).stored i
    obtain ⟨hram, hstored⟩ := dataPass_apply (s := R.meter) d i
    rw [hram, hstored, if_pos hi, if_pos hdue, if_pos ⟨hi, hdue⟩]
  | _ => trivial

/-- Adding to the pattern loses the stored count. -/
theorem Sound.stepOk (h : R.Sound) (hright : R.StepRight op) : R.StepOk op := by
  cases op with
  | pass d =>
    intro hi hdue hf
    refine Vector.ext fun k hk => UInt32.toNat_inj.1 ?_
    have hcount := hright.1 1 ⟨k, hk⟩
    change (((R.meter.dataPass d).stored 1).uiEP.get ⟨k, hk⟩).toNat = (if 1 ∈ R.meter.metered ∧
      R.meter.Due then R.counted 1 ⟨k, hk⟩ + ((d 1).usRecEP.get ⟨k, hk⟩).toNat
        else R.counted 1 ⟨k, hk⟩) % 2 ^ 32 at hcount
    have hold := h.counts 1 ⟨k, hk⟩
    rw [(dataPass_apply d 1).2, if_pos ⟨hi, hdue⟩, if_pos ⟨hi, hdue⟩, BusEnergy.get_add, h.busB,
      if_pos hf] at hcount
    -- the same increment on both sides, modulo 2 ^ 32
    have hlt := ((BusEnergy.fill 0x20).uiEP.get ⟨k, hk⟩).toNat_lt
    have hlt' := ((R.meter.stored 1).uiEP.get ⟨k, hk⟩).toNat_lt
    change ((R.meter.stored 1).uiEP.get ⟨k, hk⟩).toNat =
      ((BusEnergy.fill 0x20).uiEP.get ⟨k, hk⟩).toNat
    omega
  | _ => trivial

/-- **The stored counters count energy**, in exactly the runs that do not
add to the second busbar while it is overwritten. -/
theorem counts_right_iff (fram : Mem) (mode : UInt8) (ops : List MeterOp) :
    Meets step StepRight (init fram mode) ops ↔ Meets step StepOk (init fram mode) ops :=
  (meets_congr ops (sound_init fram mode) (fun _ _ h hok => h.step hok) fun _ _ h =>
    ⟨h.stepRight, h.stepOk⟩).symm

/-- A pass that adds 5 to every counter. -/
def addFive : MeterOp := .pass fun _ => ⟨.replicate 4 5, .replicate 4 0⟩

/-- One pass in mode D, then ten in mode S: the last one adds to the
pattern. -/
theorem pattern_counted : ¬ Meets step StepRight (init (fun _ => 0) busModeD)
    (addFive :: .busMode busModeS :: List.replicate 10 addFive) := by
  decide +kernel

end MeterRun

end BusMonitor
