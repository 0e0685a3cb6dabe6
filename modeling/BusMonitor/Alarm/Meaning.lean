import BusMonitor.Alarm.Table
/-!
# The meaning of the alarm table

After a pass the entry of an event should show the alarm type of the
current sample where the event is monitored, and no alarm elsewhere, and
should be what the same pass leaves after power-up. Because an entry is
written on a transition alone, an event whose remembered state agrees with
the sample keeps a marker that was written over it, one that is no longer
evaluated keeps its alarm, and a stray marker hides what it lands on. The
condition `EntryCond` excludes these cases and no others.
-/


namespace BusMonitor

open Stepwise

/-- The value is an active alarm type. -/
def Active (v : UInt8) : Prop :=
  v = eAlmTypeUnder ∨ v = eAlmTypeOver ∨ v = eAlmTypeOverSec

instance (v : UInt8) : Decidable (Active v) := inferInstanceAs (Decidable (_ ∨ _))

/-! ## The verdict of a pass and the sample -/

theorem voltFreqType_cases (value : Single) (u l : UInt16) :
    voltFreqType value u l = eAlmTypeNormal ∨ Active (voltFreqType value u l) := by
  unfold voltFreqType Active
  split
  · exact .inr (.inr (.inl rfl))
  · split
    · exact .inr (.inl rfl)
    · exact .inl rfl

theorem currentType_cases (value : Single) (u l : UInt16) :
    currentType value u l = eAlmTypeNormal ∨ Active (currentType value u l) := by
  unfold currentType Active
  split
  · exact .inr (.inr (.inr rfl))
  · split
    · exact .inr (.inr (.inl rfl))
    · exact .inl rfl

theorem powerType_cases (value : Single) (u : UInt16) :
    powerType value u = eAlmTypeNormal ∨ Active (powerType value u) := by
  unfold powerType Active
  split
  · exact .inr (.inr (.inl rfl))
  · exact .inl rfl

theorem analogType_cases (x : Sample) (num : Fin 2) (j : Nat) :
    analogType x num j = eAlmTypeNormal ∨ Active (analogType x num j) := by
  unfold analogType
  dsimp only
  split
  · exact voltFreqType_cases ..
  · split
    · exact currentType_cases ..
    · split
      · exact powerType_cases ..
      · exact voltFreqType_cases ..

/-- A one-bit state is the type of a normal or of a tripped switch. -/
theorem bit_active {b : UInt8} (hb : b = 0 ∨ b = 1) : b = eAlmTypeNormal ∨ Active b := by
  rcases hb with rfl | rfl
  · exact .inl rfl
  · exact .inr (.inl rfl)

theorem switchState_bit {x : Sample} {num : Fin 2} {b : UInt8} (h : switchState x num = some b) :
    b = 0 ∨ b = 1 := by
  unfold switchState at h
  dsimp only at h
  split at h
  · exact Option.some.inj h ▸ BusStatus.bQF_cases _
  · split at h
    · split at h
      · exact Option.some.inj h ▸ BusStatus.bQF_cases _
      · split at h
        · rw [← Option.some.inj h]
          split
          · exact .inr rfl
          · exact .inl rfl
        · cases h
    · cases h

theorem arresterState_bit {x : Sample} {num : Fin 2} {b : UInt8}
    (h : arresterState x num = some b) : b = 0 ∨ b = 1 := by
  unfold arresterState at h
  dsimp only at h
  split at h
  · exact Option.some.inj h ▸ BusStatus.bSPD_cases _
  · cases h

theorem shown_of_monitored {x : Sample} {e : AlmEvent} (h : Monitored x e) :
    shown x e = sampleType x e := if_pos h

theorem shown_of_not_monitored {x : Sample} {e : AlmEvent} (h : ¬ Monitored x e) :
    shown x e = eAlmTypeNormal := if_neg h

/-- A switch or an arrester shows its state where that is read. -/
theorem shown_of_state {x : Sample} {e : Fin 20} {o : Option UInt8}
    (h : (e.1 % 10 = 8 ∧ o = switchState x (busOf e)) ∨
      (e.1 % 10 = 9 ∧ o = arresterState x (busOf e))) :
    evaluation x (.bus e) = o.map .judged ∧ shown x (.bus e) = o.getD eAlmTypeNormal := by
  have hd : (Monitored x (.bus e) ↔ o.isSome = true) ∧
      sampleType x (.bus e) = o.getD eAlmTypeNormal ∧
      evaluation x (.bus e) = o.map .judged := by
    rcases h with ⟨h8, rfl⟩ | ⟨h9, rfl⟩
    · simp [Monitored, sampleType, evaluation, h8]
    · simp [Monitored, sampleType, evaluation, h9]
  refine ⟨hd.2.2, ?_⟩
  cases ho : o with
  | none => exact shown_of_not_monitored fun hm => by simp [hd.1, ho] at hm
  | some b => rw [shown_of_monitored (hd.1.2 (by rw [ho]; rfl)), hd.2.1, ho]

/-- An analog event shows the type of its value, on a monitored busbar. -/
theorem shown_of_analog {x : Sample} {e : Fin 20} (h8 : e.1 % 10 ≠ 8) (h9 : e.1 % 10 ≠ 9) :
    (BusMonitored x (busOf e) →
      shown x (.bus e) = analogType x (busOf e) (e.1 % 10) ∧
      evaluation x (.bus e) = some (valueVerdict (analogValue (x.acqBusVar.get (busOf e)) (e.1 % 10))
        (analogType x (busOf e) (e.1 % 10)))) ∧
    (¬ BusMonitored x (busOf e) → evaluation x (.bus e) = none) := by
  have hm : Monitored x (.bus e) ↔ BusMonitored x (busOf e) := by simp [Monitored, h8, h9]
  refine ⟨fun hB => ⟨?_, ?_⟩, fun hB => ?_⟩
  · rw [shown_of_monitored (hm.2 hB)]
    simp only [sampleType, if_neg h8, if_neg h9]
  · simp only [evaluation, if_neg h8, if_neg h9, if_pos hB]
  · simp only [evaluation, if_neg h8, if_neg h9, if_neg hB]

/-- A branch shows whether it is tripped, where branches are monitored. -/
theorem shown_of_branch (x : Sample) (k : Fin 144) :
    shown x (.branch k) = if x.optimset.setup.bQF = 1 ∧ (x.ucBranchState.get k) = eActiveOFF
      then eAlmTypeIOTrip else eAlmTypeNormal := by
  by_cases hq : x.optimset.setup.bQF = 1
  · rw [shown_of_monitored (show Monitored x (.branch k) from hq), sampleType]
    simp [hq]
  · rw [shown_of_not_monitored (show ¬ Monitored x (.branch k) from hq), if_neg (by simp [hq])]

/-- **A judged event shows what it is judged to be**: it is monitored, and
the type is that of the current sample. -/
theorem shown_of_judged {x : Sample} {e : AlmEvent} {t : UInt8}
    (h : evaluation x e = some (.judged t)) :
    shown x e = t ∧ (t = eAlmTypeNormal ∨ Active t) := by
  cases e with
  | bus e =>
    have hstate {o : Option UInt8} (ho : evaluation x (.bus e) = o.map .judged ∧
        shown x (.bus e) = o.getD eAlmTypeNormal) (hbit : ∀ b, o = some b → b = 0 ∨ b = 1) :
        shown x (.bus e) = t ∧ (t = eAlmTypeNormal ∨ Active t) := by
      obtain ⟨b, hb, hbt⟩ := Option.map_eq_some_iff.1 (ho.1.symm.trans h)
      obtain rfl := Verdict.judged.inj hbt
      exact ⟨by rw [ho.2, hb]; rfl, bit_active (hbit b hb)⟩
    by_cases h8 : e.1 % 10 = 8
    · exact hstate (shown_of_state (.inl ⟨h8, rfl⟩)) fun b => switchState_bit
    by_cases h9 : e.1 % 10 = 9
    · exact hstate (shown_of_state (.inr ⟨h9, rfl⟩)) fun b => arresterState_bit
    · by_cases hB : BusMonitored x (busOf e)
      · obtain ⟨hs, hv⟩ := (shown_of_analog h8 h9).1 hB
        obtain ⟨-, rfl⟩ := valueVerdict_judged (Option.some.inj (hv.symm.trans h))
        exact ⟨hs, analogType_cases ..⟩
      · exact absurd ((shown_of_analog h8 h9).2 hB ▸ h) (by simp)
  | branch k =>
    rw [shown_of_branch]
    simp only [evaluation, Option.some.injEq] at h
    rcases ioVerdict_judged h with ⟨hst, rfl⟩ | ⟨hst, rfl⟩ <;> split at hst
    · exact ⟨if_pos ⟨‹_›, hst⟩, .inr (.inl rfl)⟩
    · cases hst
    · refine ⟨if_neg fun hoff => ?_, .inl rfl⟩
      rw [hst] at hoff
      exact absurd hoff.2 (by decide)
    · cases hst

/-- **An event of the table without a verdict** should show no alarm, and
receives no stray marker. -/
theorem shown_of_silent {x : Sample} {e : AlmEvent} (hin : InTable x e)
    (h : (evaluation x e).bind Verdict.op = none) :
    shown x e = eAlmTypeNormal ∧ ¬ StrayMark x e := by
  cases e with
  | bus e =>
    have hstray (hr : e.1 % 10 = 8 ∨ e.1 % 10 = 9) : ¬ StrayMark x (.bus e) := by
      rintro (⟨he, -⟩ | ⟨he, -⟩) <;> rw [AlmEvent.bus.injEq] at he <;> subst he <;> revert hr <;>
        decide
    have hstate {o : Option UInt8} (ho : evaluation x (.bus e) = o.map .judged ∧
        shown x (.bus e) = o.getD eAlmTypeNormal) : shown x (.bus e) = eAlmTypeNormal := by
      rw [ho.1] at h
      cases o with
      | none => exact ho.2
      | some b => cases h
    by_cases h8 : e.1 % 10 = 8
    · exact ⟨hstate (shown_of_state (.inl ⟨h8, rfl⟩)), hstray (.inl h8)⟩
    by_cases h9 : e.1 % 10 = 9
    · exact ⟨hstate (shown_of_state (.inr ⟨h9, rfl⟩)), hstray (.inr h9)⟩
    · -- an analog event of a monitored busbar always has a verdict
      rw [((shown_of_analog h8 h9).1 hin).2] at h
      unfold valueVerdict at h
      split at h <;> cases h
  | branch k =>
    refine ⟨?_, by simp [StrayMark]⟩
    rw [shown_of_branch]
    refine if_neg ?_
    rintro ⟨hq, hoff⟩
    simp only [evaluation, if_pos hq, hoff] at h
    cases h

/-! ## Correct entries -/

/-- The event is monitored and the current sample puts it in alarm. -/
def Violates (x : Sample) (e : AlmEvent) : Prop :=
  Monitored x e ∧ sampleType x e ≠ eAlmTypeNormal

instance (x : Sample) (e : AlmEvent) : Decidable (Violates x e) :=
  inferInstanceAs (Decidable (_ ∧ _))

theorem violates_iff {x : Sample} {e : AlmEvent} :
    Violates x e ↔ shown x e ≠ eAlmTypeNormal := by
  by_cases hm : Monitored x e
  · rw [shown_of_monitored hm]
    exact ⟨fun h => h.2, fun h => ⟨hm, h⟩⟩
  · rw [shown_of_not_monitored hm]
    exact ⟨fun h => absurd h.1 hm, fun h => absurd rfl h⟩

/-- **The entry means what it should**: it is active exactly when the event
is monitored and the sample puts it in alarm, it is then the type of the
sample, and it is what the same pass leaves after power-up. -/
def EntryCorrect (x : Sample) (e : AlmEvent) (entry fresh : UInt8) : Prop :=
  (Active entry ↔ Violates x e) ∧ (Active entry → entry = sampleType x e) ∧ entry = fresh

/-- **When a pass leaves the entry correct**, from the cell before it. A
marker value must not be a violation. A judged event whose state is that
type already must not show the marker (nor be hit by a stray one, unless
it is normal); one that turns normal must not be hit by a stray marker. An
event the pass does not judge must be clear already. -/
def EntryCond (c : Cell) (x : Sample) (e : AlmEvent) : Prop :=
  match evaluation x e with
  | some .marked => ¬ Violates x e
  | some (.judged t) =>
    if c.last = t then
      if t = eAlmTypeNormal then StrayMark x e ∨ c.entry ≠ notMonitored
      else ¬ StrayMark x e ∧ c.entry ≠ notMonitored
    else t = eAlmTypeNormal → ¬ StrayMark x e
  | _ => c.last = eAlmTypeNormal ∧ c.entry ≠ notMonitored

/-- A silent event is correct when its cell is clear. -/
theorem entryCorrect_silent {x : Sample} {e : AlmEvent} {c : Cell} (hc : c.Coherent)
    (hs : shown x e = eAlmTypeNormal) :
    EntryCorrect x e c.entry eAlmTypeNormal ↔
      c.last = eAlmTypeNormal ∧ c.entry ≠ notMonitored := by
  have hv : ¬ Violates x e := fun h => violates_iff.1 h hs
  constructor
  · rintro ⟨-, -, h⟩
    rcases hc with h' | h'
    · exact ⟨h'.symm.trans h, by rw [h]; decide⟩
    · exact absurd (h'.symm.trans h) (by decide)
  · rintro ⟨hl, hne⟩
    have he : c.entry = eAlmTypeNormal := (hc.resolve_right hne).trans hl
    rw [he]
    exact ⟨⟨fun h => absurd h (by decide), fun h => absurd h hv⟩, fun h => absurd h (by decide),
      rfl⟩

/-- A judged event is correct when its entry is the type and so is the
entry a clear cell gets. -/
theorem entryCorrect_judged {x : Sample} {e : AlmEvent} {t entry fresh : UInt8}
    (h : evaluation x e = some (.judged t)) (he : entry = t ∨ entry = notMonitored) :
    EntryCorrect x e entry fresh ↔
      (t ≠ eAlmTypeNormal → entry = t) ∧ entry = fresh := by
  obtain ⟨hs, ht⟩ := shown_of_judged h
  have hv : Violates x e ↔ t ≠ eAlmTypeNormal := by rw [violates_iff, hs]
  unfold EntryCorrect
  constructor
  · rintro ⟨h1, -, h3⟩
    refine ⟨fun hne => he.resolve_right ?_, h3⟩
    -- the marker is not active
    intro hm
    exact absurd (hm ▸ h1.2 (hv.2 hne)) (by decide)
  · rintro ⟨h1, h3⟩
    have hact : Active entry ↔ t ≠ eAlmTypeNormal := by
      constructor
      · rintro ha rfl
        rcases he with rfl | rfl <;> exact absurd ha (by decide)
      · intro hne
        rw [h1 hne]
        exact ht.resolve_left hne
    refine ⟨hact.trans hv.symm, fun ha => ?_, h3⟩
    have hne := hact.1 ha
    rw [h1 hne, ← hs, shown_of_monitored (hv.2 hne).1]

/-- A coherent cell that shows no marker shows its state. -/
theorem Cell.Coherent.entry_eq_iff {c : Cell} (hc : c.Coherent) (hne : c.last ≠ notMonitored) :
    c.entry = c.last ↔ c.entry ≠ notMonitored :=
  ⟨fun h => h ▸ hne, fun h => hc.resolve_right h⟩

/-- A judged event, entry by entry. -/
theorem entryCorrect_passCell_judged {x : Sample} {e : AlmEvent} {c : Cell} {t : UInt8}
    (hc : c.Coherent) (hev : evaluation x e = some (.judged t)) :
    EntryCorrect x e (passCell x e c).entry (passCell x e ⟨0, 0⟩).entry ↔
      if c.last = t then
        if t = eAlmTypeNormal then StrayMark x e ∨ c.entry ≠ notMonitored
        else ¬ StrayMark x e ∧ c.entry ≠ notMonitored
      else t = eAlmTypeNormal → ¬ StrayMark x e := by
  have ht20 : t ≠ notMonitored := by
    rcases (shown_of_judged hev).2 with rfl | rfl | rfl | rfl <;> decide
  have hmem : (passCell x e c).entry = t ∨ (passCell x e c).entry = notMonitored := by
    have h := hc.passCell x e
    rwa [Cell.Coherent, show (passCell x e c).last = t by rw [passCell_judged hev]] at h
  rw [entryCorrect_judged hev hmem, passCell_judged hev, passCell_judged hev]
  have h20 : notMonitored ≠ eAlmTypeNormal := by decide
  by_cases hl : c.last = t
  · have hE : c.entry = t ↔ c.entry ≠ notMonitored := by
      rw [← hl] at ht20 ⊢; exact hc.entry_eq_iff ht20
    -- the cell keeps its entry; the clear cell keeps it only where `t` is normal
    rw [if_pos hl, if_pos hl]
    by_cases ht : t = eAlmTypeNormal
    · subst ht
      by_cases hs : StrayMark x e
      · simp [hs, eAlmTypeNormal]
      · simpa [hs, eAlmTypeNormal] using hE
    · by_cases hs : StrayMark x e
      · simp [hs, ht, Ne.symm ht20]
      · simp [hs, ht, hE, show ¬ (0 : UInt8) = t from fun h => ht h.symm]
  · -- the cell takes the type; a clear cell does not, where `t` is normal
    rw [if_neg hl, if_neg hl]
    by_cases ht : t = eAlmTypeNormal
    · subst ht
      by_cases hs : StrayMark x e
      · simp [hs, eAlmTypeNormal, notMonitored]
      · simp [hs, eAlmTypeNormal]
    · simp [ht, show ¬ (0 : UInt8) = t from fun h => ht h.symm]

/-- **One entry.** From a coherent cell a pass leaves the entry correct
exactly when the condition holds. -/
theorem entryCorrect_iff {x : Sample} {e : AlmEvent} {c : Cell} (hc : c.Coherent)
    (hin : InTable x e) :
    EntryCorrect x e (passCell x e c).entry (passCell x e ⟨0, 0⟩).entry ↔ EntryCond c x e := by
  have hsilent (h : (evaluation x e).bind Verdict.op = none) :
      EntryCorrect x e (passCell x e c).entry (passCell x e ⟨0, 0⟩).entry ↔
        c.last = eAlmTypeNormal ∧ c.entry ≠ notMonitored := by
    obtain ⟨hs, hm⟩ := shown_of_silent hin h
    rw [passCell_silent h hm, passCell_silent h hm]
    exact entryCorrect_silent hc hs
  unfold EntryCond
  cases hev : evaluation x e with
  | none => exact hsilent (by rw [hev]; rfl)
  | some v =>
    cases v with
    | ignored => exact hsilent (by rw [hev]; rfl)
    | judged t => exact entryCorrect_passCell_judged hc hev
    | marked =>
      have hna : ¬ Active notMonitored := by decide
      rw [passCell_marked hev, passCell_marked hev]
      exact ⟨fun h hv => hna (h.1.2 hv), fun hv =>
        ⟨⟨fun h => absurd h hna, fun h => absurd h hv⟩, fun h => absurd h hna, rfl⟩⟩

/-! ## Every run -/

/-- After a pass every entry of a monitored busbar and of a branch means
what it should. -/
def TableCorrect (fram : Mem) (s : AlmState) (p : Pass) : Prop :=
  ∀ e, InTable p.sample e → EntryCorrect p.sample e ((s.pass p).entry e)
    (((AlmState.powerUp fram).pass p).entry e)

/-- The condition on the state before a pass and its sample. -/
def TableCond (s : AlmState) (p : Pass) : Prop :=
  ∀ e, InTable p.sample e → EntryCond (s.cell e) p.sample e

/-- One pass from a coherent state. -/
theorem tableCorrect_iff (fram : Mem) {s : AlmState} (h : s.Coherent) (p : Pass) :
    TableCorrect fram s p ↔ TableCond s p := by
  refine forall_congr' fun e => forall_congr' fun hin => ?_
  have h1 : (s.pass p).entry e = (passCell p.sample e (s.cell e)).entry :=
    congrArg Cell.entry (pass_cell s p e)
  have h2 : ((AlmState.powerUp fram).pass p).entry e = (passCell p.sample e ⟨0, 0⟩).entry := by
    rw [← powerUp_cell fram e]
    exact congrArg Cell.entry (pass_cell _ p e)
  rw [h1, h2]
  exact entryCorrect_iff (h e) hin

/-- **The meaning of the alarm table.** In every run of passes from
power-up, whatever the samples and the settings of each, the table is
correct after every pass exactly when every pass met the condition. -/
theorem table_meaning (fram : Mem) (ps : List Pass) :
    Meets AlmState.pass (TableCorrect fram) (AlmState.powerUp fram) ps ↔
      Meets AlmState.pass TableCond (AlmState.powerUp fram) ps :=
  meets_congr ps (powerUp_coherent fram) (fun _ p h _ => h.pass p)
    fun _ p h => tableCorrect_iff fram h p

/-- Mode D with the power of busbar A over its limit. -/
def overPowerPass : Pass where
  sample := overPowerSample 0x32
  now := fun _ => default

/-- In mode D a power alarm is shown for one pass. The marker of the switch
of busbar B then lands on its entry, and the entry stays so while the
power stays over the limit. -/
theorem power_alarm_hidden :
    ¬ ∀ fram ps, Meets AlmState.pass (TableCorrect fram) (AlmState.powerUp fram) ps := by
  intro h
  have hm := h (fun _ => 0) [overPowerPass, overPowerPass]
  rw [meets_cons, meets_cons] at hm
  have hin : InTable overPowerPass.sample (.bus eAlmEventAP) := by decide +kernel
  have h2 := hm.2.1 _ hin
  have hcell : ((((AlmState.powerUp fun _ => 0).pass overPowerPass).pass overPowerPass).cell
      (.bus eAlmEventAP)) = ⟨notMonitored, eAlmTypeOver⟩ := by
    rw [pass_cell, pass_cell, powerUp_cell]
    decide +kernel
  have hentry : ((((AlmState.powerUp fun _ => 0).pass overPowerPass).pass overPowerPass).entry
      (.bus eAlmEventAP)) = notMonitored := by rw [← AlmState.cell_entry, hcell]
  have hv : Violates overPowerPass.sample (.bus eAlmEventAP) := by decide +kernel
  have hact := h2.1.2 hv
  rw [hentry] at hact
  exact absurd hact (by decide)

end BusMonitor
