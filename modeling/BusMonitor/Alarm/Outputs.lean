import BusMonitor.Alarm.Meaning
/-!
# The horn, the lamp and the LED

The outputs go on when an alarm is raised, and off when a pass leaves no
entry of the table set. An alarm that lasts always keeps an entry set, so
they never go off too early. They can stay on too long: the marker of an
event that is not monitored is an entry like any other, and while one
stands the pass never switches them off.
-/


namespace BusMonitor

open Stepwise

/-! ## Outputs through a pass -/

theorem mark_outputs (c : Call) (s : AlmState) : (c.mark s).outputs = s.outputs := by
  cases c <;> rfl

/-- A call that raises nothing leaves the outputs alone. -/
theorem eval_outputs {s : AlmState} {c : Call} (now : Stamp) (h : ¬ c.Raises s) :
    (s.eval c now).outputs = s.outputs := by
  cases hv : c.verdict with
  | marked => rw [eval_marked hv, mark_outputs]
  | judged t =>
    rw [(eval_judged hv).outputs, if_neg]
    rintro ⟨hl, ht⟩
    exact h ⟨t, hv, ht, hl⟩
  | ignored => rw [eval_ignored hv]

/-- A call that raises an alarm puts the outputs on. -/
theorem eval_outputs_of_raises {s : AlmState} {c : Call} (now : Stamp) (h : c.Raises s) :
    (s.eval c now).outputs = .on := by
  obtain ⟨t, hv, ht, hl⟩ := h
  rw [(eval_judged hv).outputs, if_pos ⟨hl, ht⟩]

/-- One of the calls raises an alarm, in the state it is made in. -/
def Raised (s : AlmState) (cs : List Call) (now : AlmEvent → Stamp) : Prop :=
  ∃ pre c post, cs = pre ++ c :: post ∧ c.Raises (runCalls s pre now)

theorem runCalls_cons (s : AlmState) (c : Call) (cs : List Call) (now : AlmEvent → Stamp) :
    runCalls s (c :: cs) now = runCalls (s.eval c (now c.event)) cs now := rfl

theorem raised_cons {s : AlmState} {c : Call} {cs : List Call} {now : AlmEvent → Stamp} :
    Raised s (c :: cs) now ↔ c.Raises s ∨ Raised (s.eval c (now c.event)) cs now := by
  constructor
  · rintro ⟨pre, c', post, hsplit, hr⟩
    cases pre with
    | nil =>
      obtain ⟨rfl, -⟩ := List.cons.inj hsplit
      exact .inl hr
    | cons d pre =>
      obtain ⟨rfl, htail⟩ := List.cons.inj hsplit
      exact .inr ⟨pre, c', post, htail, hr⟩
  · rintro (hr | ⟨pre, c', post, rfl, hr⟩)
    · exact ⟨[], c, cs, rfl, hr⟩
    · exact ⟨c :: pre, c', post, rfl, hr⟩

/-- **The outputs through the calls**: as they were where none of them
raises an alarm, and on otherwise, as no call puts them off. -/
theorem runCalls_outputs (s : AlmState) (cs : List Call) (now : AlmEvent → Stamp) :
    (¬ Raised s cs now → (runCalls s cs now).outputs = s.outputs) ∧
    (Raised s cs now → (runCalls s cs now).outputs = .on) := by
  induction cs generalizing s with
  | nil =>
    refine ⟨fun _ => rfl, ?_⟩
    rintro ⟨pre, c, post, hsplit, -⟩
    simp at hsplit
  | cons c cs ih =>
    obtain ⟨hkept, hon⟩ := ih (s.eval c (now c.event))
    rw [raised_cons, runCalls_cons]
    refine ⟨fun hr => ?_, fun hr => ?_⟩
    · obtain ⟨hc, hcs⟩ := not_or.1 hr
      rw [hkept hcs, eval_outputs _ hc]
    · by_cases hcs : Raised (s.eval c (now c.event)) cs now
      · exact hon hcs
      · rw [hkept hcs]
        exact eval_outputs_of_raises _ (hr.resolve_right hcs)

/-- What a call of the pass judges is the pass's verdict on its event. -/
theorem evaluation_of_mem {x : Sample} {c : Call} (hc : c ∈ passCalls x) {t : UInt8}
    (hv : c.verdict = .judged t) : evaluation x c.event = some (.judged t) := by
  have hmem : CellOp.judge t ∈ touches (passCalls x) c.event := by
    refine List.mem_filterMap.2 ⟨c, hc, ?_⟩
    unfold Call.touch
    rw [hv]
    exact if_pos rfl
  rw [touches_eq, List.mem_append] at hmem
  rcases hmem with h | h
  · split at h <;> simp at h
  · rw [Option.mem_toList, Option.bind_eq_some_iff] at h
    obtain ⟨v, hev, hop⟩ := h
    cases v with
    | marked => cases hop
    | judged t' => rw [hev]; cases hop; rfl
    | ignored => cases hop

/-- Some entry of the table is set. -/
theorem any_entry {s : AlmState} :
    s.gAlmMessage.toList.any (· ≠ 0) = true ↔ ∃ e, s.entry e ≠ 0 := by
  rw [List.any_eq_true]
  constructor
  · rintro ⟨v, hv, hne⟩
    obtain ⟨i, hi, rfl⟩ := List.mem_iff_getElem.1 hv
    obtain ⟨e, he⟩ := AlmEvent.slot_surjective ⟨i, by simpa using hi⟩
    refine ⟨e, ?_⟩
    simp only [AlmState.entry, he]
    simpa using hne
  · rintro ⟨e, hne⟩
    exact ⟨s.entry e, by simp [AlmState.entry, Vector.mem_toList_iff], by simpa using hne⟩

/-- The pass left no entry of the table set. -/
def NoEntry (s : AlmState) (p : Pass) : Prop := ∀ e, (s.pass p).entry e = 0

theorem pass_entry (s : AlmState) (p : Pass) (e : AlmEvent) :
    (runCalls s (passCalls p.sample) p.now).entry e = (s.pass p).entry e := by
  rw [← AlmState.cell_entry, ← AlmState.cell_entry, AlmState.pass, almAllHandler_cell]

/-- **The outputs after a pass**: off when it left no entry set, and as its
evaluations left them otherwise. -/
theorem pass_outputs (s : AlmState) (p : Pass) :
    (NoEntry s p → (s.pass p).outputs = .off) ∧
    (¬ NoEntry s p →
      (s.pass p).outputs = (runCalls s (passCalls p.sample) p.now).outputs) := by
  have hany : (runCalls s (passCalls p.sample) p.now).gAlmMessage.toList.any (· ≠ 0) = true ↔
      ¬ NoEntry s p := by
    rw [any_entry, NoEntry, not_forall]
    exact exists_congr fun e => by rw [pass_entry]
  unfold AlmState.pass almAllHandler
  dsimp only
  constructor
  · intro h
    rw [if_neg (fun ha => hany.1 ha h)]
  · intro h
    rw [if_pos (hany.2 h)]

/-! ## The claim and its condition -/

/-- The pass raised an alarm: one of its calls did. -/
def Generated (s : AlmState) (p : Pass) : Prop := Raised s (passCalls p.sample) p.now

/-- The event is in alarm in the state, or shown to be. -/
def InAlarm (s : AlmState) (e : AlmEvent) : Prop :=
  s.last e ≠ eAlmTypeNormal ∨ Active (s.entry e)

/-- **The outputs follow the alarms.** With no monitored event in alarm
they are off after the pass. A pass that raised an alarm leaves them on,
and one that raised none but leaves an event in alarm does not touch them:
neither switches them off. -/
structure OutputsCorrect (s : AlmState) (p : Pass) : Prop where
  silent : (∀ e, ¬ Violates p.sample e) → (s.pass p).outputs = .off
  raised : Generated s p → (s.pass p).outputs = .on
  kept : ¬ Generated s p → (∃ e, InAlarm (s.pass p) e) → (s.pass p).outputs = s.outputs

/-- The pass clears the entry of an event that is not in alarm: it judges
it, and the entry was set by an alarm or carries no marker; or it does not
touch it, and the entry is clear. -/
def Clears (c : Cell) (x : Sample) (e : AlmEvent) : Prop :=
  match evaluation x e with
  | some .marked => False
  | some (.judged _) =>
    c.last = eAlmTypeNormal → ¬ StrayMark x e ∧ c.entry ≠ notMonitored
  | _ => c.last = eAlmTypeNormal ∧ c.entry ≠ notMonitored

/-- **When the outputs follow the alarms**: some event is in alarm, or the
outputs were off, or the pass clears every entry. -/
def OutputsCond (s : AlmState) (p : Pass) : Prop :=
  (∃ e, Violates p.sample e) ∨ s.outputs = .off ∨ ∀ e, Clears (s.cell e) p.sample e

/-- An event without a verdict receives no stray marker. -/
theorem not_strayMark_of_silent {x : Sample} {e : AlmEvent}
    (h : (evaluation x e).bind Verdict.op = none) : ¬ StrayMark x e := by
  intro hs
  have hin : InTable x e := by
    rcases hs with ⟨rfl, -⟩ | ⟨rfl, -⟩ <;> exact .inl rfl
  exact (shown_of_silent hin h).2 hs

/-- The entry of an event remembered as normal is clear unless it carries
the marker. -/
theorem Cell.Coherent.entry_eq_zero_iff {c : Cell} (hc : c.Coherent)
    (hl : c.last = eAlmTypeNormal) : c.entry = 0 ↔ c.entry ≠ notMonitored := by
  have := hc.entry_eq_iff (by rw [hl]; decide)
  rwa [hl] at this

/-- An event without a verdict keeps its entry. -/
theorem passCell_silent_clear_iff {x : Sample} {e : AlmEvent} {c : Cell} (hc : c.Coherent)
    (h : (evaluation x e).bind Verdict.op = none) :
    (passCell x e c).entry = 0 ↔ c.last = eAlmTypeNormal ∧ c.entry ≠ notMonitored := by
  rw [passCell_silent h (not_strayMark_of_silent h)]
  constructor
  · intro h0
    have hl : c.last = eAlmTypeNormal := by
      rcases hc with h | h
      · exact h.symm.trans h0
      · exact absurd (h.symm.trans h0) (by decide)
    exact ⟨hl, (hc.entry_eq_zero_iff hl).1 h0⟩
  · rintro ⟨hl, hne⟩
    exact (hc.entry_eq_zero_iff hl).2 hne

/-- Where nothing is in alarm, an entry is clear after the pass exactly
when the pass clears it. -/
theorem passCell_clear_iff {x : Sample} {e : AlmEvent} {c : Cell} (hc : c.Coherent)
    (hv : ¬ Violates x e) : (passCell x e c).entry = 0 ↔ Clears c x e := by
  unfold Clears
  cases hev : evaluation x e with
  | none => exact passCell_silent_clear_iff hc (by rw [hev]; rfl)
  | some v =>
    cases v with
    | ignored => exact passCell_silent_clear_iff hc (by rw [hev]; rfl)
    | marked =>
      rw [passCell_marked hev]
      have h20 : notMonitored ≠ 0 := by decide
      exact ⟨fun h => h20 h, False.elim⟩
    | judged t =>
      -- without an alarm the only verdict is normal
      obtain ⟨hs, -⟩ := shown_of_judged hev
      obtain rfl : t = eAlmTypeNormal := by
        by_contra ht
        exact hv (violates_iff.2 (hs ▸ ht))
      rw [passCell_judged hev]
      by_cases hl : c.last = eAlmTypeNormal
      · by_cases hm : StrayMark x e
        · simp [hl, hm, notMonitored]
        · simpa [hl, hm] using hc.entry_eq_zero_iff hl
      · rw [if_neg hl]
        exact ⟨fun _ h => absurd h hl, fun _ => rfl⟩

/-- **An alarm keeps an entry set.** An event that is in alarm after a pass,
or was raised in it, has an entry that is not zero. -/
theorem not_noEntry {s : AlmState} (h : s.Coherent) (p : Pass)
    (ha : Generated s p ∨ ∃ e, InAlarm (s.pass p) e) : ¬ NoEntry s p := by
  have hlast (e : AlmEvent) (hl : (s.pass p).last e ≠ eAlmTypeNormal) : ¬ NoEntry s p := by
    intro hoff
    rcases h.pass p e with hc | hc <;> rw [AlmState.cell_entry, hoff e] at hc
    · exact hl hc.symm
    · exact absurd hc (by decide)
  rcases ha with ⟨pre, c, post, hsplit, t, hv, ht, -⟩ | ⟨e, hl | hact⟩
  · refine hlast c.event ?_
    have hmem : c ∈ passCalls p.sample := by simp [hsplit]
    rw [← AlmState.cell_last, pass_cell, passCell_judged (evaluation_of_mem hmem hv)]
    exact ht
  · exact hlast e hl
  · intro hoff
    rw [hoff e] at hact
    exact absurd hact (by decide)

/-- A pass that raises an alarm, or leaves one, does not switch the outputs
off: they are as its calls left them. -/
theorem outputs_of_alarm {s : AlmState} (h : s.Coherent) (p : Pass)
    (ha : Generated s p ∨ ∃ e, InAlarm (s.pass p) e) :
    (s.pass p).outputs = (runCalls s (passCalls p.sample) p.now).outputs :=
  (pass_outputs s p).2 (not_noEntry h p ha)

/-- A sample with nothing in alarm raises nothing. -/
theorem not_generated {s : AlmState} {p : Pass} (hv : ∀ e, ¬ Violates p.sample e) :
    ¬ Generated s p := by
  rintro ⟨pre, c, post, hsplit, t, hvd, ht, -⟩
  have hmem : c ∈ passCalls p.sample := by simp [hsplit]
  exact hv c.event (violates_iff.2 ((shown_of_judged (evaluation_of_mem hmem hvd)).1 ▸ ht))

/-- One pass from a coherent state. -/
theorem outputsCorrect_iff {s : AlmState} (h : s.Coherent) (p : Pass) :
    OutputsCorrect s p ↔ OutputsCond s p := by
  obtain ⟨hkept, hon⟩ := runCalls_outputs s (passCalls p.sample) p.now
  have hclear (hv : ∀ e, ¬ Violates p.sample e) :
      NoEntry s p ↔ ∀ e, Clears (s.cell e) p.sample e :=
    forall_congr' fun e => by
      rw [← AlmState.cell_entry, pass_cell]
      exact passCell_clear_iff (h e) (hv e)
  constructor
  · intro hright
    by_cases hv : ∃ e, Violates p.sample e
    · exact .inl hv
    · have hv' := not_exists.1 hv
      by_cases hs : NoEntry s p
      · exact .inr (.inr ((hclear hv').1 hs))
      · refine .inr (.inl ?_)
        rw [← hkept (not_generated hv'), ← (pass_outputs s p).2 hs]
        exact hright.silent hv'
  · intro hcond
    refine ⟨fun hv => ?_, fun hg => ?_, fun hg ha => ?_⟩
    · by_cases hs : NoEntry s p
      · exact (pass_outputs s p).1 hs
      · rw [(pass_outputs s p).2 hs, hkept (not_generated hv)]
        rcases hcond with ⟨e, he⟩ | hoff | hcl
        · exact absurd he (hv e)
        · exact hoff
        · exact absurd ((hclear hv).2 hcl) hs
    · rw [outputs_of_alarm h p (.inl hg), hon hg]
    · rw [outputs_of_alarm h p (.inr ha), hkept hg]

/-- **Horn and lamp follow the alarms.** In every run of passes from
power-up the outputs are right after every pass exactly when every pass
met the condition. -/
theorem outputs_follow (fram : Mem) (ps : List Pass) :
    Meets AlmState.pass OutputsCorrect (AlmState.powerUp fram) ps ↔
      Meets AlmState.pass OutputsCond (AlmState.powerUp fram) ps :=
  meets_congr ps (powerUp_coherent fram) (fun _ p h _ => h.pass p) fun _ p h => outputsCorrect_iff h p

/-- Mode S without branch and arrester monitoring, the power of busbar A
over its limit. -/
def overPowerBranchesOff : Pass where
  sample := overPowerSample 0x01
  now := fun _ => default

/-- The same settings with nothing in alarm. -/
def quietBranchesOff : Pass := ⟨quietSample 0x01, fun _ => default⟩

/-- With branch monitoring off, a power alarm that ends leaves the outputs
on: the markers of the branches keep the table from being empty. -/
theorem outputs_stay_on :
    ¬ ∀ fram ps, Meets AlmState.pass OutputsCorrect (AlmState.powerUp fram) ps := by
  intro h
  have hm := h (fun _ => 0) [overPowerBranchesOff, quietBranchesOff]
  rw [meets_cons, meets_cons] at hm
  have hquiet : ∀ e, ¬ Violates quietBranchesOff.sample e := by
    rintro (e | k)
    · revert e; decide +kernel
    · revert k; decide +kernel
  have hoff := hm.2.1.silent hquiet
  have hon : (((AlmState.powerUp fun _ => 0).pass overPowerBranchesOff).pass
      quietBranchesOff).outputs = .on := by decide +kernel
  rw [hon] at hoff
  exact absurd hoff (by decide)

end BusMonitor
