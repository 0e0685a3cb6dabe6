import BusMonitor.Alarm.Effect
/-!
# Which entries an evaluation touches

A judged event writes its own two entries. The marker goes to the event's
own entry too, except where `AlmType_IO` is called for a switch or an
arrester of a busbar: there the index is the event's code less
`eAlmEvent_SW`, which is negative, and the marker lands in another event's
entry or in front of the table. `isolated_iff` says that this is the only
evaluation that leaves its place.
-/


namespace BusMonitor

namespace AlmState

theorem entry_of_set {s s' : AlmState} {e : AlmEvent} {t : UInt8}
    (h : s'.gAlmMessage = setSlot s.gAlmMessage e t) (e' : AlmEvent) :
    s'.entry e' = if e' = e then t else s.entry e' := by
  unfold entry
  rw [h]
  exact getElem_setSlot ..

theorem last_of_set {s s' : AlmState} {e : AlmEvent} {t : UInt8}
    (h : s'.lAlmState = setSlot s.lAlmState e t) (e' : AlmEvent) :
    s'.last e' = if e' = e then t else s.last e' := by
  unfold last
  rw [h]
  exact getElem_setSlot ..

end AlmState

/-! ## The marker -/

/-- A guarded write changes the byte at its index, if there is one. -/
theorem getElem_guardedSet (v : Vector UInt8 164) (i : Int) (x : UInt8) (k : Fin 164) :
    (if h : 0 ≤ i ∧ i < 164 then v.set i.toNat x (by omega) else v)[k]
      = if i = k then x else v[k] := by
  split
  · simp only [Fin.getElem_fin, Vector.getElem_set]
    exact if_congr (by omega) rfl rfl
  · rw [if_neg (by omega)]

/-- The code of a busbar event lies under `eAlmEvent_SW`. -/
theorem code_bus_lt (e : Fin 20) : ((AlmEvent.bus e).code : Int) - eAlmEventSW < 0 := by
  simp only [AlmEvent.code, eAlmEventSW]
  omega

/-- The code of a branch event is its number past `eAlmEvent_SW`. -/
theorem code_branch (k : Fin 144) : ((AlmEvent.branch k).code : Int) - eAlmEventSW = k := by
  simp only [AlmEvent.code, eAlmEventSW]
  omega

/-- The call puts a marker for an event of a busbar through `AlmType_IO`. -/
def Call.Astray : Call → Prop
  | .io state (.bus _) => state = 0x20
  | _ => False

instance (c : Call) : Decidable c.Astray := by
  unfold Call.Astray
  split <;> infer_instance

/-- The byte of the packed table a call puts the marker at. -/
def Call.markByte : Call → Int
  | .io _ e => 20 + ((e.code : Int) - eAlmEventSW)
  | c => c.event.slot

/-- The marker changes one byte of the table. -/
theorem mark_entry (c : Call) (s : AlmState) (e : AlmEvent) :
    (c.mark s).entry e = if c.markByte = e.slot then notMonitored else s.entry e := by
  cases c with
  | voltFreq | current | power =>
    simp only [Call.mark, Call.markByte]
    rw [AlmState.entry_of_set rfl]
    refine if_congr ?_ rfl rfl
    rw [Int.ofNat_inj, Fin.val_inj, AlmEvent.slot_inj, eq_comm]
  | io state e' =>
    exact getElem_guardedSet s.gAlmMessage _ notMonitored e.slot

theorem mark_last (c : Call) (s : AlmState) (e : AlmEvent) : (c.mark s).last e = s.last e := by
  cases c <;> rfl

/-- Outside `AlmType_IO` on a busbar the marker goes to the event's own
entry. -/
theorem markByte_eq {c : Call} (hv : c.verdict = .marked) (h : ¬ c.Astray) :
    c.markByte = c.event.slot := by
  cases c with
  | voltFreq | current | power => rfl
  | io state e =>
    cases e with
    | bus e =>
      exact absurd (ioVerdict_marked hv) h
    | branch k =>
      rw [Call.markByte, code_branch]
      simp only [Call.event, AlmEvent.slot]
      omega

/-- A marker that keeps its place stays inside its array. -/
theorem mark_stray {c : Call} (s : AlmState) (hv : c.verdict = .marked) (h : ¬ c.Astray) :
    (c.mark s).stray = s.stray := by
  cases c with
  | voltFreq | current | power => rfl
  | io state e =>
    have hb := markByte_eq hv h
    cases e with
    | bus e =>
      have := code_bus_lt e
      simp only [Call.markByte, Call.event, AlmEvent.slot, AlmEvent.code, eAlmEventSW] at hb
      omega
    | branch k =>
      have hk : 0 ≤ (k : Int) ∧ (k : Int) < maxBranchNum :=
        ⟨by omega, by simp only [maxBranchNum]; omega⟩
      simp only [Call.mark, AlmState.setBranchAlm, code_branch, if_pos hk]

/-! ## Isolation -/

/-- **The evaluation of `e` kept to its place**: no other event's entry
changed, and no access left its array. -/
def Isolated (s s' : AlmState) (e : AlmEvent) : Prop :=
  (∀ e', e' ≠ e → s'.entry e' = s.entry e' ∧ s'.last e' = s.last e') ∧ s'.stray = s.stray

/-- A judged event keeps to its place. -/
theorem Outcome.isolated {s s' : AlmState} {e : AlmEvent} {t : UInt8} {now : Stamp}
    (h : Outcome s s' e t now) : Isolated s s' e := by
  rcases h.board with ⟨-, rfl⟩ | ⟨-, hm, hl, hst⟩
  · exact ⟨fun e' _ => ⟨rfl, rfl⟩, rfl⟩
  · refine ⟨fun e' he => ⟨?_, ?_⟩, hst⟩
    · rw [AlmState.entry_of_set hm, if_neg he]
    · rw [AlmState.last_of_set hl, if_neg he]

/-- The marker of a switch or an arrester of a busbar leaves `BranchAlm`. -/
theorem not_isolated_of_astray (s : AlmState) {c : Call} (now : Stamp) (h : c.Astray) :
    ¬ Isolated s (s.eval c now) c.event := by
  cases c with
  | voltFreq | current | power => exact absurd h (by simp [Call.Astray])
  | io state e =>
    cases e with
    | branch k => exact absurd h (by simp [Call.Astray])
    | bus e =>
      have hs : state = 0x20 := h
      rintro ⟨-, hstray⟩
      have hneg := code_bus_lt e
      simp only [AlmState.eval, almTypeIO, if_pos hs, AlmState.setBranchAlm] at hstray
      rw [if_neg (fun h => by omega)] at hstray
      exact absurd hstray (by simp)

/-- **Isolation of event evaluation.** Whatever the state and the value,
an evaluation keeps to its event's own entries and inside its arrays
exactly when it is not `AlmType_IO` with the marker for a switch or an
arrester of a busbar. -/
theorem isolated_iff (s : AlmState) (c : Call) (now : Stamp) :
    Isolated s (s.eval c now) c.event ↔ ¬ c.Astray := by
  refine ⟨fun h ha => not_isolated_of_astray s now ha h, fun h => ?_⟩
  cases hv : c.verdict with
  | marked =>
    rw [eval_marked hv]
    refine ⟨fun e' he => ⟨?_, mark_last c s e'⟩, mark_stray s hv h⟩
    rw [mark_entry, markByte_eq hv h, if_neg]
    intro hs
    exact he (AlmEvent.slot_injective (Fin.ext (by exact_mod_cast hs.symm)))
  | judged t => exact (eval_judged hv).isolated
  | ignored =>
    rw [eval_ignored hv]
    exact ⟨fun _ _ => ⟨rfl, rfl⟩, rfl⟩

/-- In mode D every pass evaluates the switch of busbar B with the marker,
and the marker lands on the power of busbar A. -/
theorem marker_astray :
    ∃ c ∈ passCalls (quietSample 0x32), ∃ s now, ¬ Isolated s (s.eval c now) c.event ∧
      s.entry (.bus eAlmEventAP) = 0 ∧ (s.eval c now).entry (.bus eAlmEventAP) = 0x20 := by
  refine ⟨.io 0x20 (.bus eAlmEventBQF), by decide +kernel, .reset fun _ => 0, default,
    not_isolated_of_astray _ _ rfl, by decide +kernel, by decide +kernel⟩

end BusMonitor
