import BusMonitor.Alarm.Table
import BusMonitor.Alarm.Ring
import BusMonitor.Alarm.Window
/-!
# Two records of one alarm

An alarm that is raised is recorded twice: in the next slot of the history
and at the end of the window. The history record is built in the static
`gPTAlmRecord`, which the search of a termination reads into as well, and
the upper branch of `AlmType_VoltFreq` does not store the alarm type there.
`records_agree_iff` says in which runs of passes the two records agree.
-/


namespace BusMonitor

open Stepwise

/-! ## The two records -/

/-- The flag of the newest change in the window. -/
def AlmState.newestFlag (s : AlmState) : Option UInt8 := (Watch.shown s).getLast?.map Change.flag

/-- The evaluation generates an alarm: it raises one, or it moves the history
on, or an alarm comes up in the window. -/
def Generates (s : AlmState) (c : Call) (s' : AlmState) : Prop :=
  c.Raises s ∨ s'.gPTAlmRelate ≠ s.gPTAlmRelate ∨
    (Watch.shown s' ≠ Watch.shown s ∧ s'.newestFlag = some generateFlag)

/-- **The records agree**: an evaluation that generates an alarm moves the
history on by one slot, and the record in that slot shows the alarm that
joins the window. -/
def Agrees (s : AlmState) (c : Call) (s' : AlmState) : Prop :=
  Generates s c s' →
    s'.gPTAlmRelate = s.gPTAlmRelate.advance ∧
      (slot s'.fram s.gPTAlmRelate.almIndex).flag = generateFlag ∧
      Joins s s' (slot s'.fram s.gPTAlmRelate.almIndex).change

/-- **The condition on an evaluation**: a voltage or a frequency that comes
to be over its limit finds that alarm type in `gPTAlmRecord`. -/
def TypeCached (s : AlmState) (c : Call) : Prop :=
  c.kind = .voltFreq → c.verdict = .judged eAlmTypeOver → s.last c.event ≠ eAlmTypeOver →
    s.gPTAlmRecord.almType = eAlmTypeOver

/-- Both indices are in range. -/
def InRange (s : AlmState) : Prop := s.rtAlmIndex ≤ 10 ∧ s.gPTAlmRelate.almIndex < 500

/-! ## What raising an alarm stores -/

/-- The alarm type a branch leaves in `gPTAlmRecord`. -/
def Call.storedType (c : Call) (t old : UInt8) : UInt8 :=
  if c.kind = .voltFreq ∧ t = eAlmTypeOver then old else t

/-- An evaluation that raises an alarm. -/
theorem eval_raise {s : AlmState} {c : Call} {t : UInt8} {now : Stamp}
    (h : c.verdict = .judged t) (hne : s.last c.event ≠ t) (ht : t ≠ eAlmTypeNormal) :
    s.eval c now = raise s c.event t c.value (c.limit t) (c.storedType t) now := by
  cases c with
  | voltFreq value upperL lowerL e =>
    obtain ⟨hv, rfl⟩ := valueVerdict_judged h
    simp only [Call.event] at hne
    simp only [AlmState.eval, almTypeVoltFreq, hv, Bool.false_eq_true, if_false]
    unfold voltFreqType at hne ht ⊢
    split
    · next hu =>
      rw [if_pos hu] at hne
      rw [if_pos hne]
      rfl
    · next hu =>
      rw [if_neg hu] at hne ht
      split
      · next hl =>
        rw [if_pos hl] at hne
        rw [if_pos hne]
        rfl
      · next hl =>
        rw [if_neg hl] at ht
        exact absurd rfl ht
  | current value upperL ultUpperL e =>
    obtain ⟨hv, rfl⟩ := valueVerdict_judged h
    simp only [Call.event] at hne
    simp only [AlmState.eval, almTypeCurrent, hv, Bool.false_eq_true, if_false]
    unfold currentType at hne ht ⊢
    split
    · next hu =>
      rw [if_pos hu] at hne
      rw [if_pos hne]
      rfl
    · next hu =>
      rw [if_neg hu] at hne ht
      split
      · next hl =>
        rw [if_pos hl] at hne
        rw [if_pos hne]
        rfl
      · next hl =>
        rw [if_neg hl] at ht
        exact absurd rfl ht
  | power value upperL e =>
    obtain ⟨hv, rfl⟩ := valueVerdict_judged h
    simp only [Call.event] at hne
    simp only [AlmState.eval, almTypePower, hv, Bool.false_eq_true, if_false]
    unfold powerType at hne ht ⊢
    split
    · next hu =>
      rw [if_pos hu] at hne
      rw [if_pos hne]
      rfl
    · next hu =>
      rw [if_neg hu] at ht
      exact absurd rfl ht
  | io state e =>
    rcases ioVerdict_judged h with ⟨rfl, rfl⟩ | ⟨rfl, rfl⟩
    · exact if_pos hne
    · exact absurd rfl ht

/-- The history record of a raised alarm. -/
theorem raise_history (s : AlmState) (e : AlmEvent) {t : UInt8} (ht : t ≠ eAlmTypeNormal)
    (value : Single) (thr : UInt16) (pt : UInt8 → UInt8) (now : Stamp) :
    (raise s e t value thr pt now).history = s.history.push { s.gPTAlmRecord with
      almType := pt s.gPTAlmRecord.almType, almEvent := e.byte, fCurrentValue := value
      usThresholdValue := thr, flag := generateFlag, generate := now } := by
  obtain ⟨v, i, -, hopen⟩ := open_frame s e t fun r => { r with
    almType := t, almEvent := e.byte, fCurrentValue := value, usThresholdValue := thr }
  unfold raise almComp
  rw [if_pos ht, hopen]
  obtain ⟨r, v', st, hr, hgen, -⟩ := almGenerate_frame
    (AlmState.setPTRecord
      { s with gAlmMessage := setSlot s.gAlmMessage e t, gRTAlmRecord := v, rtAlmIndex := i }
      fun r => { r with
        almType := pt r.almType, almEvent := e.byte, fCurrentValue := value,
        usThresholdValue := thr }) now
  rw [hgen, hr]
  rfl

/-- A record pushed is in the slot that was next. -/
theorem slot_push_self {h : History} (hi : h.relate.almIndex < 500) (r : AlmRecord) :
    slot (h.push r).fram h.relate.almIndex = r := by
  have hhead : headerAddr + h.relate.advance.toBytes.length ≤ 0x506 + 21 * h.relate.almIndex := by
    simp only [headerAddr, fmAddrPastAlm, fmOffsetAlmRelate, PTAlmRelate.length_toBytes]
    omega
  have hkept := slot_write_disjoint (m := h.fram.write (slotAddr h.relate.almIndex) r.toBytes)
    hi.le (.inr hhead)
  exact hkept.trans (readRecord_write _ _ _)

/-- The index advances, and stays in range. -/
theorem advance_almIndex (h : PTAlmRelate) :
    h.advance.almIndex ≠ h.almIndex ∧ h.advance.almIndex < 500 := by
  unfold PTAlmRelate.advance ptAlmItem
  dsimp only
  split <;> dsimp only <;> omega

/-- Only one change can have joined the window. -/
theorem Joins.inj {s s' : AlmState} {c c' : Change} (h : Joins s s' c) (h' : Joins s s' c') :
    c = c' := by
  have hshown := h.2.symm.trans h'.2
  exact List.singleton_inj.1 (List.append_cancel_left hshown)

/-- Its flag is the newest one. -/
theorem Joins.newestFlag {s s' : AlmState} {c : Change} (h : Joins s s' c) :
    s'.newestFlag = some c.flag := by
  rw [AlmState.newestFlag, h.2, List.getLast?_concat, Option.map_some]

/-- **Raising an alarm**: the records agree when the history record gets
the alarm type. -/
theorem raise_agrees {s : AlmState} (h : InRange s) {c : Call} (hr : c.Raises s) {t : UInt8}
    (ht : t ≠ eAlmTypeNormal) (value : Single) (thr : UInt16) (pt : UInt8 → UInt8) (now : Stamp) :
    Agrees s c (raise s c.event t value thr pt now) ↔ pt s.gPTAlmRecord.almType = t := by
  have hhist := raise_history s c.event ht value thr pt now
  have hjoins := raise_joins h.1 c.event ht value thr pt now
  generalize raise s c.event t value thr pt now = s' at hhist hjoins
  have hrelate : s'.gPTAlmRelate = s.gPTAlmRelate.advance := congrArg History.relate hhist
  have hstored : slot s'.fram s.gPTAlmRelate.almIndex = { s.gPTAlmRecord with
      almType := pt s.gPTAlmRecord.almType, almEvent := c.event.byte, fCurrentValue := value
      usThresholdValue := thr, flag := generateFlag, generate := now } := by
    rw [show s'.fram = _ from congrArg History.fram hhist]
    exact slot_push_self (h := s.history) h.2 _
  have hchange : (slot s'.fram s.gPTAlmRelate.almIndex).change =
      ⟨c.event.byte, pt s.gPTAlmRecord.almType, value, thr, generateFlag, now⟩ := by
    rw [hstored]
    rfl
  rw [Agrees, hchange, hstored]
  constructor
  · intro hagree
    obtain ⟨-, -, hjoined⟩ := hagree (.inl hr)
    exact congrArg Change.almType (hjoined.inj hjoins)
  · rintro rfl -
    exact ⟨hrelate, rfl, hjoins⟩

/-! ## One evaluation -/

/-- Nothing but a raised alarm moves the history on. -/
theorem eval_relate {s : AlmState} {c : Call} {now : Stamp} (h : ¬ c.Raises s) :
    (s.eval c now).gPTAlmRelate = s.gPTAlmRelate := by
  cases hv : c.verdict with
  | marked =>
    rw [eval_marked hv]
    cases c with
    | voltFreq | current | power => rfl
    | io => rfl
  | ignored => rw [eval_ignored hv]
  | judged t =>
    have hout : Outcome s (s.eval c now) c.event t now := eval_judged hv
    rcases hout.history with ⟨-, hsame⟩ | ⟨hne, ht, -⟩ | ⟨-, -, hend⟩
    · exact congrArg History.relate hsame
    · exact absurd ⟨t, hv, ht, hne⟩ h
    · exact congrArg History.relate hend

/-- Without one the window stays, or an end joins it. -/
theorem eval_window {s : AlmState} {c : Call} {now : Stamp} (hindex : s.rtAlmIndex ≤ 10)
    (h : ¬ c.Raises s) : Watch.shown (s.eval c now) = Watch.shown s ∨
      (s.eval c now).newestFlag = some terminateFlag := by
  cases hv : c.verdict with
  | marked =>
    obtain ⟨hrecords, hkept, -, -⟩ := mark_frame c s
    left
    rw [eval_marked hv, Watch.shown, Watch.shown, hrecords, hkept]
  | ignored => exact .inl (by rw [eval_ignored hv])
  | judged t =>
    have hout : Outcome s (s.eval c now) c.event t now := eval_judged hv
    rcases hout with ⟨-, hs⟩ | ⟨hne, ht, -⟩ | ⟨-, -, value, thr, hs⟩
    · exact .inl (by rw [hs])
    · exact absurd ⟨t, hv, ht, hne⟩ h
    · obtain ⟨old, hjoins⟩ := settle_joins hindex c.event value thr now
      rw [hs]
      exact .inr hjoins.newestFlag

/-- So an evaluation that raises nothing generates nothing. -/
theorem not_generates {s : AlmState} {c : Call} {now : Stamp} (hindex : s.rtAlmIndex ≤ 10)
    (h : ¬ c.Raises s) : ¬ Generates s c (s.eval c now) := by
  rintro (hr | hmoved | ⟨hchanged, hflag⟩)
  · exact h hr
  · exact hmoved (eval_relate h)
  · rcases eval_window hindex h with hsame | hend
    · exact hchanged hsame
    · rw [hend] at hflag
      exact absurd hflag (by decide)

/-- **One evaluation**: the records agree after it exactly when it meets
its condition. -/
theorem eval_agrees_iff {s : AlmState} (h : InRange s) (c : Call) (now : Stamp) :
    Agrees s c (s.eval c now) ↔ TypeCached s c := by
  by_cases hraise : c.Raises s
  · obtain ⟨t, hv, ht, hne⟩ := hraise
    rw [eval_raise hv hne ht, raise_agrees h ⟨t, hv, ht, hne⟩ ht, TypeCached, hv]
    unfold Call.storedType
    by_cases hover : c.kind = .voltFreq ∧ t = eAlmTypeOver
    · obtain ⟨hkind, rfl⟩ := hover
      rw [if_pos ⟨hkind, rfl⟩]
      exact ⟨fun hcached _ _ _ => hcached, fun hcond => hcond hkind rfl hne⟩
    · rw [if_neg hover]
      exact iff_of_true rfl fun hkind hjudged _ =>
        absurd ⟨hkind, Verdict.judged.inj hjudged⟩ hover
  · refine iff_of_true (fun hg => absurd hg (not_generates h.1 hraise)) fun _ hv hne => ?_
    exact absurd ⟨eAlmTypeOver, hv, by decide, hne⟩ hraise

/-- An evaluation keeps both indices in range. -/
theorem InRange.eval {s : AlmState} (h : InRange s) (c : Call) (now : Stamp) :
    InRange (s.eval c now) := by
  refine ⟨eval_rtAlmIndex h.1 c now, ?_⟩
  by_cases hraise : c.Raises s
  · obtain ⟨t, hv, ht, hne⟩ := hraise
    have hhist := raise_history s c.event ht c.value (c.limit t) (c.storedType t) now
    rw [eval_raise hv hne ht, show (raise s c.event t c.value (c.limit t) (c.storedType t)
      now).gPTAlmRelate = s.gPTAlmRelate.advance from congrArg History.relate hhist]
    exact (advance_almIndex _).2
  · rw [eval_relate hraise]
    exact h.2

/-! ## Runs -/

/-- An evaluation of a pass. -/
def evalAt (now : AlmEvent → Stamp) (s : AlmState) (c : Call) : AlmState := s.eval c (now c.event)

/-- A pass over a sample, or `Alm_RecordClear`. -/
inductive AlmOp where
  | pass (p : Pass)
  | clear

def AlmState.step (s : AlmState) : AlmOp → AlmState
  | .pass p => s.pass p
  | .clear => almRecordClear s

/-- What is asked of each evaluation of a pass, from the state it finds. -/
def AlmState.Throughout (ok : (AlmEvent → Stamp) → AlmState → Call → Prop) (s : AlmState) :
    AlmOp → Prop
  | .pass p => Meets (evalAt p.now) (ok p.now) s (passCalls p.sample)
  | .clear => True

instance (ok : (AlmEvent → Stamp) → AlmState → Call → Prop) [∀ now s c, Decidable (ok now s c)]
    (s : AlmState) : ∀ op, Decidable (s.Throughout ok op)
  | .pass p => inferInstanceAs (Decidable (Meets (evalAt p.now) (ok p.now) s (passCalls p.sample)))
  | .clear => isTrue trivial

instance (s : AlmState) (c : Call) (s' : AlmState) : Decidable (Generates s c s') :=
  inferInstanceAs (Decidable (_ ∨ _ ∨ (_ ∧ _)))

instance (s s' : AlmState) (c : Change) : Decidable (Joins s s' c) :=
  inferInstanceAs (Decidable (_ ∧ _))

instance (s : AlmState) (c : Call) (s' : AlmState) : Decidable (Agrees s c s') :=
  inferInstanceAs (Decidable (_ → _))

instance (s : AlmState) (c : Call) : Decidable (TypeCached s c) :=
  inferInstanceAs (Decidable (_ → _ → _ → _))

theorem InRange.step {s : AlmState} (h : InRange s) (op : AlmOp) : InRange (s.step op) := by
  cases op with
  | clear => exact ⟨Nat.zero_le _, Nat.zero_lt_succ _⟩
  | pass p =>
    have hcalls : InRange (runCalls s (passCalls p.sample) p.now) := by
      generalize passCalls p.sample = cs
      induction cs generalizing s with
      | nil => exact h
      | cons c cs ih => exact ih (h.eval c _)
    unfold AlmState.step AlmState.pass almAllHandler
    dsimp only
    split
    · exact hcalls
    · exact hcalls

/-- In one pass, evaluation by evaluation. -/
theorem agrees_throughout_iff {s : AlmState} (h : InRange s) (op : AlmOp) :
    s.Throughout (fun now s c => Agrees s c (evalAt now s c)) op ↔
      s.Throughout (fun _ s c => TypeCached s c) op := by
  cases op with
  | clear => exact Iff.rfl
  | pass p =>
    exact meets_congr _ h (fun _ c hs _ => hs.eval c _) fun _ c hs => eval_agrees_iff hs c _

/-- **The two records of an alarm**: in every run of passes and clears the
records agree after every evaluation exactly when every evaluation meets
its condition. -/
theorem records_agree_iff {fram : Mem} (hi : (AlmState.powerUp fram).gPTAlmRelate.almIndex < 500)
    (ops : List AlmOp) :
    Meets AlmState.step (fun s op => s.Throughout (fun now s c => Agrees s c (evalAt now s c)) op)
        (.powerUp fram) ops ↔
      Meets AlmState.step (fun s op => s.Throughout (fun _ s c => TypeCached s c) op)
        (.powerUp fram) ops :=
  meets_congr ops ⟨(Watch.sound_init fram).right.1, hi⟩ (fun _ op h _ => h.step op)
    fun _ op h => agrees_throughout_iff h op

/-- A power alarm, and a quiet pass that ends it. -/
theorem records_agree_power :
    Meets AlmState.step (fun s op => s.Throughout (fun now s c => Agrees s c (evalAt now s c)) op)
      (.powerUp fun _ => 0) [.pass ⟨overPowerSample 0x31, fun _ => default⟩,
        .pass ⟨quietSample 0x31, fun _ => default⟩] :=
  (records_agree_iff (by decide) _).2 (by decide +kernel)

/-- A voltage over its limit on busbar A. -/
def overVoltageSample : Sample :=
  { quietSample 0x31 with
    acqBusVar := #v[{ quietBus with fUa := .ofByte 250 }, quietBus] }

/-- The history records an over-voltage with the type normal. -/
theorem over_voltage_mistyped :
    ¬ Meets AlmState.step (fun s op => s.Throughout (fun now s c => Agrees s c (evalAt now s c)) op)
      (.powerUp fun _ => 0) [.pass ⟨overVoltageSample, fun _ => default⟩] := by
  decide +kernel

end BusMonitor
