import BusMonitor.Alarm.Model
/-!
# What an evaluation does

Every evaluation compares one event with its remembered state and then
does one of four things: it writes the marker (`eval_marked`), it leaves the
state as it was (`eval_ignored`), it raises an alarm, or it settles one
(`eval_judged`). The lemmas here say what each of these leaves in the table,
the outputs and the history.
-/


namespace BusMonitor

open Recent

/-! ## The history, apart from the rest -/

/-- The header in RAM and the FRAM behind it. -/
structure History where
  relate : PTAlmRelate
  fram : Mem

/-- The history part of the state. -/
def AlmState.history (s : AlmState) : History := ⟨s.gPTAlmRelate, s.fram⟩

namespace History

/-- Storing a record in the next slot. -/
def push (h : History) (r : AlmRecord) : History where
  relate := h.relate.advance
  fram := (h.fram.write (slotAddr h.relate.almIndex) r.toBytes).write headerAddr
    h.relate.advance.toBytes

/-- The slots a termination searches, in order. -/
def searched (h : PTAlmRelate) : List Nat :=
  below h.almIndex ++ if h.fullFlag = 0 then [] else above h.almIndex 501

/-- The first of the listed slots that holds a record of the event. -/
def find (m : Mem) (e : UInt8) (is : List Nat) : Option Nat :=
  firstMatch (fun r : AlmRecord => r.almEvent = e) (slot m) is

/-- The FRAM with one slot closed. -/
def closeSlot (m : Mem) (now : Stamp) (i : Nat) : Mem :=
  m.write (closingAddr i) ((slot m i).close now).closingBytes

/-- The FRAM after a search: its first hit is closed. -/
def closeFirst (m : Mem) (e : UInt8) (now : Stamp) (is : List Nat) : Mem :=
  match find m e is with
  | none => m
  | some i => closeSlot m now i

/-- Ending the alarm of an event. -/
def finish (h : History) (e : UInt8) (now : Stamp) : History :=
  ⟨h.relate, closeFirst h.fram e now (searched h.relate)⟩

theorem find_append {m : Mem} {e : UInt8} {is js : List Nat} :
    find m e (is ++ js) = (find m e is).or (find m e js) :=
  List.find?_append

end History

open History

/-! ## The frame of each function -/

/-- A search changes the cached record and the FRAM and nothing else. -/
theorem searchSlots_frame (s : AlmState) (e : UInt8) (now : Stamp) (is : List Nat) :
    ∃ r, (searchSlots s e now is).1
        = { s with gPTAlmRecord := r, fram := closeFirst s.fram e now is } ∧
      (searchSlots s e now is).2 = (find s.fram e is).isSome := by
  induction is generalizing s with
  | nil => exact ⟨s.gPTAlmRecord, rfl, rfl⟩
  | cons i is ih =>
    unfold searchSlots
    by_cases h : (slot s.fram i).almEvent = e
    · -- the loop breaks at the first hit
      have hf : find s.fram e (i :: is) = some i := by simp [find, firstMatch, h]
      refine ⟨(slot s.fram i).close now, ?_, ?_⟩
      · simp [h, closeFirst, hf, closeSlot]
      · simp [h, hf]
    · have hf : find s.fram e (i :: is) = find s.fram e is := by simp [find, firstMatch, h]
      simp only [if_neg h]
      obtain ⟨r, h₁, h₂⟩ := ih { s with gPTAlmRecord := slot s.fram i }
      exact ⟨r, by rw [h₁]; simp only [closeFirst, hf], by rw [h₂, hf]⟩

/-- Assigning the real-time record changes that array alone, and stays
inside it while the index does. -/
theorem setRTRecord_frame (s : AlmState) (f : AlmRecord → AlmRecord) :
    ∃ v st, s.setRTRecord f = { s with gRTAlmRecord := v, stray := st } ∧
      (s.rtAlmIndex < 10 → st = s.stray) := by
  unfold AlmState.setRTRecord
  split
  · exact ⟨_, _, rfl, fun _ => rfl⟩
  · exact ⟨_, _, rfl, fun h => absurd h ‹_›⟩

/-- The two loops of a termination are one search. -/
theorem closeFirst_append {m : Mem} {e : UInt8} {now : Stamp} {is js : List Nat} :
    closeFirst m e now (is ++ js)
      = if (find m e is).isSome then closeFirst m e now is else closeFirst m e now js := by
  unfold closeFirst
  rw [find_append]
  cases h : find m e is <;> simp

/-- The search of `Alm_Terminate` runs over the slots `searched` lists. -/
theorem almTerminate_eq (s : AlmState) (e : UInt8) (now : Stamp) :
    ∃ r, almTerminate s e now
      = ({ s with gPTAlmRecord := r, fram := (s.history.finish e now).fram }).setRTRecord
          fun q => { q with flag := terminateFlag, terminate := now } := by
  obtain ⟨r₁, h₁, f₁⟩ := searchSlots_frame s e now (below s.gPTAlmRelate.almIndex)
  have hfin : (s.history.finish e now).fram
      = closeFirst s.fram e now (searched s.gPTAlmRelate) := rfl
  rw [hfin]
  unfold almTerminate searched
  by_cases hfull : s.gPTAlmRelate.fullFlag = 0
  · -- one loop only
    exact ⟨r₁, by simp only [if_pos hfull, h₁, List.append_nil]⟩
  · simp only [if_neg hfull]
    rw [closeFirst_append, ← f₁]
    by_cases hfound : (searchSlots s e now (below s.gPTAlmRelate.almIndex)).2 = true
    · exact ⟨r₁, by simp only [if_pos hfound, h₁]⟩
    · -- the first loop found nothing, so the second starts from the same FRAM
      have hnone : find s.fram e (below s.gPTAlmRelate.almIndex) = none := by
        rw [f₁] at hfound; simpa using hfound
      have hsame : closeFirst s.fram e now (below s.gPTAlmRelate.almIndex) = s.fram := by
        simp only [closeFirst, hnone]
      obtain ⟨r₂, h₂, -⟩ := searchSlots_frame { s with gPTAlmRecord := r₁ } e now
        (above s.gPTAlmRelate.almIndex 501)
      exact ⟨r₂, by simp only [if_neg hfound, h₁, hsame, h₂]⟩

/-- **What `Alm_Terminate` changes.** -/
theorem almTerminate_frame (s : AlmState) (e : UInt8) (now : Stamp) :
    ∃ r v st, almTerminate s e now = { s with
        gPTAlmRecord := r, gRTAlmRecord := v, stray := st,
        fram := (s.history.finish e now).fram } ∧
      (s.rtAlmIndex < 10 → st = s.stray) := by
  obtain ⟨r, hr⟩ := almTerminate_eq s e now
  obtain ⟨v, st, hv, hst⟩ := setRTRecord_frame
    { s with gPTAlmRecord := r, fram := (s.history.finish e now).fram }
    (fun q => { q with flag := terminateFlag, terminate := now })
  exact ⟨r, v, st, hr.trans hv, hst⟩

/-- **What `Alm_Generate` changes.** -/
theorem almGenerate_frame (s : AlmState) (now : Stamp) :
    ∃ r v st, r = { s.gPTAlmRecord with flag := generateFlag, generate := now } ∧
      almGenerate s now = { s with
        gPTAlmRecord := r, gRTAlmRecord := v, stray := st, outputs := .on,
        gPTAlmRelate := (s.history.push r).relate, fram := (s.history.push r).fram } ∧
      (s.rtAlmIndex < 10 → st = s.stray) := by
  obtain ⟨v, st, hv, hst⟩ := setRTRecord_frame
    { s with
      gPTAlmRecord := { s.gPTAlmRecord with flag := generateFlag, generate := now }
      gPTAlmRelate := s.gPTAlmRelate.advance
      fram := (s.fram.write (slotAddr s.gPTAlmRelate.almIndex)
        { s.gPTAlmRecord with flag := generateFlag, generate := now }.toBytes).write headerAddr
          s.gPTAlmRelate.advance.toBytes }
    (fun q => { q with flag := generateFlag, generate := now })
  refine ⟨_, v, st, rfl, ?_, hst⟩
  simp only [almGenerate, hv, AlmState.history, push]

theorem rtShift_frame (s : AlmState) :
    ∃ v i, rtShift s = { s with gRTAlmRecord := v, rtAlmIndex := i } ∧ i < 10 := by
  unfold rtShift rtAlmItem
  split
  · exact ⟨_, _, rfl, by omega⟩
  · exact ⟨s.gRTAlmRecord, s.rtAlmIndex, rfl, by omega⟩

/-- The opening of an alarm branch: the entry is set, and the index of the
real-time records is in range. -/
theorem open_frame (s : AlmState) (e : AlmEvent) (t : UInt8) (f : AlmRecord → AlmRecord) :
    ∃ v i, i < 10 ∧ ((rtShift s).setEntry e t).setRTRecord f = { s with
        gAlmMessage := setSlot s.gAlmMessage e t, gRTAlmRecord := v, rtAlmIndex := i } := by
  obtain ⟨v₁, i, h₁, hi⟩ := rtShift_frame s
  obtain ⟨v, st, h, hst⟩ := setRTRecord_frame ((rtShift s).setEntry e t) f
  refine ⟨v, i, hi, ?_⟩
  rw [h, hst (by rw [h₁]; exact hi), h₁]
  rfl

/-- **Raising an alarm**: the event takes the alarm type in both tables,
the outputs go on, and an open record of the event joins the history. -/
theorem raise_frame (s : AlmState) (e : AlmEvent) {t : UInt8} (ht : t ≠ eAlmTypeNormal)
    (value : Single) (thr : UInt16) (pt : UInt8 → UInt8) (now : Stamp) :
    ∃ r v i, r.almEvent = e.byte ∧ r.IsOpen ∧ r.generate = now ∧
      raise s e t value thr pt now = { s with
        gAlmMessage := setSlot s.gAlmMessage e t
        lAlmState := setSlot s.lAlmState e t
        gRTAlmRecord := v, rtAlmIndex := i, gPTAlmRecord := r
        gPTAlmRelate := (s.history.push r).relate, fram := (s.history.push r).fram
        ucPCProtoDataFlag := s.ucPCProtoDataFlag ||| 1, outputs := .on } := by
  unfold raise almComp
  obtain ⟨v₁, i, hi, h₁⟩ := open_frame s e t fun r => { r with
    almType := t, almEvent := e.byte, fCurrentValue := value, usThresholdValue := thr }
  rw [if_pos ht, h₁]
  obtain ⟨r, v, st, hr, h, hst⟩ := almGenerate_frame
    (AlmState.setPTRecord
      { s with gAlmMessage := setSlot s.gAlmMessage e t, gRTAlmRecord := v₁, rtAlmIndex := i }
      fun r => { r with
        almType := pt r.almType, almEvent := e.byte, fCurrentValue := value,
        usThresholdValue := thr }) now
  refine ⟨r, v, (i + 1) % 256, by rw [hr]; rfl, by rw [hr]; rfl, by rw [hr], ?_⟩
  rw [h, hst hi]
  rfl

/-- **Settling an alarm**: the event is normal in both tables, and the
first record of it that the search meets is closed. -/
theorem settle_frame (s : AlmState) (e : AlmEvent) (value : Single)
    (thr : UInt8 → Option UInt16) (now : Stamp) :
    ∃ r v i, settle s e value thr now = { s with
        gAlmMessage := setSlot s.gAlmMessage e eAlmTypeNormal
        lAlmState := setSlot s.lAlmState e eAlmTypeNormal
        gRTAlmRecord := v, rtAlmIndex := i, gPTAlmRecord := r
        fram := (s.history.finish e.byte now).fram
        ucPCProtoDataFlag := s.ucPCProtoDataFlag ||| 1 } := by
  unfold settle almComp
  obtain ⟨v₁, i, hi, h₁⟩ := open_frame s e eAlmTypeNormal fun r => { r with
    almType := s.last e, almEvent := e.byte, fCurrentValue := value,
    usThresholdValue := (thr (s.last e)).getD r.usThresholdValue }
  rw [if_neg (not_not.2 rfl), h₁]
  obtain ⟨r, v, st, h, hst⟩ := almTerminate_frame
    { s with
      gAlmMessage := setSlot s.gAlmMessage e eAlmTypeNormal, gRTAlmRecord := v₁
      rtAlmIndex := i } e.byte now
  refine ⟨r, v, (i + 1) % 256, ?_⟩
  rw [h, hst hi]
  rfl

/-! ## The four outcomes of an evaluation -/

/-- What an evaluation finds: the marker, an alarm type, or a branch state
that says neither. -/
inductive Verdict
  | marked
  | judged (t : UInt8)
  | ignored
  deriving DecidableEq

/-- The alarm type of a voltage or a frequency. -/
def voltFreqType (value : Single) (upperL lowerL : UInt16) : UInt8 :=
  if value.geNat upperL.toNat then eAlmTypeOver
  else if value.leNat lowerL.toNat then eAlmTypeUnder else eAlmTypeNormal

/-- The alarm type of a current. -/
def currentType (value : Single) (upperL ultUpperL : UInt16) : UInt8 :=
  if value.geNat ultUpperL.toNat then eAlmTypeOverSec
  else if value.geNat upperL.toNat then eAlmTypeOver else eAlmTypeNormal

/-- The alarm type of a power. -/
def powerType (value : Single) (upperL : UInt16) : UInt8 :=
  if value.geNat upperL.toNat then eAlmTypeOver else eAlmTypeNormal

/-- A sampled value is the marker, or has an alarm type. -/
def valueVerdict (value : Single) (t : UInt8) : Verdict :=
  if value.eqNat 0x20 then .marked else .judged t

/-- The verdict on a switch state. -/
def ioVerdict (state : UInt8) : Verdict :=
  if state = notMonitored then .marked
  else if state = eActiveOFF then .judged eAlmTypeIOTrip
  else if state = eActiveON then .judged eAlmTypeNormal else .ignored

theorem ioVerdict_marked {state : UInt8} (h : ioVerdict state = .marked) :
    state = notMonitored := by
  unfold ioVerdict at h
  by_contra hm
  rw [if_neg hm] at h
  split at h
  · cases h
  · split at h <;> cases h

theorem ioVerdict_judged {state t : UInt8} (h : ioVerdict state = .judged t) :
    (state = eActiveOFF ∧ t = eAlmTypeIOTrip) ∨ (state = eActiveON ∧ t = eAlmTypeNormal) := by
  unfold ioVerdict at h
  by_cases hm : state = notMonitored
  · rw [if_pos hm] at h; cases h
  · rw [if_neg hm] at h
    by_cases hoff : state = eActiveOFF
    · rw [if_pos hoff] at h
      exact .inl ⟨hoff, (Verdict.judged.inj h).symm⟩
    · rw [if_neg hoff] at h
      by_cases hon : state = eActiveON
      · rw [if_pos hon] at h
        exact .inr ⟨hon, (Verdict.judged.inj h).symm⟩
      · rw [if_neg hon] at h; cases h

namespace Call

/-- The verdict of an evaluation. -/
def verdict : Call → Verdict
  | voltFreq value upperL lowerL _ => valueVerdict value (voltFreqType value upperL lowerL)
  | current value upperL ultUpperL _ => valueVerdict value (currentType value upperL ultUpperL)
  | power value upperL _ => valueVerdict value (powerType value upperL)
  | io state _ => ioVerdict state

/-- The call raises an alarm: it judges its event to be in one that is not
the remembered state. -/
def Raises (c : Call) (s : AlmState) : Prop :=
  ∃ t, c.verdict = .judged t ∧ t ≠ eAlmTypeNormal ∧ s.last c.event ≠ t

instance (c : Call) (s : AlmState) : Decidable (c.Raises s) :=
  match h : c.verdict with
  | .judged t =>
    decidable_of_iff (t ≠ eAlmTypeNormal ∧ s.last c.event ≠ t) (by simp [Raises, h])
  | .marked => isFalse (by simp [Raises, h])
  | .ignored => isFalse (by simp [Raises, h])

/-- Writing the marker. For a switch state the index is the event's code
less `eAlmEvent_SW`, whatever the event. -/
def mark (c : Call) (s : AlmState) : AlmState :=
  match c with
  | io _ e => s.setBranchAlm ((e.code : Int) - eAlmEventSW) notMonitored
  | c => s.setEntry c.event notMonitored

end Call

/-- A marker leaves the data flag. -/
theorem mark_flag (c : Call) (s : AlmState) :
    (c.mark s).ucPCProtoDataFlag = s.ucPCProtoDataFlag := by
  cases c with
  | voltFreq | current | power => rfl
  | io => rfl

/-- A marked value writes the marker and nothing else. -/
theorem eval_marked {s : AlmState} {c : Call} {now : Stamp} (h : c.verdict = .marked) :
    s.eval c now = c.mark s := by
  cases c with
  | voltFreq value upperL lowerL e =>
    have hv : value.eqNat 0x20 = true := by
      by_contra hv; simp [Call.verdict, valueVerdict, hv] at h
    simp only [AlmState.eval, almTypeVoltFreq, if_pos hv, Call.mark, Call.event]
  | current value upperL ultUpperL e =>
    have hv : value.eqNat 0x20 = true := by
      by_contra hv; simp [Call.verdict, valueVerdict, hv] at h
    simp only [AlmState.eval, almTypeCurrent, if_pos hv, Call.mark, Call.event]
  | power value upperL e =>
    have hv : value.eqNat 0x20 = true := by
      by_contra hv; simp [Call.verdict, valueVerdict, hv] at h
    simp only [AlmState.eval, almTypePower, if_pos hv, Call.mark, Call.event]
  | io state e =>
    have hv : state = 0x20 := ioVerdict_marked h
    simp only [AlmState.eval, almTypeIO, if_pos hv, Call.mark]

/-- A branch state that says neither changes nothing. -/
theorem eval_ignored {s : AlmState} {c : Call} {now : Stamp} (h : c.verdict = .ignored) :
    s.eval c now = s := by
  cases c with
  | voltFreq | current | power =>
    simp only [Call.verdict, valueVerdict] at h
    split at h <;> cases h
  | io state e =>
    simp only [Call.verdict, ioVerdict] at h
    split at h
    · cases h
    · rename_i hm
      split at h
      · cases h
      · rename_i hoff
        split at h
        · cases h
        · rename_i hon
          have hm' : ¬ state = 0x20 := hm
          simp only [AlmState.eval, almTypeIO, if_neg hm', if_neg hoff, if_neg hon]

/-- What becomes of an event judged to be of type `t`: it keeps its state,
or takes the new one through `raise` or `settle`. -/
def Outcome (s s' : AlmState) (e : AlmEvent) (t : UInt8) (now : Stamp) : Prop :=
  (s.last e = t ∧ s' = s) ∨
  (s.last e ≠ t ∧ t ≠ eAlmTypeNormal ∧ ∃ value thr pt, s' = raise s e t value thr pt now) ∨
  (s.last e ≠ t ∧ t = eAlmTypeNormal ∧ ∃ value thr, s' = settle s e value thr now)

theorem outcome_raise (s : AlmState) (e : AlmEvent) {t : UInt8} (ht : t ≠ eAlmTypeNormal)
    (value : Single) (thr : UInt16) (pt : UInt8 → UInt8) (now : Stamp) :
    Outcome s (if s.last e ≠ t then raise s e t value thr pt now else s) e t now := by
  by_cases hl : s.last e = t
  · exact .inl ⟨hl, if_neg (not_not.2 hl)⟩
  · exact .inr (.inl ⟨hl, ht, value, thr, pt, if_pos hl⟩)

theorem outcome_settle (s : AlmState) (e : AlmEvent) (value : Single)
    (thr : UInt8 → Option UInt16) (now : Stamp) :
    Outcome s (if s.last e ≠ eAlmTypeNormal then settle s e value thr now else s) e
      eAlmTypeNormal now := by
  by_cases hl : s.last e = eAlmTypeNormal
  · exact .inl ⟨hl, if_neg (not_not.2 hl)⟩
  · exact .inr (.inr ⟨hl, rfl, value, thr, if_pos hl⟩)

/-- A value that is judged is not the marker. -/
theorem valueVerdict_judged {value : Single} {t t' : UInt8}
    (h : valueVerdict value t = .judged t') : value.eqNat 0x20 = false ∧ t = t' := by
  unfold valueVerdict at h
  split at h
  · cases h
  · rename_i hv
    exact ⟨by simpa using hv, Verdict.judged.inj h⟩

/-- **A judged event** keeps its state, or takes the new one through
`raise` or `settle`. -/
theorem eval_judged {s : AlmState} {c : Call} {now : Stamp} {t : UInt8}
    (h : c.verdict = .judged t) : Outcome s (s.eval c now) c.event t now := by
  cases c with
  | voltFreq value upperL lowerL e =>
    obtain ⟨hv, rfl⟩ := valueVerdict_judged h
    simp only [AlmState.eval, almTypeVoltFreq, hv, Bool.false_eq_true, if_false, voltFreqType]
    split
    · exact outcome_raise s (.bus e) (by decide) ..
    · split
      · exact outcome_raise s (.bus e) (by decide) ..
      · exact outcome_settle s (.bus e) ..
  | current value upperL ultUpperL e =>
    obtain ⟨hv, rfl⟩ := valueVerdict_judged h
    simp only [AlmState.eval, almTypeCurrent, hv, Bool.false_eq_true, if_false, currentType]
    split
    · exact outcome_raise s (.bus e) (by decide) ..
    · split
      · exact outcome_raise s (.bus e) (by decide) ..
      · exact outcome_settle s (.bus e) ..
  | power value upperL e =>
    obtain ⟨hv, rfl⟩ := valueVerdict_judged h
    simp only [AlmState.eval, almTypePower, hv, Bool.false_eq_true, if_false, powerType]
    split
    · exact outcome_raise s (.bus e) (by decide) ..
    · exact outcome_settle s (.bus e) ..
  | io state e =>
    simp only [AlmState.eval, almTypeIO]
    rcases ioVerdict_judged h with ⟨rfl, rfl⟩ | ⟨rfl, rfl⟩
    · exact outcome_raise s e (by decide) ..
    · exact outcome_settle s e ..

/-! ## What an outcome leaves behind -/

/-- **The table after a judged event**: both entries of the event hold the
type, unless the state was that type already. -/
theorem Outcome.board {s s' : AlmState} {e : AlmEvent} {t : UInt8} {now : Stamp}
    (h : Outcome s s' e t now) :
    (s.last e = t ∧ s' = s) ∨
    (s.last e ≠ t ∧ s'.gAlmMessage = setSlot s.gAlmMessage e t ∧
      s'.lAlmState = setSlot s.lAlmState e t ∧ s'.stray = s.stray) := by
  rcases h with h | ⟨hl, ht, value, thr, pt, rfl⟩ | ⟨hl, rfl, value, thr, rfl⟩
  · exact .inl h
  · obtain ⟨r, v, i, -, -, -, hf⟩ := raise_frame s e ht value thr pt now
    rw [hf]; exact .inr ⟨hl, rfl, rfl, rfl⟩
  · obtain ⟨r, v, i, hf⟩ := settle_frame s e value thr now
    rw [hf]; exact .inr ⟨hl, rfl, rfl, rfl⟩

/-- **The outputs after a judged event**: on when an alarm was raised, as
before otherwise. -/
theorem Outcome.outputs {s s' : AlmState} {e : AlmEvent} {t : UInt8} {now : Stamp}
    (h : Outcome s s' e t now) :
    s'.outputs = if s.last e ≠ t ∧ t ≠ eAlmTypeNormal then .on else s.outputs := by
  rcases h with ⟨hl, rfl⟩ | ⟨hl, ht, value, thr, pt, rfl⟩ | ⟨-, rfl, value, thr, rfl⟩
  · rw [if_neg (by simp [hl])]
  · obtain ⟨r, v, i, -, -, -, hf⟩ := raise_frame s e ht value thr pt now
    rw [hf, if_pos ⟨hl, ht⟩]
  · obtain ⟨r, v, i, hf⟩ := settle_frame s e value thr now
    rw [hf, if_neg (by simp)]

/-- **The history after a judged event**: a new open record of it, or its
alarm ended, or nothing. -/
theorem Outcome.history {s s' : AlmState} {e : AlmEvent} {t : UInt8} {now : Stamp}
    (h : Outcome s s' e t now) :
    (s.last e = t ∧ s'.history = s.history) ∨
    (s.last e ≠ t ∧ t ≠ eAlmTypeNormal ∧
      ∃ r, r.almEvent = e.byte ∧ r.IsOpen ∧ r.generate = now ∧
        s'.history = s.history.push r) ∨
    (s.last e ≠ t ∧ t = eAlmTypeNormal ∧ s'.history = s.history.finish e.byte now) := by
  rcases h with ⟨hl, rfl⟩ | ⟨hl, ht, value, thr, pt, rfl⟩ | ⟨hl, rfl, value, thr, rfl⟩
  · exact .inl ⟨hl, rfl⟩
  · obtain ⟨r, v, i, hr, ho, hg, hf⟩ := raise_frame s e ht value thr pt now
    exact .inr (.inl ⟨hl, ht, r, hr, ho, hg, by rw [hf]; rfl⟩)
  · obtain ⟨r, v, i, hf⟩ := settle_frame s e value thr now
    exact .inr (.inr ⟨hl, rfl, by rw [hf]; rfl⟩)

end BusMonitor
