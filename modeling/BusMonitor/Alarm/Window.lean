import BusMonitor.Alarm.Effect
import BusMonitor.Lib.Run
import Mathlib.Data.List.DropRight
/-!
# The window of real-time alarms

`gRTAlmRecord[0..RTAlmIndex)` is to show the last ten changes of state
since the last clear. A run of evaluations and clears is kept beside the
log of the changes. Every branch of the evaluations shifts and appends
alike, and keeps the window. What does not keep it is a marker that
`AlmType_IO` writes for an event of a busbar: in the listing of the build
`gRTAlmRecord` ends where `gAlmMessage` starts, so a marker that falls
short of `gAlmMessage` lands in the last record.
-/


namespace BusMonitor

open Stepwise LittleEndian

/-! ## Which function evaluates an event -/

/-- The evaluating functions. -/
inductive Kind where
  | voltFreq
  | current
  | power
  | io
  deriving DecidableEq

def Call.kind : Call → Kind
  | .voltFreq .. => .voltFreq
  | .current .. => .current
  | .power .. => .power
  | .io .. => .io

/-- The function that `Alm_BusbarVariable`, `Alm_BusState` and
`Alm_BranchState` call for an event. The events of busbar B follow those
of busbar A after ten. -/
def AlmEvent.kind : AlmEvent → Kind
  | .bus e =>
    let i : Nat := e % 10
    if i = 3 ∨ i = 4 ∨ i = 5 then .current
    else if i = 6 then .power
    else if i = 8 ∨ i = 9 then .io
    else .voltFreq
  | .branch _ => .io

/-- The event is evaluated by its own function. -/
def Call.Made (c : Call) : Prop := c.kind = c.event.kind

instance (c : Call) : Decidable c.Made := inferInstanceAs (Decidable (_ = _))

theorem almBusbarVariable_made (x : Sample) (num : Fin 2) :
    ∀ c ∈ almBusbarVariable x num, c.Made := by
  intro c hc
  simp only [almBusbarVariable, List.mem_cons, List.not_mem_nil, or_false] at hc
  obtain rfl | rfl : num = 0 ∨ num = 1 := by omega
  · rcases hc with rfl | rfl | rfl | rfl | rfl | rfl | rfl | rfl <;> rfl
  · rcases hc with rfl | rfl | rfl | rfl | rfl | rfl | rfl | rfl <;> rfl

theorem almBusState_made (x : Sample) : ∀ c ∈ almBusState x, c.Made := by
  intro c hc
  -- every call is `AlmType_IO` for a switch or an arrester
  have hio : ∃ state e, c = .io state e ∧ e.kind = .io := by
    simp only [almBusState, switchCalls, arresterCalls, List.mem_append] at hc
    rcases hc with hc | hc
    · split at hc
      · simp only [List.mem_cons, List.not_mem_nil, or_false] at hc
        rcases hc with rfl | rfl <;> exact ⟨_, _, rfl, rfl⟩
      · split at hc
        · simp only [List.mem_cons, List.not_mem_nil, or_false] at hc
          rcases hc with rfl | rfl <;> exact ⟨_, _, rfl, rfl⟩
        · split at hc
          · simp only [List.mem_cons, List.not_mem_nil, or_false] at hc
            rcases hc with rfl | rfl
            · split <;> exact ⟨_, _, rfl, rfl⟩
            · exact ⟨_, _, rfl, rfl⟩
          · cases hc
    · split at hc
      all_goals
        rcases List.mem_cons.1 hc with rfl | hc
        · exact ⟨_, _, rfl, rfl⟩
        · split at hc
          · rw [List.mem_singleton.1 hc]
            exact ⟨_, _, rfl, rfl⟩
          · cases hc
  obtain ⟨state, e, rfl, he⟩ := hio
  exact he.symm

/-- **What a pass evaluates**: every event by its own function. -/
theorem passCalls_made (x : Sample) : ∀ c ∈ passCalls x, c.Made := by
  have hbranch : ∀ c ∈ almBranchState x, c.Made := by
    intro c hc
    unfold almBranchState at hc
    split at hc
    · obtain ⟨k, -, rfl⟩ := List.mem_map.1 hc
      rfl
    · obtain ⟨k, -, rfl⟩ := List.mem_map.1 hc
      rfl
  intro c hc
  unfold passCalls at hc
  rcases List.mem_append.1 hc with hc | hc
  · exact almBusState_made x c hc
  · split at hc
    · rcases List.mem_append.1 hc with hc | hc
      · exact almBusbarVariable_made x 0 c hc
      · exact hbranch c hc
    · rcases List.mem_append.1 hc with hc | hc
      · rcases List.mem_append.1 hc with hc | hc
        · exact almBusbarVariable_made x 0 c hc
        · exact almBusbarVariable_made x 1 c hc
      · exact hbranch c hc

/-! ## The memory before the alarm message -/

/-- A byte stored into a record. -/
def AlmRecord.setByte (r : AlmRecord) (i : Nat) (b : UInt8) : AlmRecord :=
  readRecord (fun k => (r.toBytes.set i b).getD k 0) 0

/-- The byte of the last record that the marker of a call falls on.
`BranchAlm` starts at byte 20 of `gAlmMessage`, and the record before it
has 21 bytes. -/
def Call.overrun : Call → Option Nat
  | .io state (.bus e) => if state = 0x20 ∧ (e : Nat) < 12 then some (21 + 20 + e - 32) else none
  | _ => none

/-- Running a call, with the store it makes before `gAlmMessage`. -/
def AlmState.evalInPlace (s : AlmState) (c : Call) (now : Stamp) : AlmState :=
  let s := s.eval c now
  match c.overrun with
  | none => s
  | some i =>
    { s with
      gRTAlmRecord := s.gRTAlmRecord.mapIdx fun k r =>
        if k = 9 then r.setByte i notMonitored else r }

/-! ## The log of the changes -/

/-- A change of state, as the window shows it. -/
structure Change where
  event : UInt8
  almType : UInt8
  value : Single
  threshold : UInt16
  flag : UInt8
  time : Stamp
  deriving DecidableEq

/-- The change a record shows: of its two times the one of its flag. -/
def AlmRecord.change (r : AlmRecord) : Change where
  event := r.almEvent
  almType := r.almType
  value := r.fCurrentValue
  threshold := r.usThresholdValue
  flag := r.flag
  time := if r.flag = terminateFlag then r.terminate else r.generate

namespace Call

/-- The value a call evaluates. -/
def value : Call → Single
  | voltFreq value .. => value
  | current value .. => value
  | power value .. => value
  | io state _ => .ofByte state

/-- The threshold of an alarm type. -/
def limit : Call → UInt8 → UInt16
  | voltFreq _ upperL lowerL _, t => if t = eAlmTypeOver then upperL else lowerL
  | current _ upperL ultUpperL _, t => if t = eAlmTypeOverSec then ultUpperL else upperL
  | power _ upperL _, _ => upperL
  | io .., _ => eActiveOFF.toUInt16

/-- The change from an old state to the state `t`: an alarm of type `t`, or
the end of the old one. -/
def change (c : Call) (old t : UInt8) (now : Stamp) : Change where
  event := c.event.byte
  almType := if t = eAlmTypeNormal then old else t
  value := c.value
  threshold := c.limit (if t = eAlmTypeNormal then old else t)
  flag := if t = eAlmTypeNormal then terminateFlag else generateFlag
  time := now

end Call

/-- The alarm component with the state each event was last seen in, and the
changes since the last clear. -/
structure Watch where
  alm : AlmState
  seen : AlmEvent → UInt8
  log : List Change

/-- An evaluation at a time, or `Alm_RecordClear`. -/
inductive WatchOp where
  | eval (c : { c : Call // c.Made }) (now : Stamp)
  | clear

/-- The access is outside the real-time records. -/
def StrayAccess.OffRecords : StrayAccess → Prop
  | branchAlm _ => False
  | gRTAlmRecord _ => True

instance : DecidablePred StrayAccess.OffRecords
  | .branchAlm _ => isFalse not_false
  | .gRTAlmRecord _ => isTrue trivial

namespace Watch

/-- The log after an evaluation: a call that judges its event to be in
another state than before adds a change. -/
def judge (W : Watch) (c : Call) (now : Stamp) : Watch :=
  match c.verdict with
  | .judged t =>
    if W.seen c.event = t then W
    else { W with
      seen := Function.update W.seen c.event t
      log := W.log ++ [c.change (W.seen c.event) t now] }
  | _ => W

def step (W : Watch) : WatchOp → Watch
  | .eval c now => { W.judge c now with alm := W.alm.evalInPlace c now }
  | .clear => { W with alm := almRecordClear W.alm, log := [] }

/-- After power-up. -/
def init (fram : Mem) : Watch := ⟨.powerUp fram, fun _ => eAlmTypeNormal, []⟩

/-- The changes the records under the index show. -/
def shown (s : AlmState) : List Change :=
  (s.gRTAlmRecord.toList.take s.rtAlmIndex).map AlmRecord.change

/-- **The window is right**: the index is at most 10, no access has left
the records, and they show the last ten changes. -/
def Right (W : Watch) : Prop :=
  W.alm.rtAlmIndex ≤ 10 ∧ (∀ a ∈ W.alm.stray, ¬ a.OffRecords) ∧ shown W.alm = W.log.rtake 10

instance (W : Watch) : Decidable W.Right := inferInstanceAs (Decidable (_ ∧ _ ∧ _))

/-- **The condition on a step**: a marker that falls on the last record
finds the window not full, or the marker there already. -/
def StepOk (W : Watch) : WatchOp → Prop
  | .eval c _ => ∀ i, c.1.overrun = some i → W.alm.rtAlmIndex = 10 →
    ∀ r, W.alm.gRTAlmRecord[9]? = some r → r.toBytes.getD i 0 = notMonitored
  | .clear => True

end Watch

/-! ## One record more -/

/-- The records under the index are `l`, and the next one is `r`. -/
structure Slotted (s : AlmState) (l : List AlmRecord) (r : AlmRecord) : Prop where
  index : s.rtAlmIndex = l.length
  room : l.length < 10
  records : s.gRTAlmRecord.toList.take (l.length + 1) = l ++ [r]

namespace Slotted

variable {s s' : AlmState} {l : List AlmRecord} {r : AlmRecord}

theorem congr (h : Slotted s l r) (hr : s'.gRTAlmRecord = s.gRTAlmRecord)
    (hi : s'.rtAlmIndex = s.rtAlmIndex) : Slotted s' l r :=
  ⟨hi.trans h.index, h.room, hr ▸ h.records⟩

/-- An assignment to the record under the index. -/
theorem setRTRecord (h : Slotted s l r) (f : AlmRecord → AlmRecord) :
    Slotted (s.setRTRecord f) l (f r) := by
  have hlt : s.rtAlmIndex < 10 := h.index ▸ h.room
  have hlen : s.gRTAlmRecord.toList.length = 10 := Vector.length_toList
  have hget : s.gRTAlmRecord.toList[l.length]? = some r := by
    rw [← List.getElem?_take_of_lt (Nat.lt_succ_self l.length), h.records]
    simp
  have hval : s.gRTAlmRecord[s.rtAlmIndex] = r := by
    rw [List.getElem?_eq_some_iff] at hget
    obtain ⟨hl, hv⟩ := hget
    rw [← hv, Vector.getElem_toList]
    simp only [h.index]
  unfold AlmState.setRTRecord
  rw [dif_pos hlt]
  refine ⟨h.index, h.room, ?_⟩
  dsimp only
  rw [Vector.toList_set, hval, h.index, List.take_set, h.records]
  simp

/-- The history record is another one. -/
theorem setPTRecord (h : Slotted s l r) (f : AlmRecord → AlmRecord) :
    Slotted (s.setPTRecord f) l r :=
  h.congr rfl rfl

theorem almGenerate (h : Slotted s l r) (now : Stamp) :
    Slotted (almGenerate s now) l { r with flag := generateFlag, generate := now } := by
  have hout : ∀ (s' : AlmState) f, Slotted s' l r →
      Slotted { s'.setRTRecord f with outputs := .on } l (f r) :=
    fun s' f h' => (h'.setRTRecord f).congr rfl rfl
  exact hout _ (fun q => { q with flag := generateFlag, generate := now }) (h.congr rfl rfl)

theorem almTerminate (h : Slotted s l r) (e : UInt8) (now : Stamp) :
    Slotted (almTerminate s e now) l { r with flag := terminateFlag, terminate := now } := by
  obtain ⟨q, hq⟩ := almTerminate_eq s e now
  rw [hq]
  have hrec : Slotted { s with gPTAlmRecord := q, fram := (s.history.finish e now).fram } l r :=
    h.congr rfl rfl
  exact hrec.setRTRecord fun q => { q with flag := terminateFlag, terminate := now }

end Slotted

/-- A record list that has room. -/
theorem slotted_of_lt {s : AlmState} (h : s.rtAlmIndex < 10) :
    ∃ r, Slotted s (s.gRTAlmRecord.toList.take s.rtAlmIndex) r := by
  have hlen : s.gRTAlmRecord.toList.length = 10 := Vector.length_toList
  have htake : (s.gRTAlmRecord.toList.take s.rtAlmIndex).length = s.rtAlmIndex := by
    rw [List.length_take]; omega
  refine ⟨s.gRTAlmRecord.toList[s.rtAlmIndex], htake.symm, by omega, ?_⟩
  rw [htake, List.take_succ_eq_append_getElem (by omega)]

/-- The opening of an alarm branch makes room for a record: at most nine
records stay under the index. -/
theorem slotted_rtShift {s : AlmState} (h : s.rtAlmIndex ≤ 10) :
    ∃ r, Slotted (rtShift s) ((s.gRTAlmRecord.toList.take s.rtAlmIndex).rtake 9) r := by
  have hlen : s.gRTAlmRecord.toList.length = 10 := Vector.length_toList
  have htake : (s.gRTAlmRecord.toList.take s.rtAlmIndex).length = s.rtAlmIndex := by
    rw [List.length_take]; omega
  unfold rtShift rtAlmItem
  by_cases hfull : s.rtAlmIndex ≥ 10
  · -- the records move down, and the last one stays where it is
    have hrec : (s.gRTAlmRecord.toList.take s.rtAlmIndex).rtake 9
        = (shiftDown s.gRTAlmRecord).toList.take 9 := by
      rw [List.take_of_length_le (by omega), List.rtake, hlen]
      apply List.ext_getElem
      · simp
      · intro i h₁ h₂
        have hi : i + 1 < 10 := by simp at h₁; omega
        simp [shiftDown, hi]
    rw [if_pos hfull, hrec]
    exact slotted_of_lt (s := { s with
      gRTAlmRecord := shiftDown s.gRTAlmRecord, rtAlmIndex := 10 - 1 }) (by dsimp only; omega)
  · have hrec : (s.gRTAlmRecord.toList.take s.rtAlmIndex).rtake 9
        = s.gRTAlmRecord.toList.take s.rtAlmIndex := by
      rw [List.rtake, htake, show s.rtAlmIndex - 9 = 0 by omega, List.drop_zero]
    rw [if_neg hfull, hrec]
    exact slotted_of_lt (by omega)

/-- After a record the index is behind it. -/
theorem Slotted.remember {s : AlmState} {l : List AlmRecord} {r : AlmRecord} (h : Slotted s l r)
    (cState : UInt8) (e : AlmEvent) :
    (s.remember cState e).rtAlmIndex = l.length + 1 ∧
      Watch.shown (s.remember cState e) = l.map AlmRecord.change ++ [r.change] := by
  have hroom := h.room
  have hindex : (s.remember cState e).rtAlmIndex = l.length + 1 := by
    simp only [AlmState.remember, h.index]
    omega
  refine ⟨hindex, ?_⟩
  rw [Watch.shown, hindex]
  change List.map AlmRecord.change (s.gRTAlmRecord.toList.take (l.length + 1)) = _
  rw [h.records, List.map_append, List.map_singleton]

theorem map_rtake {α β : Type} (f : α → β) (l : List α) (n : Nat) :
    (l.rtake n).map f = (l.map f).rtake n := by
  simp [List.rtake, List.map_drop]

/-- What a change does to the window: the last nine stay, and the change
joins them. -/
def Joins (s s' : AlmState) (c : Change) : Prop :=
  s'.rtAlmIndex ≤ 10 ∧ Watch.shown s' = (Watch.shown s).rtake 9 ++ [c]

/-- **An alarm that is raised** is the newest change of the window. -/
theorem raise_joins {s : AlmState} (h : s.rtAlmIndex ≤ 10) (e : AlmEvent) {t : UInt8}
    (ht : t ≠ eAlmTypeNormal) (value : Single) (thr : UInt16) (pt : UInt8 → UInt8) (now : Stamp) :
    Joins s (raise s e t value thr pt now) ⟨e.byte, t, value, thr, generateFlag, now⟩ := by
  -- whatever stood in the slot before, every field but the end is stored
  obtain ⟨r, hr⟩ := slotted_rtShift h
  have hset : Slotted ((rtShift s).setEntry e t) _ r := hr.congr rfl rfl
  have hfields := hset.setRTRecord fun r => { r with
    almType := t, almEvent := e.byte, fCurrentValue := value, usThresholdValue := thr }
  obtain ⟨hindex, hshown⟩ := ((hfields.setPTRecord fun r => { r with
    almType := pt r.almType, almEvent := e.byte, fCurrentValue := value,
    usThresholdValue := thr }).almGenerate now).remember t e
  have hroom := hr.room
  unfold Joins raise almComp
  rw [if_pos ht, hindex, hshown, map_rtake]
  exact ⟨by omega, rfl⟩

/-- **An alarm that has ended** is the newest change of the window. A
threshold the branch does not store is the one that stood there. -/
theorem settle_joins {s : AlmState} (h : s.rtAlmIndex ≤ 10) (e : AlmEvent) (value : Single)
    (thr : UInt8 → Option UInt16) (now : Stamp) :
    ∃ old, Joins s (settle s e value thr now)
      ⟨e.byte, s.last e, value, (thr (s.last e)).getD old, terminateFlag, now⟩ := by
  obtain ⟨r, hr⟩ := slotted_rtShift h
  have hset : Slotted ((rtShift s).setEntry e eAlmTypeNormal) _ r := hr.congr rfl rfl
  obtain ⟨hindex, hshown⟩ := ((hset.setRTRecord fun r => { r with
    almType := s.last e, almEvent := e.byte, fCurrentValue := value,
    usThresholdValue := (thr (s.last e)).getD r.usThresholdValue }).almTerminate
      e.byte now).remember eAlmTypeNormal e
  have hroom := hr.room
  refine ⟨r.usThresholdValue, ?_⟩
  unfold Joins settle almComp
  rw [if_neg (not_not.2 rfl), hindex, hshown, map_rtake]
  exact ⟨by omega, rfl⟩

/-! ## The change of an evaluation -/

/-- The alarm types a function gives. -/
def Kind.Gives : Kind → UInt8 → Prop
  | .voltFreq, t => t = eAlmTypeNormal ∨ t = eAlmTypeOver ∨ t = eAlmTypeUnder
  | .current, t => t = eAlmTypeNormal ∨ t = eAlmTypeOver ∨ t = eAlmTypeOverSec
  | .power, t => t = eAlmTypeNormal ∨ t = eAlmTypeOver
  | .io, t => t = eAlmTypeNormal ∨ t = eAlmTypeIOTrip

theorem Kind.gives_normal (k : Kind) : k.Gives eAlmTypeNormal := by
  cases k <;> exact .inl rfl

/-- A function judges its events to be of its own types. -/
theorem gives_of_judged {c : Call} {t : UInt8} (h : c.verdict = .judged t) : c.kind.Gives t := by
  cases c with
  | voltFreq value upperL lowerL e =>
    obtain ⟨-, rfl⟩ := valueVerdict_judged h
    unfold voltFreqType
    split
    · exact .inr (.inl rfl)
    · split
      · exact .inr (.inr rfl)
      · exact .inl rfl
  | current value upperL ultUpperL e =>
    obtain ⟨-, rfl⟩ := valueVerdict_judged h
    unfold currentType
    split
    · exact .inr (.inr rfl)
    · split
      · exact .inr (.inl rfl)
      · exact .inl rfl
  | power value upperL e =>
    obtain ⟨-, rfl⟩ := valueVerdict_judged h
    unfold powerType
    split
    · exact .inr rfl
    · exact .inl rfl
  | io state e =>
    rcases ioVerdict_judged h with ⟨-, rfl⟩ | ⟨-, rfl⟩
    · exact .inr rfl
    · exact .inl rfl

/-- The end of a voltage alarm has the threshold of its type. -/
theorem voltFreq_threshold {t : UInt8} {upperL lowerL : UInt16} (h : Kind.voltFreq.Gives t)
    (ht : t ≠ eAlmTypeNormal) :
    (if t = eAlmTypeOver then some upperL else if t = eAlmTypeUnder then some lowerL else none)
      = some (if t = eAlmTypeOver then upperL else lowerL) := by
  rcases h with h | rfl | rfl
  · exact absurd h ht
  · rfl
  · rfl

/-- And that of a current alarm. -/
theorem current_threshold {t : UInt8} {upperL ultUpperL : UInt16} (h : Kind.current.Gives t)
    (ht : t ≠ eAlmTypeNormal) :
    (if t = eAlmTypeOverSec then some ultUpperL else if t = eAlmTypeOver then some upperL else none)
      = some (if t = eAlmTypeOverSec then ultUpperL else upperL) := by
  rcases h with h | rfl | rfl
  · exact absurd h ht
  · rfl
  · rfl

/-- What an evaluation with another outcome than before comes to: the event
raised or settled with the value of the call and the threshold of the
type. -/
def Changes (s s' : AlmState) (c : Call) (t : UInt8) (now : Stamp) : Prop :=
  (t ≠ eAlmTypeNormal ∧ ∃ pt, s' = raise s c.event t c.value (c.limit t) pt now) ∨
  (t = eAlmTypeNormal ∧ ∃ thr, thr (s.last c.event) = some (c.limit (s.last c.event)) ∧
    s' = settle s c.event c.value thr now)

theorem eval_changes {s : AlmState} {c : Call} {t : UInt8} {now : Stamp}
    (h : c.verdict = .judged t) (hne : s.last c.event ≠ t) (hold : c.kind.Gives (s.last c.event)) :
    Changes s (s.eval c now) c t now := by
  cases c with
  | voltFreq value upperL lowerL e =>
    obtain ⟨hv, rfl⟩ := valueVerdict_judged h
    simp only [Call.event] at hne hold
    simp only [AlmState.eval, almTypeVoltFreq, hv, Bool.false_eq_true, if_false]
    unfold voltFreqType at hne ⊢
    split
    · next hu =>
      rw [if_pos hu] at hne
      rw [if_pos hne]
      exact .inl ⟨by decide, _, rfl⟩
    · next hu =>
      rw [if_neg hu] at hne
      split
      · next hl =>
        rw [if_pos hl] at hne
        rw [if_pos hne]
        exact .inl ⟨by decide, _, rfl⟩
      · next hl =>
        rw [if_neg hl] at hne
        rw [if_pos hne]
        -- the alarm ends with the threshold of its own type
        exact .inr ⟨rfl, _, voltFreq_threshold hold hne, rfl⟩
  | current value upperL ultUpperL e =>
    obtain ⟨hv, rfl⟩ := valueVerdict_judged h
    simp only [Call.event] at hne hold
    simp only [AlmState.eval, almTypeCurrent, hv, Bool.false_eq_true, if_false]
    unfold currentType at hne ⊢
    split
    · next hu =>
      rw [if_pos hu] at hne
      rw [if_pos hne]
      exact .inl ⟨by decide, _, rfl⟩
    · next hu =>
      rw [if_neg hu] at hne
      split
      · next hl =>
        rw [if_pos hl] at hne
        rw [if_pos hne]
        exact .inl ⟨by decide, _, rfl⟩
      · next hl =>
        rw [if_neg hl] at hne
        rw [if_pos hne]
        exact .inr ⟨rfl, _, current_threshold hold hne, rfl⟩
  | power value upperL e =>
    obtain ⟨hv, rfl⟩ := valueVerdict_judged h
    simp only [Call.event] at hne hold
    simp only [AlmState.eval, almTypePower, hv, Bool.false_eq_true, if_false]
    unfold powerType at hne ⊢
    split
    · next hu =>
      rw [if_pos hu] at hne
      rw [if_pos hne]
      exact .inl ⟨by decide, _, rfl⟩
    · next hu =>
      rw [if_neg hu] at hne
      rw [if_pos hne]
      exact .inr ⟨rfl, _, rfl, rfl⟩
  | io state e =>
    simp only [AlmState.eval, almTypeIO]
    rcases ioVerdict_judged h with ⟨rfl, rfl⟩ | ⟨rfl, rfl⟩
    · refine .inl ⟨by decide, fun _ => eAlmTypeIOTrip, ?_⟩
      exact if_pos hne
    · exact .inr ⟨rfl, fun _ => some eActiveOFF.toUInt16, rfl, if_pos hne⟩

/-- **An evaluation with another outcome than before** puts its change into
the window and remembers the new state, and leaves no array. -/
theorem Changes.joins {s s' : AlmState} {c : Call} {t : UInt8} {now : Stamp}
    (h : Changes s s' c t now) (hindex : s.rtAlmIndex ≤ 10) :
    Joins s s' (c.change (s.last c.event) t now) ∧
      s'.lAlmState = setSlot s.lAlmState c.event t ∧ s'.stray = s.stray := by
  rcases h with ⟨ht, pt, rfl⟩ | ⟨rfl, thr, hthr, rfl⟩
  · have hjoins := raise_joins hindex c.event ht c.value (c.limit t) pt now
    obtain ⟨r, v, i, -, -, -, hf⟩ := raise_frame s c.event ht c.value (c.limit t) pt now
    refine ⟨?_, by rw [hf], by rw [hf]⟩
    simpa only [Call.change, if_neg ht] using hjoins
  · obtain ⟨old, hjoins⟩ := settle_joins hindex c.event c.value thr now
    rw [hthr] at hjoins
    obtain ⟨r, v, i, hf⟩ := settle_frame s c.event c.value thr now
    refine ⟨?_, by rw [hf], by rw [hf]⟩
    simpa only [Call.change, if_pos, Option.getD_some] using hjoins

/-- A marker leaves the records, the index and the remembered states. -/
theorem mark_frame (c : Call) (s : AlmState) :
    (c.mark s).gRTAlmRecord = s.gRTAlmRecord ∧ (c.mark s).rtAlmIndex = s.rtAlmIndex ∧
      (c.mark s).lAlmState = s.lAlmState ∧
      ∀ a ∈ (c.mark s).stray, a ∈ s.stray ∨ ∃ i, a = .branchAlm i := by
  cases c with
  | voltFreq | current | power => exact ⟨rfl, rfl, rfl, fun a ha => .inl ha⟩
  | io state e =>
    refine ⟨rfl, rfl, rfl, fun a ha => ?_⟩
    simp only [Call.mark, AlmState.setBranchAlm] at ha
    split at ha
    · exact .inl ha
    · rcases List.mem_append.1 ha with ha | ha
      · exact .inl ha
      · exact .inr ⟨_, List.mem_singleton.1 ha⟩

/-- An evaluation keeps the index in range. -/
theorem eval_rtAlmIndex {s : AlmState} (h : s.rtAlmIndex ≤ 10) (c : Call) (now : Stamp) :
    (s.eval c now).rtAlmIndex ≤ 10 := by
  cases hv : c.verdict with
  | marked =>
    obtain ⟨-, hindex, -, -⟩ := mark_frame c s
    rwa [eval_marked hv, hindex]
  | ignored => rwa [eval_ignored hv]
  | judged t =>
    have hout : Outcome s (s.eval c now) c.event t now := eval_judged hv
    rcases hout with ⟨-, hs⟩ | ⟨-, ht, value, thr, pt, hs⟩ | ⟨-, -, value, thr, hs⟩
    · rwa [hs]
    · rw [hs]
      exact (raise_joins h c.event ht value thr pt now).1
    · obtain ⟨old, hjoins⟩ := settle_joins h c.event value thr now
      rw [hs]
      exact hjoins.1

/-! ## The marker on the last record -/

/-- The bytes of a record read back. -/
theorem readRecord_toBytes (r : AlmRecord) : readRecord (fun k => r.toBytes.getD k 0) 0 = r := by
  have hsame : ∀ i < 21, r.toBytes.getD (0 + i) 0
      = Mem.write (fun _ => 0) 0 r.toBytes (0 + i) := fun i hi => by
    rw [Mem.write_at (by rw [AlmRecord.length_toBytes]; exact hi), Nat.zero_add]
  rw [readRecord_congr hsame, readRecord_write]

/-- Two bytes make a word. -/
theorem exists_wordBytes (lo hi : UInt8) : ∃ w, wordBytes w = [lo, hi] := by
  refine ⟨UInt16.ofNat (lo.toNat + 256 * hi.toNat), ?_⟩
  have := lo.toNat_lt
  have := hi.toNat_lt
  have hlo : (lo.toNat + 256 * hi.toNat) % 65536 % 256 = lo.toNat := by omega
  have hhi : (lo.toNat + 256 * hi.toNat) % 65536 / 256 % 256 = hi.toNat := by omega
  simp only [wordBytes, encode, UInt16.toNat_ofNat', List.cons.injEq, and_true]
  constructor
  · apply UInt8.toNat.inj
    simp [hlo]
  · apply UInt8.toNat.inj
    simp [hhi]

theorem wordBytes_inj {w w' : UInt16} : wordBytes w = wordBytes w' ↔ w = w' := by
  have hd : ∀ v : UInt16, decode (wordBytes v) = v.toNat := fun v => decode_encode v.toNat_lt
  constructor
  · intro h
    apply UInt16.toNat.inj
    rw [← hd w, ← hd w', h]
  · rintro rfl
    rfl

/-- A byte stored into the threshold of a record. -/
theorem setByte_threshold (r : AlmRecord) {i : Nat} (hi : i = 17 ∨ i = 18) (b : UInt8) :
    ∃ t, r.setByte i b = { r with usThresholdValue := t } ∧
      (t = r.usThresholdValue ↔ r.toBytes.getD i 0 = b) := by
  obtain ⟨lo, hb, hw⟩ : ∃ lo hb, wordBytes r.usThresholdValue = [lo, hb] := ⟨_, _, rfl⟩
  -- the bytes after the store are those of the record with another threshold
  have hset : ∀ t, r.toBytes.set i b = AlmRecord.toBytes { r with usThresholdValue := t } →
      (wordBytes t = [lo, hb] ↔ r.toBytes.getD i 0 = b) →
      ∃ t, r.setByte i b = { r with usThresholdValue := t } ∧
        (t = r.usThresholdValue ↔ r.toBytes.getD i 0 = b) := by
    intro t hbytes hbyte
    refine ⟨t, ?_, ?_⟩
    · rw [AlmRecord.setByte, hbytes, readRecord_toBytes]
    · rw [← wordBytes_inj, hw, hbyte]
  rcases hi with rfl | rfl
  · obtain ⟨t, ht⟩ := exists_wordBytes b hb
    refine hset t ?_ ?_
    · simp [AlmRecord.toBytes, Stamp.toBytes, encode, hw, ht]
    · simp [AlmRecord.toBytes, Stamp.toBytes, encode, hw, ht, eq_comm]
  · obtain ⟨t, ht⟩ := exists_wordBytes lo b
    refine hset t ?_ ?_
    · simp [AlmRecord.toBytes, Stamp.toBytes, encode, hw, ht]
    · simp [AlmRecord.toBytes, Stamp.toBytes, encode, hw, ht, eq_comm]

/-- The markers that fall on the last record are those of the switch and
the arrester of busbar A, and fall on its threshold. -/
theorem overrun_of_made {c : Call} (hc : c.Made) {i : Nat} (h : c.overrun = some i) :
    c.verdict = .marked ∧ (i = 17 ∨ i = 18) := by
  cases c with
  | voltFreq | current | power => cases h
  | io state e =>
    cases e with
    | branch k => cases h
    | bus e =>
      simp only [Call.overrun] at h
      split at h
      · next hm =>
        obtain ⟨rfl, he⟩ := hm
        have hkind : (AlmEvent.bus e).kind = .io := hc.symm
        simp only [AlmEvent.kind] at hkind
        refine ⟨rfl, ?_⟩
        have hi : 21 + 20 + (e : Nat) - 32 = i := Option.some.inj h
        split at hkind
        · cases hkind
        · split at hkind
          · cases hkind
          · split at hkind
            · omega
            · cases hkind
      · cases h

/-! ## The invariant -/

namespace Watch

variable {W : Watch}

/-- The window is right, the log follows the states the component
remembers, and these are types of the events' own functions. -/
structure Sound (W : Watch) : Prop where
  right : W.Right
  seen : ∀ e, W.alm.last e = W.seen e
  gives : ∀ e : AlmEvent, e.kind.Gives (W.seen e)

theorem sound_init (fram : Mem) : (init fram).Sound := by
  have hstate : ∀ e, (AlmState.powerUp fram).last e = eAlmTypeNormal ∧
      (AlmState.powerUp fram).rtAlmIndex = 0 ∧ (AlmState.powerUp fram).stray = [] := by
    intro e
    unfold AlmState.powerUp almRelateInit
    split
    · exact ⟨by simp [AlmState.last, AlmState.reset, eAlmTypeNormal], rfl, rfl⟩
    · exact ⟨by simp [AlmState.last, AlmState.reset, eAlmTypeNormal], rfl, rfl⟩
  obtain ⟨-, hindex, hstray⟩ := hstate (.bus 0)
  refine ⟨⟨?_, ?_, ?_⟩, fun e => (hstate e).1, fun e => e.kind.gives_normal⟩
  · simp [init, hindex]
  · simp [init, hstray]
  · simp [init, shown, hindex, List.rtake]

theorem Sound.clear (h : W.Sound) : (W.step .clear).Sound where
  right := ⟨Nat.zero_le _, h.right.2.1, by simp [step, shown, almRecordClear, List.rtake]⟩
  seen := h.seen
  gives := h.gives

/-- The last nine of the last ten, and one more. -/
theorem rtake_append_one {α : Type} (l : List α) (a : α) :
    (l.rtake 10).rtake 9 ++ [a] = (l ++ [a]).rtake 10 := by
  rw [List.rtake_concat_succ]
  congr 1
  simp only [List.rtake, List.drop_drop, List.length_drop]
  congr 1
  omega

/-- A call that changes the state of its event. -/
theorem Sound.change (h : W.Sound) {c : Call} {t : UInt8} {now : Stamp}
    (hv : c.verdict = .judged t) (hc : c.Made) (hne : W.seen c.event ≠ t) :
    Sound ⟨W.alm.eval c now, Function.update W.seen c.event t,
      W.log ++ [c.change (W.seen c.event) t now]⟩ := by
  have hlast := h.seen c.event
  have hold : c.kind.Gives (W.alm.last c.event) := by
    rw [hlast, hc]
    exact h.gives c.event
  have hchanges : Changes W.alm (W.alm.eval c now) c t now := eval_changes hv (hlast ▸ hne) hold
  obtain ⟨⟨hindex, hshown⟩, hmem, hstray⟩ := hchanges.joins h.right.1
  refine ⟨⟨hindex, ?_, ?_⟩, ?_, ?_⟩
  · rw [hstray]
    exact h.right.2.1
  · rw [hshown, h.right.2.2, rtake_append_one, hlast]
  · intro e
    unfold AlmState.last
    dsimp only
    rw [hmem, getElem_setSlot, Function.update_apply, ← h.seen e]
    rfl
  · intro e
    dsimp only
    rw [Function.update_apply]
    split
    · next he =>
      rw [he, ← hc]
      exact gives_of_judged hv
    · exact h.gives e

/-- A call that leaves the records, the index and the remembered states. -/
theorem Sound.keep (h : W.Sound) {s' : AlmState} (hrec : s'.gRTAlmRecord = W.alm.gRTAlmRecord)
    (hindex : s'.rtAlmIndex = W.alm.rtAlmIndex) (hlast : s'.lAlmState = W.alm.lAlmState)
    (hstray : ∀ a ∈ s'.stray, a ∈ W.alm.stray ∨ ∃ i, a = .branchAlm i) :
    Sound { W with alm := s' } := by
  refine ⟨⟨by rw [hindex]; exact h.right.1, ?_, ?_⟩, ?_, h.gives⟩
  · intro a ha
    rcases hstray a ha with ha | ⟨i, rfl⟩
    · exact h.right.2.1 a ha
    · exact not_false
  · rw [shown, hrec, hindex]
    exact h.right.2.2
  · intro e
    unfold AlmState.last
    rw [hlast]
    exact h.seen e

/-- **An evaluation** whose marker stays off the records keeps the
invariant. -/
theorem Sound.eval (h : W.Sound) {c : Call} (hc : c.Made) (now : Stamp) :
    Sound { W.judge c now with alm := W.alm.eval c now } := by
  unfold judge
  cases hv : c.verdict with
  | marked =>
    obtain ⟨hrec, hindex, hlast, hstray⟩ := mark_frame c W.alm
    rw [eval_marked hv]
    exact h.keep hrec hindex hlast hstray
  | ignored =>
    rw [eval_ignored hv]
    exact h
  | judged t =>
    by_cases hsame : W.seen c.event = t
    · have hstay : W.alm.eval c now = W.alm := by
        rcases eval_judged hv with ⟨-, hs⟩ | ⟨hne, -⟩ | ⟨hne, -⟩
        · exact hs
        · exact absurd ((h.seen _).trans hsame) hne
        · exact absurd ((h.seen _).trans hsame) hne
      simp only [if_pos hsame, hstay]
      exact h
    · simp only [if_neg hsame]
      exact h.change hv hc hsame

/-- The shown changes, one by one. -/
theorem getElem?_shown (s : AlmState) (j : Nat) :
    (shown s)[j]? = if j < s.rtAlmIndex then (s.gRTAlmRecord[j]?).map AlmRecord.change
      else none := by
  rw [shown, List.getElem?_map, List.getElem?_take, Vector.getElem?_toList]
  split <;> rfl

/-- A byte stored into the threshold of the last record shows where the
window is full and another byte was there. -/
theorem shown_overrun {s : AlmState} {i : Nat} (hi : i = 17 ∨ i = 18) {r : AlmRecord}
    (hr : s.gRTAlmRecord[9]? = some r) :
    shown { s with
      gRTAlmRecord := s.gRTAlmRecord.mapIdx fun k r =>
        if k = 9 then r.setByte i notMonitored else r } = shown s ↔
      (9 < s.rtAlmIndex → r.toBytes.getD i 0 = notMonitored) := by
  obtain ⟨t, hset, hbyte⟩ := setByte_threshold r hi notMonitored
  rw [← hbyte]
  constructor
  · intro hsame hfull
    have h9 := congrArg (·[9]?) hsame
    simp only [getElem?_shown, if_pos hfull, Vector.getElem?_mapIdx, hr, Option.map_some,
      if_pos, hset, Option.some.injEq] at h9
    exact congrArg Change.threshold h9
  · intro hkeep
    apply List.ext_getElem?
    intro j
    simp only [getElem?_shown, Vector.getElem?_mapIdx, Option.map_map]
    split
    · next hj =>
      by_cases hj9 : j = 9
      · subst hj9
        rw [hr, Option.map_some, Option.map_some]
        simp only [Function.comp_apply, if_pos, hset, hkeep hj]
      · congr 1
        funext q
        simp [hj9]
    · rfl

/-- The last record is there. -/
theorem exists_last (s : AlmState) : ∃ r, s.gRTAlmRecord[9]? = some r :=
  ⟨_, Vector.getElem?_eq_getElem (by omega)⟩

/-- **One step**: the window is right after it exactly when the step meets
its condition. -/
theorem Sound.right_iff (h : W.Sound) (op : WatchOp) : (W.step op).Right ↔ W.StepOk op := by
  cases op with
  | clear => exact iff_of_true h.clear.right trivial
  | eval c now =>
    have heval := (h.eval c.2 now).right
    cases hov : c.1.overrun with
    | none =>
      refine iff_of_true ?_ ?_
      · simp only [step, AlmState.evalInPlace, hov]
        exact heval
      · intro i hi
        rw [hov] at hi
        cases hi
    | some i =>
      obtain ⟨hmark, hi⟩ := overrun_of_made c.2 hov
      obtain ⟨r, hr⟩ := exists_last W.alm
      obtain ⟨hrec, hindex, -, -⟩ := mark_frame c.1 W.alm
      have heval' : W.alm.eval c now = c.1.mark W.alm := eval_marked hmark
      rw [← heval'] at hrec hindex
      have hshown := shown_overrun (s := W.alm.eval c now) hi (hrec ▸ hr)
      have hle := h.right.1
      have hstep : (W.step (.eval c now)).alm = { W.alm.eval c now with
          gRTAlmRecord := (W.alm.eval c now).gRTAlmRecord.mapIdx fun k r =>
            if k = 9 then r.setByte i notMonitored else r } := by
        simp only [step, AlmState.evalInPlace, hov]
      -- the store is the only difference to the evaluation of the model
      constructor
      · rintro ⟨-, -, hnew⟩ j hj hfull q hq
        rw [hov, Option.some.injEq] at hj
        rw [hr, Option.some.injEq] at hq
        subst hj hq
        rw [hstep] at hnew
        exact hshown.1 (hnew.trans heval.2.2.symm) (by rw [hindex]; omega)
      · intro hok
        unfold Right
        rw [hstep]
        exact ⟨heval.1, heval.2.1,
          (hshown.2 fun hlt => hok i hov (by rw [hindex] at hlt; omega) r hr).trans heval.2.2⟩

/-- A step that leaves the window right keeps the invariant. -/
theorem Sound.step (h : W.Sound) {op : WatchOp} (hr : (W.step op).Right) : (W.step op).Sound := by
  cases op with
  | clear => exact h.clear
  | eval c now =>
    obtain ⟨-, hseen, hgives⟩ := h.eval c.2 now
    have hlast : ∀ e, (W.alm.evalInPlace c now).last e = (W.alm.eval c now).last e := by
      intro e
      unfold AlmState.evalInPlace
      split <;> rfl
    exact ⟨hr, fun e => (hlast e).trans (hseen e), hgives⟩

/-- **The window of real-time alarms**: in every run of evaluations and
clears from power-up the window is right after every step exactly when
every step meets its condition. -/
theorem window_kept_iff (fram : Mem) (ops : List WatchOp) :
    Meets Watch.step (fun W op => (W.step op).Right) (init fram) ops ↔
      Meets Watch.step StepOk (init fram) ops :=
  meets_congr ops (sound_init fram) (fun _ _ h hr => h.step hr) fun _ op h => h.right_iff op

/-- Ten branches trip, and the arrester of busbar A is not monitored. -/
def tenTrips : List WatchOp :=
  (List.finRange 10).map (fun k =>
    .eval ⟨.io eActiveOFF (.branch (k.castLE (by decide))), rfl⟩ default) ++
  [.eval ⟨.io 0x20 (.bus eAlmEventASPD), rfl⟩ default]

/-- The marker of the arrester lands on the threshold of the tenth
record. -/
theorem tenth_threshold_overwritten :
    ¬ Meets Watch.step (fun W op => (W.step op).Right) (init fun _ => 0) tenTrips := by
  decide +kernel

end Watch

end BusMonitor
