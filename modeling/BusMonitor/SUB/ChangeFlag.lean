import BusMonitor.PC.Notice
/-!
# The branch change flag

Bit 4 of `ucPCProto_DataFlag` announces that `SUB_BranchState` has changed
a branch state. The routine compares the states with `StateRecord` and
writes each difference back to it, but `StateRecord` is a local array: what
a call compares with is whatever the stack holds, and without monitoring it
compares nothing. `changes_flagged` says what the stack has to hold.
-/


namespace BusMonitor

open Stepwise Assign

/-! ## Calls -/

/-- What a call finds: the settings, the bytes of the modules, the set
table, the data flag, and the stack at `StateRecord`. -/
structure BranchCall where
  optimset : Optimset
  ucSUBSWRec : Vector UInt8 20
  ucBranchSet : Vector UInt8 144
  ucPCProtoDataFlag : UInt8
  stateRecord : Vector UInt8 144

namespace SubUnit

variable {s : SubUnit} {c : BranchCall}

/-- The states of the call before, and what this one finds. -/
def found (s : SubUnit) (c : BranchCall) : SubUnit :=
  { s with
    ucSUBSWRec := c.ucSUBSWRec
    ucBranchSet := c.ucBranchSet
    ucPCProtoDataFlag := c.ucPCProtoDataFlag }

/-- A call of `SUB_BranchState`. -/
def called (s : SubUnit) (c : BranchCall) : SubUnit :=
  (s.found c).subBranchState c.optimset c.stateRecord

/-- The call sets bit 4 in the data flag, whatever the flag holds. -/
def SetsBit4 (s : SubUnit) (c : BranchCall) : Prop :=
  ∀ flag, (s.called { c with ucPCProtoDataFlag := flag }).ucPCProtoDataFlag = flag ||| 0x10

/-- **The change is flagged**: the call sets bit 4 exactly when it leaves
some branch in a state the call before did not leave it in. -/
def ChangeFlagged (s : SubUnit) (c : BranchCall) : Prop :=
  s.SetsBit4 c ↔ ∃ k, (s.called c).ucBranchState.get k ≠ s.ucBranchState.get k

/-- **The condition on a call**: with monitoring the stack holds the states
of the call before at `StateRecord`; without it these are blank already. -/
def RecordKept (s : SubUnit) (c : BranchCall) : Prop :=
  if c.optimset.setup.bQF = 1 then c.stateRecord = s.ucBranchState
  else ∀ k, s.ucBranchState.get k = 0x20

/-! ## One call -/

theorem get_called (k : Fin 144) :
    (s.called c).ucBranchState.get k =
      storedState c.optimset c.ucSUBSWRec c.ucBranchSet k :=
  get_states (s.found c) c.optimset k _

/-- The bit is set when the comparison is made and finds a difference. -/
theorem setsBit4_iff : s.SetsBit4 c ↔ c.optimset.setup.bQF = 1 ∧
    ∃ k, storedState c.optimset c.ucSUBSWRec c.ucBranchSet k ≠ c.stateRecord.get k := by
  have hflag : ∀ flag, (s.called { c with ucPCProtoDataFlag := flag }).ucPCProtoDataFlag =
      if c.optimset.setup.bQF = 1 ∧
          ∃ k, storedState c.optimset c.ucSUBSWRec c.ucBranchSet k ≠ c.stateRecord.get k then
        flag ||| 0x10 else flag :=
    fun flag => decode_flag (s.found { c with ucPCProtoDataFlag := flag }) c.optimset c.stateRecord
  constructor
  · intro h
    have hclear := h 0
    rw [hflag] at hclear
    by_contra hnone
    rw [if_neg hnone] at hclear
    cases hclear
  · intro hdiff flag
    rw [hflag]
    exact if_pos hdiff

/-- **A call flags its changes** exactly when it compares the states with
ones that tell as much as those of the call before; without monitoring it
has to have nothing to change. -/
theorem changeFlagged_iff : s.ChangeFlagged c ↔
    if c.optimset.setup.bQF = 1 then
      ((∃ k, storedState c.optimset c.ucSUBSWRec c.ucBranchSet k ≠ c.stateRecord.get k) ↔
        ∃ k, storedState c.optimset c.ucSUBSWRec c.ucBranchSet k ≠ s.ucBranchState.get k)
    else ∀ k, s.ucBranchState.get k = 0x20 := by
  simp only [ChangeFlagged, setsBit4_iff, get_called]
  by_cases hqf : c.optimset.setup.bQF = 1
  · simp only [hqf, true_and, if_true]
  · have hblank : ∀ k, storedState c.optimset c.ucSUBSWRec c.ucBranchSet k = 0x20 :=
      fun k => if_neg fun h => hqf h.1
    simp only [hqf, false_and, if_false, hblank, false_iff, not_exists, ne_eq, not_not]
    exact forall_congr' fun k => eq_comm

theorem RecordKept.changeFlagged (h : s.RecordKept c) : s.ChangeFlagged c := by
  unfold RecordKept at h
  rw [changeFlagged_iff]
  split at h
  · next hqf => rw [if_pos hqf, h]
  · next hqf =>
    rw [if_neg hqf]
    exact h

/-! ## Runs of calls -/

/-- **Changes are flagged**, in every run of calls from any states, as long
as the stack keeps the states of the call before. -/
theorem changes_flagged {calls : List BranchCall} (h : Meets called RecordKept s calls) :
    Meets called ChangeFlagged s calls :=
  h.imp (I := fun _ => True) trivial (fun _ _ _ _ => trivial) fun _ _ _ hkept => hkept.changeFlagged

/-- A call with the switches closed and the branches in use. -/
def closedCall (setup : UInt8) (stateRecord : Vector UInt8 144) : BranchCall where
  optimset := { optDefault with setup := ⟨setup⟩ }
  ucSUBSWRec := .replicate 20 0xFF
  ucBranchSet := .replicate 144 1
  ucPCProtoDataFlag := 0
  stateRecord := stateRecord

/-- The same with one switch open. -/
def openCall (stateRecord : Vector UInt8 144) : BranchCall :=
  { closedCall 0x31 stateRecord with ucSUBSWRec := oneOpen.ucSUBSWRec }

/-- A switch opens and closes again, each call over what the one before it
has left. -/
theorem changes_flagged_twice :
    let opened := oneOpen.called (openCall oneOpen.ucBranchState)
    Meets called ChangeFlagged oneOpen
      [openCall oneOpen.ucBranchState, closedCall 0x31 opened.ucBranchState] ∧
      opened.ucBranchState ≠ oneOpen.ucBranchState :=
  ⟨changes_flagged ⟨rfl, rfl, trivial⟩, by decide +kernel⟩

/-- Branches taken off monitoring change without notice; with monitoring a
call that repeats the one before it is taken for a change when the stack
holds other states. -/
theorem changes_missed :
    ¬ Meets called ChangeFlagged oneOpen [closedCall 0x21 oneOpen.ucBranchState] ∧
    ¬ Meets called ChangeFlagged oneOpen
      [closedCall 0x31 oneOpen.ucBranchState, closedCall 0x31 (.replicate 144 1)] := by
  refine ⟨fun h => ?_, fun h => ?_⟩
  · have hcall := changeFlagged_iff.1 h.1
    exact absurd (hcall 0) (by decide)
  · have hcall := changeFlagged_iff.1 h.2.1
    obtain ⟨k, hk⟩ := hcall.1 ⟨0, by decide +kernel⟩
    rw [get_called] at hk
    exact hk rfl

end SubUnit

end BusMonitor
