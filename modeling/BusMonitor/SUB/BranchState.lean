import BusMonitor.Lib.Assign
import BusMonitor.GUI.Home
/-!
# The branch states

`SUB_BranchState` of `app_SUBProto.c`. Four modules report 36 switches
each, in five bytes of `ucSUB_SWRec`. The routine goes through the bytes
half by half and leaves what each switch and its setting amount to.
-/


namespace BusMonitor

open Assign

/-! ## The routine -/

/-- `SUB_StateAna`: 2 and 3 for a branch not in use, closed and open, 0
and 1 for one in use, normal and faulty. -/
def subStateAna (recState setState : UInt8) : UInt8 :=
  if setState = 0x00 then
    if recState = 0x01 then 0x02 else 0x03
  else
    if recState = 0x01 then 0x00 else 0x01

/-- One call of `SUB_StateAna`: the byte and the bit of `ucSUB_SWRec` it
looks at, and the branch. -/
structure Analysis where
  byte : Nat
  bit : Nat
  branch : Nat
  deriving DecidableEq, Repr

/-- Four bits of a byte, from `shift` on, for the four branches of a row. -/
def nibble (byte shift row : Nat) : List Analysis :=
  (List.range 4).map fun b => ⟨byte, shift + b, row * 4 + b⟩

/-- The low half of a byte in an even round, the high half in an odd one. -/
def roundShift (i : Nat) : Nat := if i % 2 = 0 then 0 else 4

/-- A round of the loop in mode S. -/
def roundS (i : Nat) : List Analysis :=
  let shift := roundShift i
  nibble (i / 2) shift i ++ nibble ((i + 20) / 2) shift (i + 9) ++
    nibble ((i + 10) / 2) shift (i + 18) ++ nibble ((i + 30) / 2) shift (i + 27)

/-- A round of the loop in the other modes. -/
def roundOther (i : Nat) : List Analysis :=
  let shift := roundShift i
  nibble (i / 2) shift i ++ nibble ((i + 10) / 2) shift (i + 9) ++
    nibble ((i + 20) / 2) shift (i + 18) ++ nibble ((i + 30) / 2) shift (i + 27)

/-- The calls of `SUB_StateAna`, in their order. -/
def analyses (mode : UInt8) : List Analysis :=
  (List.range 9).flatMap fun i => if mode = busModeS then roundS i else roundOther i

/-- `for (i = first; i < stop; i++)`. -/
def countUp (first stop : Nat) : List Nat := List.range' first (stop - first)

/-- The branches blanked behind the configured ones. The counter has eight
bits. -/
def blanked (o : Optimset) : List Nat :=
  let n0 := o.ucBranchN.get 0
  let n1 := o.ucBranchN.get 1
  if o.setup.bBusMode = busModeS then
    countUp n0.toNat 72 ++ countUp ((72 + n1.toNat) % 256) maxBranchNum
  else countUp n0.toNat maxBranchNum

/-- What the receiver, the settings and the routine share. -/
structure SubUnit where
  ucSUBSWRec : Vector UInt8 20
  ucBranchSet : Vector UInt8 144
  ucBranchState : Vector UInt8 144
  ucPCProtoDataFlag : UInt8
  deriving DecidableEq

namespace SubUnit

variable (s : SubUnit)

/-- The state an analysis stores. -/
def analysed (a : Analysis) : UInt8 :=
  subStateAna (((s.ucSUBSWRec[a.byte]?.getD 0) >>> UInt8.ofNat a.bit) &&& 0x01)
    (s.ucBranchSet[a.branch]?.getD 0)

/-- The stores into `ucBranchState_a`. -/
def branchStores (o : Optimset) : List (Nat × UInt8) :=
  if o.setup.bQF = 1 then
    (analyses o.setup.bBusMode).map (fun a => (a.branch, s.analysed a)) ++
      (blanked o).map (·, 0x20)
  else (List.range maxBranchNum).map (·, 0x20)

/-- The comparison with `StateRecord`, a local array that nothing sets: it
holds what the stack held. -/
def compareStates (states record : Vector UInt8 144) (flag : UInt8) : UInt8 :=
  (List.finRange 144).foldl
    (fun flag i => if states.get i ≠ record.get i then flag ||| 0x10 else flag) flag

/-- `SUB_BranchState`, where the stack holds `record` at its entry. -/
def subBranchState (o : Optimset) (record : Vector UInt8 144) : SubUnit :=
  let states := assignAll (s.branchStores o) s.ucBranchState
  { s with
    ucBranchState := states
    ucPCProtoDataFlag :=
      if o.setup.bQF = 1 then compareStates states record s.ucPCProtoDataFlag
      else s.ucPCProtoDataFlag }

end SubUnit

/-! ## Where a branch is reported -/

/-- The module of each group of 36 branches. -/
def moduleOf (mode : UInt8) (group : Nat) : Nat :=
  if mode = busModeS then
    match group with
    | 0 => 0
    | 1 => 2
    | 2 => 1
    | _ => 3
  else group

/-- Bit `b` of module `m`. -/
def moduleBit (rec : Vector UInt8 20) (m b : Nat) : UInt8 :=
  ((rec[5 * m + b / 8]?.getD 0) >>> UInt8.ofNat (b % 8)) &&& 0x01

/-- Branch `k` is behind the configured branches of its busbar. -/
def BeyondCount (o : Optimset) (k : Nat) : Prop :=
  if o.setup.bBusMode = busModeS then
    if k < 72 then (o.ucBranchN.get 0).toNat ≤ k else (o.ucBranchN.get 1).toNat ≤ k - 72
  else (o.ucBranchN.get 0).toNat ≤ k

instance (o : Optimset) (k : Nat) : Decidable (BeyondCount o k) := by
  unfold BeyondCount
  infer_instance

/-- What the routine leaves for branch `k`, as its blanks go. -/
def storedState (o : Optimset) (rec : Vector UInt8 20) (set : Vector UInt8 144) (k : Fin 144) :
    UInt8 :=
  if o.setup.bQF = 1 ∧ (k : Nat) ∉ blanked o then
    subStateAna (moduleBit rec (moduleOf o.setup.bBusMode (k / 36)) (k % 36)) (set.get k)
  else 0x20

/-- What branch `k` is to be shown as. -/
def branchStateOf (o : Optimset) (rec : Vector UInt8 20) (set : Vector UInt8 144) (k : Fin 144) :
    UInt8 :=
  if o.setup.bQF = 1 ∧ ¬ BeyondCount o k then
    subStateAna (moduleBit rec (moduleOf o.setup.bBusMode (k / 36)) (k % 36)) (set.get k)
  else 0x20

/-! ## The rounds, branch by branch -/

theorem mem_nibble {byte shift row : Nat} {a : Analysis} :
    a ∈ nibble byte shift row ↔ ∃ b < 4, a = ⟨byte, shift + b, row * 4 + b⟩ := by
  simp only [nibble, List.mem_map, List.mem_range]
  constructor
  · rintro ⟨b, hb, rfl⟩
    exact ⟨b, hb, rfl⟩
  · rintro ⟨b, hb, rfl⟩
    exact ⟨b, hb, rfl⟩

/-- The rounds of both modes: round `i` takes half a byte of each module,
for the four groups of branches. -/
theorem mem_round {mode : UInt8} {i : Nat} {a : Analysis} :
    a ∈ (if mode = busModeS then roundS i else roundOther i) ↔
      ∃ g < 4, a ∈ nibble ((i + 10 * moduleOf mode g) / 2) (roundShift i) (i + 9 * g) := by
  -- the four groups in their order, each with its module
  have hgroups : ∀ P : Nat → Prop, (∃ g < 4, P g) ↔ ((P 0 ∨ P 1) ∨ P 2) ∨ P 3 := by
    intro P
    constructor
    · rintro ⟨g, hg, hP⟩
      obtain rfl | rfl | rfl | rfl : g = 0 ∨ g = 1 ∨ g = 2 ∨ g = 3 := by omega
      · exact .inl (.inl (.inl hP))
      · exact .inl (.inl (.inr hP))
      · exact .inl (.inr hP)
      · exact .inr hP
    · rintro (((h | h) | h) | h)
      · exact ⟨0, by omega, h⟩
      · exact ⟨1, by omega, h⟩
      · exact ⟨2, by omega, h⟩
      · exact ⟨3, by omega, h⟩
  rw [hgroups]
  by_cases hmode : mode = busModeS
  · simp [hmode, roundS, moduleOf, or_assoc]
  · simp [hmode, roundOther, moduleOf, or_assoc]

/-- Every call of `SUB_StateAna`: round `i`, group `g` and bit `b`. -/
theorem mem_analyses {mode : UInt8} {a : Analysis} :
    a ∈ analyses mode ↔ ∃ i < 9, ∃ g < 4, ∃ b < 4,
      a = ⟨(i + 10 * moduleOf mode g) / 2, roundShift i + b, (i + 9 * g) * 4 + b⟩ := by
  simp only [analyses, List.mem_flatMap, List.mem_range, mem_round, mem_nibble]

theorem moduleOf_lt {mode : UInt8} {g : Nat} (hg : g < 4) : moduleOf mode g < 4 := by
  unfold moduleOf
  split
  · split <;> omega
  · exact hg

/-- The call for a branch looks at the branch's own bit. -/
theorem analysis_of_branch {mode : UInt8} {a : Analysis} (h : a ∈ analyses mode) :
    a.byte = 5 * moduleOf mode (a.branch / 36) + a.branch % 36 / 8 ∧
      a.bit = a.branch % 36 % 8 := by
  obtain ⟨i, hi, g, hg, b, hb, rfl⟩ := mem_analyses.1 h
  have hgroup : ((i + 9 * g) * 4 + b) / 36 = g := by omega
  have hplace : ((i + 9 * g) * 4 + b) % 36 = i * 4 + b := by omega
  simp only [hgroup, hplace, roundShift]
  constructor
  · omega
  · split <;> omega

/-- Every branch has its call. -/
theorem exists_analysis (mode : UInt8) (k : Fin 144) :
    ∃ a ∈ analyses mode, a.branch = k := by
  have hk := k.isLt
  refine ⟨_, mem_analyses.2 ⟨k % 36 / 4, by omega, k / 36, by omega, k % 4, by omega, rfl⟩, ?_⟩
  dsimp only
  omega

/-- The calls stay within the three arrays. -/
theorem analyses_within {mode : UInt8} {a : Analysis} (h : a ∈ analyses mode) :
    a.byte < 20 ∧ a.bit < 8 ∧ a.branch < 144 := by
  obtain ⟨i, hi, g, hg, b, hb, rfl⟩ := mem_analyses.1 h
  have hm : moduleOf mode g < 4 := moduleOf_lt hg
  unfold roundShift
  dsimp only
  refine ⟨by omega, ?_, by omega⟩
  split <;> omega

/-! ## The blanks -/

@[simp] theorem mem_countUp {first stop i : Nat} :
    i ∈ countUp first stop ↔ first ≤ i ∧ i < stop := by
  simp only [countUp, List.mem_range'_1]
  omega

theorem blanked_lt {o : Optimset} {i : Nat} (h : i ∈ blanked o) : i < 144 := by
  unfold blanked at h
  unfold maxBranchNum at h
  split at h
  · rcases List.mem_append.1 h with h | h
    · have := (mem_countUp.1 h).2; omega
    · exact (mem_countUp.1 h).2
  · exact (mem_countUp.1 h).2

/-- The blanked branches are those behind the configured ones, where the
counter of busbar B does not come round. -/
theorem mem_blanked {o : Optimset} (h : CountsInRange o) (k : Fin 144) :
    (k : Nat) ∈ blanked o ↔ BeyondCount o k := by
  have hk := k.isLt
  unfold CountsInRange at h
  unfold blanked BeyondCount maxBranchNum
  split at h
  · next hmode =>
    simp only [if_pos hmode, List.mem_append, mem_countUp]
    split <;> omega
  · next hmode =>
    simp only [if_neg hmode, mem_countUp]
    omega

/-! ## Decoding -/

namespace SubUnit

variable {s : SubUnit} {o : Optimset}

/-- What the routine stores for a branch is the analysis of the branch's
own bit and setting. -/
theorem analysed_eq {a : Analysis} {k : Fin 144} (h : a ∈ analyses o.setup.bBusMode)
    (hk : a.branch = k) :
    s.analysed a = subStateAna
      (moduleBit s.ucSUBSWRec (moduleOf o.setup.bBusMode (k / 36)) (k % 36))
      (s.ucBranchSet.get k) := by
  obtain ⟨hbyte, hbit⟩ := analysis_of_branch h
  have hset : s.ucBranchSet[(k : Nat)]?.getD 0 = s.ucBranchSet.get k := by
    rw [Vector.getElem?_eq_getElem k.isLt]
    rfl
  rw [hk] at hbyte hbit
  rw [analysed, moduleBit, hbyte, hbit, hk, hset]

/-- **The states the routine leaves**, for every record, set table, mode,
counts and previous content. -/
theorem get_states (s : SubUnit) (o : Optimset) (k : Fin 144) (v : Vector UInt8 144) :
    (assignAll (s.branchStores o) v).get k = storedState o s.ucSUBSWRec s.ucBranchSet k := by
  have hk := k.isLt
  unfold branchStores storedState
  split
  · next hqf =>
    rw [assignAll_append]
    by_cases hb : (k : Nat) ∈ blanked o
    · rw [if_neg fun hc => hc.2 hb]
      refine get_assignAll_of_mem ⟨(k, 0x20), List.mem_map.2 ⟨k, hb, rfl⟩, rfl⟩ ?_
      intro a ha _
      obtain ⟨i, -, rfl⟩ := List.mem_map.1 ha
      rfl
    · rw [if_pos ⟨hqf, hb⟩, get_assignAll_of_ne]
      · obtain ⟨a, ha, hak⟩ := exists_analysis o.setup.bBusMode k
        refine get_assignAll_of_mem ⟨_, List.mem_map.2 ⟨a, ha, rfl⟩, hak⟩ ?_
        intro c hc hck
        obtain ⟨d, hd, rfl⟩ := List.mem_map.1 hc
        exact analysed_eq hd hck
      · intro a ha hak
        obtain ⟨i, hi, rfl⟩ := List.mem_map.1 ha
        exact hb (hak ▸ hi)
  · next hqf =>
    rw [if_neg fun hc => hqf hc.1]
    refine get_assignAll_of_mem ⟨(k, 0x20), ?_, rfl⟩ ?_
    · exact List.mem_map.2 ⟨k, List.mem_range.2 hk, rfl⟩
    · intro a ha _
      obtain ⟨i, -, rfl⟩ := List.mem_map.1 ha
      rfl

/-- With the counts in range the stored states are those the branches are
to be shown as. -/
theorem storedState_eq (h : o.setup.bQF = 1 → CountsInRange o) (k : Fin 144) :
    storedState o s.ucSUBSWRec s.ucBranchSet k
      = branchStateOf o s.ucSUBSWRec s.ucBranchSet k := by
  unfold storedState branchStateOf
  by_cases hqf : o.setup.bQF = 1
  · simp only [mem_blanked (h hqf) k]
  · simp only [hqf, false_and]

/-- The stores stay within the states. -/
theorem branchStores_lt {a : Nat × UInt8} (h : a ∈ s.branchStores o) : a.1 < 144 := by
  unfold branchStores at h
  split at h
  · rcases List.mem_append.1 h with h | h
    · obtain ⟨c, hc, rfl⟩ := List.mem_map.1 h
      exact (analyses_within hc).2.2
    · obtain ⟨i, hi, rfl⟩ := List.mem_map.1 h
      exact blanked_lt hi
  · obtain ⟨i, hi, rfl⟩ := List.mem_map.1 h
    exact List.mem_range.1 hi

/-- **A branch is decoded from its own bit.** The routine leaves each
branch at the analysis of its bit and setting, blank behind the configured
branches and while the branches are not monitored, and no index leaves its
array. The counts matter only while the branches are monitored. -/
theorem branch_states_decoded (o : Optimset) (s : SubUnit) (record : Vector UInt8 144)
    (h : o.setup.bQF = 1 → CountsInRange o) :
    (∀ k, (s.subBranchState o record).ucBranchState.get k =
        branchStateOf o s.ucSUBSWRec s.ucBranchSet k) ∧
      (∀ a ∈ analyses o.setup.bBusMode, a.byte < 20 ∧ a.bit < 8 ∧ a.branch < 144) ∧
      ∀ a ∈ s.branchStores o, a.1 < 144 :=
  ⟨fun k => (get_states s o k _).trans (storedState_eq h k), fun _ ha => analyses_within ha,
    fun _ ha => branchStores_lt ha⟩

/-- Every switch closed but the second of the second module, and every
branch in use. -/
def oneOpen : SubUnit where
  ucSUBSWRec := (Vector.replicate 20 0xFF).setIfInBounds 5 0xFD
  ucBranchSet := Vector.replicate 144 1
  ucBranchState := Vector.replicate 144 0
  ucPCProtoDataFlag := 0

/-- With the factory settings, where the branches are monitored and the
counts are full. -/
theorem branch_states_decoded_factory :
    optDefault.setup.bQF = 1 ∧
    (∀ k, (oneOpen.subBranchState optDefault oneOpen.ucBranchState).ucBranchState.get k =
        branchStateOf optDefault oneOpen.ucSUBSWRec oneOpen.ucBranchSet k) ∧
      (∀ a ∈ analyses optDefault.setup.bBusMode, a.byte < 20 ∧ a.bit < 8 ∧ a.branch < 144) ∧
      ∀ a ∈ oneOpen.branchStores optDefault, a.1 < 144 :=
  ⟨by decide, branch_states_decoded optDefault oneOpen oneOpen.ucBranchState fun _ => by decide⟩

/-- In mode S the second module is the first of busbar B. -/
example : (oneOpen.subBranchState optDefault oneOpen.ucBranchState).ucBranchState[73]? = some 1 ∧
    (oneOpen.subBranchState optDefault oneOpen.ucBranchState).ucBranchState[37]? = some 0 := by
  decide +kernel

end SubUnit

end BusMonitor
