import BusMonitor.Alarm.Table
import BusMonitor.Lib.Run
import BusMonitor.PC.DataInfo
import BusMonitor.SUB.BranchState
/-!
# The change notices

`ucPCProto_DataFlag` tells the PC that there is something new: bit 0 for
the alarm message, bit 4 for the branch states. The evaluations and
`SUB_BranchState` set the bits, and the replies that carry the data clear
them, some of which carry only the busbars. `notices_kept_iff` says in
which runs a change stays announced until a reply has carried it.
-/


namespace BusMonitor

open Stepwise Mem

/-! ## The bits -/

/-- A bit of the data flag. -/
def flagBit (flag : UInt8) (i : Nat) : Bool := flag.toNat.testBit i

@[simp] theorem flagBit_or (f g : UInt8) (i : Nat) :
    flagBit (f ||| g) i = (flagBit f i || flagBit g i) := by
  simp [flagBit]

@[simp] theorem flagBit_and (f g : UInt8) (i : Nat) :
    flagBit (f &&& g) i = (flagBit f i && flagBit g i) := by
  simp [flagBit]

/-! ## Runs -/

/-- The device as the notices go: the variables of the replies, the alarm
component, which holds the alarm message and the data flag, the modules'
side with the branch states, and whether a branch entry or a branch state
has changed since a reply carried it. -/
structure NoticeRun where
  panel : Panel
  alm : AlmState
  sub : SubUnit
  almChanged : Bool
  stateChanged : Bool

/-- What happens, in any order: an event is evaluated, the modules' bytes
are decoded over some content of the stack, the PC sends a request, or the
other variables of the replies change. -/
inductive NoticeOp where
  | evaluate (c : Call) (now : Stamp)
  | decode (rec : Vector UInt8 20) (set record : Vector UInt8 144)
  | query (cid2 : UInt8) (pRxData : Int → UInt8) (stack : UInt16)
  | update (p : Panel)

namespace Request

/-- The reply carries `BranchAlm`. -/
def CarriesBranchAlm (r : Request) : Prop := r = .alarm 0xFF ∨ r = .alarm 0x02

/-- The reply carries the branch states. -/
def CarriesStates (r : Request) : Prop := r = .io 0xFF ∨ r = .io 0x02

instance : DecidablePred CarriesBranchAlm := fun _ => inferInstanceAs (Decidable (_ ∨ _))

instance : DecidablePred CarriesStates := fun _ => inferInstanceAs (Decidable (_ ∨ _))

/-- Where the data flag stands in the replies that have one. -/
def flagPlace : Request → Option Nat
  | analog _ | io _ | alarm _ => some 0
  | ptAlarm _ | ptEnergy _ => some 1
  | _ => none

end Request

/-- The data flag a reply carries: the byte at its place, if the reply has
data. -/
def DataInfo.sentFlag (d : DataInfo) (place : Nat) : Option UInt8 :=
  if d.allocated = none then none
  else (d.stores.find? (·.addr = place)).bind (·.bytes.head?)

namespace NoticeRun

/-- The variables as a builder reads them. -/
def view (R : NoticeRun) : Panel :=
  { R.panel with
    ucPCProtoDataFlag := R.alm.ucPCProtoDataFlag
    gAlmMessage := R.alm.gAlmMessage
    gPTAlmRelate := R.alm.gPTAlmRelate
    ucBranchState := R.sub.ucBranchState
    store := { R.panel.store with fram := R.alm.fram } }

/-- The modules' side with new bytes, a set table and the data flag. -/
def fed (R : NoticeRun) (rec : Vector UInt8 20) (set : Vector UInt8 144) : SubUnit :=
  { R.sub with
    ucSUBSWRec := rec
    ucBranchSet := set
    ucPCProtoDataFlag := R.alm.ucPCProtoDataFlag }

def step (R : NoticeRun) : NoticeOp → NoticeRun
  | .evaluate c now =>
    let s := R.alm.eval c now
    { R with
      alm := s
      almChanged := R.almChanged || decide (∃ k, s.entry (.branch k) ≠ R.alm.entry (.branch k)) }
  | .decode rec set record =>
    let s := (R.fed rec set).subBranchState R.panel.optimset record
    { R with
      sub := s
      alm := { R.alm with ucPCProtoDataFlag := s.ucPCProtoDataFlag }
      stateChanged := R.stateChanged ||
        decide (∃ k, s.ucBranchState.get k ≠ R.sub.ucBranchState.get k) }
  | .query cid2 pRxData stack =>
    let r := (nTxDataInfo cid2).eval pRxData
    let p := (nTxReply cid2 pRxData R.view stack).1
    { R with
      panel := p
      alm := { R.alm with ucPCProtoDataFlag := p.ucPCProtoDataFlag }
      almChanged := R.almChanged && !decide r.CarriesBranchAlm
      stateChanged := R.stateChanged && !decide r.CarriesStates }
  | .update p => { R with panel := p }

/-- Nothing has changed yet. -/
def init (panel : Panel) (alm : AlmState) (sub : SubUnit) : NoticeRun :=
  ⟨panel, alm, sub, false, false⟩

/-- **No change goes unnoticed**: whatever the PC asks next, a reply with a
data flag has bit 0 set if a branch entry has changed since `BranchAlm` was
carried, and bit 4 if a branch state has changed since the states were. -/
def Right (R : NoticeRun) : Prop :=
  ∀ cid2 pRxData stack place flag, ((nTxDataInfo cid2).eval pRxData).flagPlace = some place →
    (nTxReply cid2 pRxData R.view stack).2.sentFlag place = some flag →
    (R.almChanged = true → flagBit flag 0 = true) ∧
      (R.stateChanged = true → flagBit flag 4 = true)

/-- **The condition on a step**. A branch entry takes the marker only when
it has it already or bit 0 is set; a decoding that changes a state finds
bit 4 set, or compares the new states with other ones; and a query for the
busbars alone comes when no branch has changed. -/
def StepOk (R : NoticeRun) : NoticeOp → Prop
  | .evaluate c _ => ∀ k, c = .io notMonitored (.branch k) →
    R.alm.entry (.branch k) = notMonitored ∨ flagBit R.alm.ucPCProtoDataFlag 0 = true
  | .decode rec set record =>
    let o := R.panel.optimset
    (∃ k, storedState o rec set k ≠ R.sub.ucBranchState.get k) →
    flagBit R.alm.ucPCProtoDataFlag 4 = true ∨
      (o.setup.bQF = 1 ∧ ∃ k, storedState o rec set k ≠ record.get k)
  | .query cid2 pRxData _ =>
    let r := (nTxDataInfo cid2).eval pRxData
    (r = .alarm 0x01 → R.almChanged = false) ∧ (r = .io 0x01 → R.stateChanged = false)
  | .update _ => True

/-! ## What the replies carry -/

/-- The notices stand in the data flag. -/
def Noticed (R : NoticeRun) : Prop :=
  (R.almChanged = true → flagBit R.alm.ucPCProtoDataFlag 0 = true) ∧
    (R.stateChanged = true → flagBit R.alm.ucPCProtoDataFlag 4 = true)

end NoticeRun

/-- A part of a record is stored from byte 2 on. -/
theorem addr_of_mem_partStores {r : AlmRecord} {t : Stamp} {w : Store}
    (h : w ∈ Panel.partStores r t) : w.addr ≠ 1 := by
  simp only [Panel.partStores, List.mem_cons, List.not_mem_nil, or_false] at h
  rcases h with rfl | rfl | rfl <;> simp

theorem addr_of_mem_resend {p : Panel} {q : PTAlmStatics} {w : Store} (h : w ∈ (p.resend q).2) :
    w.addr ≠ 1 := by
  unfold Panel.resend at h
  split at h
  · rw [List.mem_singleton.1 h]
    decide
  · exact addr_of_mem_partStores h

theorem addr_of_mem_sendNext {p : Panel} {q : PTAlmStatics} {w : Store}
    (h : w ∈ (p.sendNext q).2) : w.addr ≠ 1 := by
  unfold Panel.sendNext at h
  split at h
  · exact addr_of_mem_partStores h
  · exact addr_of_mem_partStores h

theorem seekMonth_flag (p : Panel) (command : UInt8) :
    (p.seekMonth command).ucPCProtoDataFlag = p.ucPCProtoDataFlag := by
  unfold Panel.seekMonth
  split
  · rfl
  · split <;> rfl

/-- The byte at `place` is the data flag, if there is data. -/
def Flagged (p : Panel) (place : Nat) (d : DataInfo) : Prop :=
  ∀ flag, d.sentFlag place = some flag → flag = p.ucPCProtoDataFlag

theorem flagged_void (p : Panel) (place : Nat) (ws : List Store) : Flagged p place (.void ws) :=
  nofun

/-- The flag in front of the other stores. -/
theorem flagged_cons (p : Panel) (n : Nat) (ws : List Store) :
    Flagged p 0 (.filled n (p.flagStore :: ws)) :=
  fun _ h => (Option.some.inj h).symm

/-- The flag behind stores that leave its place alone. -/
theorem flagged_append {p : Panel} {n place : Nat} {ws ws' : List Store}
    (h : ∀ w ∈ ws, w.addr ≠ place) (h' : Flagged p place (.filled n ws')) :
    Flagged p place (.filled n (ws ++ ws')) := by
  have hnone : ws.find? (·.addr = place) = none :=
    List.find?_eq_none.2 fun w hw => by simpa using h w hw
  have hskip : (DataInfo.filled n (ws ++ ws')).sentFlag place =
      (DataInfo.filled n ws').sentFlag place := by
    simp only [DataInfo.sentFlag, DataInfo.filled, List.find?_append, hnone, Option.none_or]
    rfl
  intro flag hsent
  rw [hskip] at hsent
  exact h' flag hsent

theorem flagged_tailStores (p : Panel) (n : Nat) (q : PTAlmStatics) :
    Flagged p 1 (.filled n (p.tailStores q)) :=
  fun _ h => (Option.some.inj h).symm

theorem flagged_energyStores (p : Panel) (command : UInt8) (n : Nat) :
    Flagged p 1 (.filled n (p.seekMonth command).energyStores) := by
  have hflag : (p.seekMonth command).ucPCProtoDataFlag = p.ucPCProtoDataFlag :=
    seekMonth_flag p command
  intro flag hsent
  rw [← hflag]
  exact (Option.some.inj hsent).symm

/-- **A reply carries the data flag as it stands before the reply.** -/
theorem flagged_build {r : Request} {p : Panel} {stack : UInt16} {place : Nat}
    (hplace : r.flagPlace = some place) : Flagged p place (r.build p stack).2 := by
  cases r with
  | analog group =>
    cases hplace
    simp only [Request.build, Panel.nAnologDataInfo]
    split
    · exact flagged_cons p _ _
    · split
      · exact flagged_cons p _ _
      · exact flagged_void p _ _
  | io group =>
    cases hplace
    simp only [Request.build, Panel.nIODataInfo]
    split
    · exact flagged_cons p _ _
    · split
      · exact flagged_cons p _ _
      · split
        · exact flagged_cons p _ _
        · exact flagged_void p _ _
  | alarm group =>
    cases hplace
    simp only [Request.build, Panel.nRTAlmDataInfo]
    split
    · exact flagged_cons p _ _
    · split
      · exact flagged_cons p _ _
      · split
        · exact flagged_cons p _ _
        · exact flagged_void p _ _
  | ptAlarm command =>
    cases hplace
    simp only [Request.build, Panel.nPTAlarmDataInfo]
    split
    · exact flagged_append (fun _ => addr_of_mem_resend) (flagged_tailStores p _ _)
    · split
      · exact flagged_append (fun _ => addr_of_mem_sendNext) (flagged_tailStores p _ _)
      · split
        · exact flagged_append (fun _ => addr_of_mem_resend) (flagged_tailStores p _ _)
        · exact flagged_void p _ _
  | ptEnergy command =>
    cases hplace
    simp only [Request.build, Panel.nPTEnergyDataInfo]
    split
    · exact flagged_energyStores p _ _
    · exact flagged_void p _ _
  | time | optimset | device | brands | header | unknown => cases hplace

/-- The bits a reply clears. -/
def Request.mask : Request → UInt8
  | .io group => if group = 0xFF ∨ group = 0x01 ∨ group = 0x02 then 0xEF else 0xFF
  | .alarm group => if group = 0xFF ∨ group = 0x01 ∨ group = 0x02 then 0xFE else 0xFF
  | _ => 0xFF

/-- The groups with the branches, and the one without. -/
theorem group_cases (group : UInt8) :
    (group = 0xFF ∨ group = 0x01 ∨ group = 0x02) ↔
      (group = 0xFF ∨ group = 0x02) ∨ group = 0x01 := by
  rw [or_comm (a := group = 0x01), or_assoc]

/-- The replies that clear bit 0 carry `BranchAlm`, or the busbars alone. -/
theorem mask_alarm (r : Request) :
    flagBit r.mask 0 = false ↔ r.CarriesBranchAlm ∨ r = .alarm 0x01 := by
  have hall : ¬ flagBit 0xFF 0 = false := by decide
  cases r with
  | alarm group =>
    simp only [Request.mask, Request.CarriesBranchAlm, Request.alarm.injEq, group_cases]
    split
    · next hg => exact iff_of_true rfl hg
    · next hg => exact iff_of_false hall hg
  | io group =>
    refine iff_of_false ?_ (by simp [Request.CarriesBranchAlm])
    unfold Request.mask
    dsimp only
    split <;> decide
  | _ => exact iff_of_false hall (by simp [Request.CarriesBranchAlm])

/-- The replies that clear bit 4 carry the states, or the busbars alone. -/
theorem mask_io (r : Request) :
    flagBit r.mask 4 = false ↔ r.CarriesStates ∨ r = .io 0x01 := by
  have hall : ¬ flagBit 0xFF 4 = false := by decide
  cases r with
  | io group =>
    simp only [Request.mask, Request.CarriesStates, Request.io.injEq, group_cases]
    split
    · next hg => exact iff_of_true rfl hg
    · next hg => exact iff_of_false hall hg
  | alarm group =>
    refine iff_of_false ?_ (by simp [Request.CarriesStates])
    unfold Request.mask
    dsimp only
    split <;> decide
  | _ => exact iff_of_false hall (by simp [Request.CarriesStates])

/-- The panel a builder leaves when it leaves the same one for the three
groups. -/
theorem fst_groups {α β : Type} (group : UInt8) (a a' : α) (b₁ b₂ b₃ b₄ : β) :
    (if group = 0xFF then (a, b₁) else if group = 0x01 then (a, b₂)
      else if group = 0x02 then (a, b₃) else (a', b₄)).1 =
      if group = 0xFF ∨ group = 0x01 ∨ group = 0x02 then a else a' := by
  by_cases hFF : group = 0xFF
  · rw [if_pos hFF, if_pos (.inl hFF)]
  · by_cases h1 : group = 0x01
    · rw [if_neg hFF, if_pos h1, if_pos (.inr (.inl h1))]
    · by_cases h2 : group = 0x02
      · rw [if_neg hFF, if_neg h1, if_pos h2, if_pos (.inr (.inr h2))]
      · rw [if_neg hFF, if_neg h1, if_neg h2, if_neg]
        rintro (h | h | h)
        · exact hFF h
        · exact h1 h
        · exact h2 h

/-- **What a reply does to the data flag.** -/
theorem build_flag (r : Request) (p : Panel) (stack : UInt16) (i : Nat) (hi : i < 8) :
    flagBit (r.build p stack).1.ucPCProtoDataFlag i
      = (flagBit p.ucPCProtoDataFlag i && flagBit r.mask i) := by
  have hall : flagBit 0xFF i = true := by
    obtain rfl | rfl | rfl | rfl | rfl | rfl | rfl | rfl : i = 0 ∨ i = 1 ∨ i = 2 ∨ i = 3 ∨ i = 4 ∨
        i = 5 ∨ i = 6 ∨ i = 7 := by omega
    all_goals rfl
  -- the three groups are masked alike, any other command clears nothing
  have masked {group mask : UInt8} {q : Panel}
      (hq : q = if group = 0xFF ∨ group = 0x01 ∨ group = 0x02 then p.maskFlag mask else p) :
      flagBit q.ucPCProtoDataFlag i = (flagBit p.ucPCProtoDataFlag i &&
        flagBit (if group = 0xFF ∨ group = 0x01 ∨ group = 0x02 then mask else 0xFF) i) := by
    rw [hq]
    split
    · exact flagBit_and ..
    · rw [hall, Bool.and_true]
  cases r with
  | io group =>
    have hpanel : (p.nIODataInfo group).1 = _ := fst_groups group (p.maskFlag 0xEF) ..
    exact masked hpanel
  | alarm group =>
    have hpanel : (p.nRTAlmDataInfo group).1 = _ := fst_groups group (p.maskFlag 0xFE) ..
    exact masked hpanel
  | ptAlarm command =>
    simp only [Request.build, Panel.nPTAlarmDataInfo, Request.mask, hall, Bool.and_true]
    split
    · rfl
    · split
      · rfl
      · split <;> rfl
  | ptEnergy command =>
    simp only [Request.build, Panel.nPTEnergyDataInfo, Request.mask, hall, Bool.and_true]
    split
    · rw [seekMonth_flag]
    · rw [seekMonth_flag]
  | analog | time | optimset | device | brands | header | unknown =>
    simp only [Request.build, Request.mask, hall, Bool.and_true]

namespace NoticeRun

variable {R : NoticeRun}

/-- The replies show the data flag, and the reply with the measurements is
always to be had. -/
theorem right_iff_noticed : R.Right ↔ R.Noticed := by
  constructor
  · intro h
    exact h ePutAnalog (fun _ => 0) 0 0 R.alm.ucPCProtoDataFlag rfl rfl
  · rintro ⟨halm, hstate⟩ cid2 pRxData stack place flag hplace hsent
    have hflag : flag = R.alm.ucPCProtoDataFlag := flagged_build hplace flag hsent
    rw [hflag]
    exact ⟨halm, hstate⟩

end NoticeRun

/-! ## The evaluations -/

/-- A marker that reaches the entry of a branch is one for that branch. -/
theorem eq_io_of_markByte {c : Call} (hv : c.verdict = .marked) {k : Fin 144}
    (h : c.markByte = (AlmEvent.branch k).slot) : c = .io notMonitored (.branch k) := by
  have hslot : ((AlmEvent.branch k).slot : Nat) = 20 + k := rfl
  rw [hslot] at h
  cases c with
  | voltFreq _ _ _ e | current _ _ _ e | power _ _ e =>
    have := e.isLt
    simp only [Call.markByte, Call.event, AlmEvent.slot] at h
    omega
  | io state e =>
    obtain rfl : state = notMonitored := ioVerdict_marked hv
    cases e with
    | bus e =>
      have := code_bus_lt e
      simp only [Call.markByte] at h
      omega
    | branch k' =>
      rw [Call.markByte, code_branch] at h
      rw [Fin.ext (by omega : (k' : Nat) = k)]

/-- **What an evaluation does to the notices**: it changes nothing, or it
sets bit 0, or it writes the marker of a branch. -/
theorem eval_notice (s : AlmState) (c : Call) (now : Stamp) :
    ((∀ k, (s.eval c now).entry (.branch k) = s.entry (.branch k)) ∧
      (s.eval c now).ucPCProtoDataFlag = s.ucPCProtoDataFlag ∧
      ∀ k, c ≠ .io notMonitored (.branch k)) ∨
    ((s.eval c now).ucPCProtoDataFlag = s.ucPCProtoDataFlag ||| 1 ∧
      ∀ k, c ≠ .io notMonitored (.branch k)) ∨
    ∃ k, c = .io notMonitored (.branch k) ∧
      (s.eval c now).ucPCProtoDataFlag = s.ucPCProtoDataFlag ∧
      ∀ k', (s.eval c now).entry (.branch k')
        = if k' = k then notMonitored else s.entry (.branch k') := by
  cases hv : c.verdict with
  | ignored =>
    refine .inl ⟨fun k => by rw [eval_ignored hv], by rw [eval_ignored hv], ?_⟩
    rintro k rfl
    cases hv
  | judged t =>
    have hne : ∀ k, c ≠ .io notMonitored (.branch k) := by
      rintro k rfl
      cases hv
    have hout : Outcome s (s.eval c now) c.event t now := eval_judged hv
    rcases hout with ⟨-, hs⟩ | ⟨-, ht, value, thr, pt, hs⟩ | ⟨-, rfl, value, thr, hs⟩
    · exact .inl ⟨fun k => by rw [hs], by rw [hs], hne⟩
    · obtain ⟨r, v, i, -, -, -, hf⟩ := raise_frame s c.event ht value thr pt now
      exact .inr (.inl ⟨by rw [hs, hf], hne⟩)
    · obtain ⟨r, v, i, hf⟩ := settle_frame s c.event value thr now
      exact .inr (.inl ⟨by rw [hs, hf], hne⟩)
  | marked =>
    have hentry := mark_entry c s
    rw [eval_marked hv, mark_flag]
    by_cases hk : ∃ k, c = .io notMonitored (.branch k)
    · obtain ⟨k, rfl⟩ := hk
      refine .inr (.inr ⟨k, rfl, rfl, fun k' => ?_⟩)
      rw [hentry]
      refine if_congr ?_ rfl rfl
      rw [Call.markByte, code_branch]
      simp only [AlmEvent.slot]
      constructor
      · intro h
        exact Fin.ext (by omega)
      · rintro rfl
        omega
    · refine .inl ⟨fun k => ?_, rfl, fun k hc => hk ⟨k, hc⟩⟩
      rw [hentry, if_neg fun h => hk ⟨k, eq_io_of_markByte hv h⟩]

/-! ## The decoding -/

/-- The comparison sets the bit when a state differs. -/
theorem compareStates_eq (states record : Vector UInt8 144) (flag : UInt8) :
    SubUnit.compareStates states record flag
      = if ∃ k, states.get k ≠ record.get k then flag ||| 0x10 else flag := by
  have hfold : ∀ (l : List (Fin 144)) (flag : UInt8),
      l.foldl (fun flag i => if states.get i ≠ record.get i then flag ||| 0x10 else flag) flag
        = if ∃ k ∈ l, states.get k ≠ record.get k then flag ||| 0x10 else flag := by
    intro l
    induction l with
    | nil =>
      intro flag
      simp
    | cons i l ih =>
      intro flag
      rw [List.foldl_cons, ih]
      by_cases hi : states.get i ≠ record.get i
      · have hex : ∃ k ∈ i :: l, states.get k ≠ record.get k := ⟨i, .head l, hi⟩
        rw [if_pos hi, if_pos hex, UInt8.or_assoc]
        exact ite_self _
      · rw [if_neg hi]
        refine if_congr ?_ rfl rfl
        simp [hi]
  rw [SubUnit.compareStates, hfold]
  simp

/-- **What a decoding does to the notices.** -/
theorem decode_flag (s : SubUnit) (o : Optimset) (record : Vector UInt8 144) :
    (s.subBranchState o record).ucPCProtoDataFlag
      = if o.setup.bQF = 1 ∧
          ∃ k, storedState o s.ucSUBSWRec s.ucBranchSet k ≠ record.get k then
          s.ucPCProtoDataFlag ||| 0x10 else s.ucPCProtoDataFlag := by
  unfold SubUnit.subBranchState
  dsimp only
  by_cases hqf : o.setup.bQF = 1
  · rw [if_pos hqf, compareStates_eq]
    simp only [SubUnit.get_states, hqf, true_and]
  · rw [if_neg hqf, if_neg fun h => hqf h.1]

/-! ## The steps -/

namespace NoticeRun

variable {R : NoticeRun}

/-- An evaluation changes the entries it stores anew. -/
theorem almChanged_evaluate {c : Call} {now : Stamp} :
    (R.step (.evaluate c now)).almChanged = true ↔ R.almChanged = true ∨
      ∃ k, (R.alm.eval c now).entry (.branch k) ≠ R.alm.entry (.branch k) := by
  simp only [step, Bool.or_eq_true, decide_eq_true_eq]

theorem Noticed.evaluate_iff (h : R.Noticed) (c : Call) (now : Stamp) :
    (R.step (.evaluate c now)).Noticed ↔ R.StepOk (.evaluate c now) := by
  obtain ⟨halm, hstate⟩ := h
  simp only [Noticed, almChanged_evaluate]
  simp only [step, StepOk]
  rcases eval_notice R.alm c now with ⟨hkeep, hflag, hne⟩ | ⟨hflag, hne⟩ | ⟨k, rfl, hflag, hentry⟩
  · -- nothing changes
    refine iff_of_true ⟨?_, by rw [hflag]; exact hstate⟩ fun k hc => absurd hc (hne k)
    rintro (hold | ⟨k, hk⟩)
    · rw [hflag]
      exact halm hold
    · exact absurd (hkeep k) hk
  · -- the evaluation announces the change
    refine iff_of_true ⟨fun _ => ?_, fun hold => ?_⟩ fun k hc => absurd hc (hne k)
    · rw [hflag, flagBit_or]
      exact Bool.or_eq_true_iff.2 (.inr rfl)
    · rw [hflag, flagBit_or, hstate hold, Bool.true_or]
  · -- a branch takes the marker, and bit 0 is as before
    rw [hflag]
    constructor
    · rintro ⟨hnew, -⟩ k' hc
      obtain rfl : k = k' := by simpa using hc
      by_cases hmark : R.alm.entry (.branch k) = notMonitored
      · exact .inl hmark
      · refine .inr (hnew (.inr ⟨k, ?_⟩))
        rw [hentry, if_pos rfl]
        exact Ne.symm hmark
    · intro hok
      refine ⟨?_, hstate⟩
      rintro (hold | ⟨k', hk'⟩)
      · exact halm hold
      · rw [hentry] at hk'
        split at hk'
        · next hkk =>
          subst hkk
          exact (hok k' rfl).resolve_left (Ne.symm hk')
        · exact absurd rfl hk'

/-- A decoding changes the states it stores anew. -/
theorem stateChanged_decode (rec : Vector UInt8 20) (set record : Vector UInt8 144) :
    (R.step (.decode rec set record)).stateChanged = true ↔
      R.stateChanged = true ∨
        ∃ k, storedState R.panel.optimset rec set k ≠ R.sub.ucBranchState.get k := by
  have hget : ∀ k, ((R.fed rec set).subBranchState R.panel.optimset record).ucBranchState.get k
      = storedState R.panel.optimset rec set k :=
    fun k => SubUnit.get_states (R.fed rec set) R.panel.optimset k _
  simp only [step, Bool.or_eq_true, decide_eq_true_eq, hget]

theorem Noticed.decode_iff (h : R.Noticed) (rec : Vector UInt8 20) (set record : Vector UInt8 144) :
    (R.step (.decode rec set record)).Noticed ↔ R.StepOk (.decode rec set record) := by
  obtain ⟨halm, hstate⟩ := h
  have hflag := decode_flag (R.fed rec set) R.panel.optimset record
  simp only [Noticed, stateChanged_decode]
  simp only [step, StepOk, hflag]
  by_cases hset : R.panel.optimset.setup.bQF = 1 ∧
      ∃ k, storedState R.panel.optimset rec set k ≠ record.get k
  · -- the comparison sets the bit
    have hbits : ∀ i, flagBit R.alm.ucPCProtoDataFlag i = true →
        flagBit (R.alm.ucPCProtoDataFlag ||| 0x10) i = true := fun i hi => by
      rw [flagBit_or, hi, Bool.true_or]
    rw [if_pos (show R.panel.optimset.setup.bQF = 1 ∧
      ∃ k, storedState R.panel.optimset (R.fed rec set).ucSUBSWRec (R.fed rec set).ucBranchSet k
        ≠ record.get k from hset)]
    refine iff_of_true ⟨fun hold => hbits 0 (halm hold), fun _ => ?_⟩ fun _ => .inr hset
    rw [flagBit_or]
    exact Bool.or_eq_true_iff.2 (.inr rfl)
  · rw [if_neg (show ¬ (R.panel.optimset.setup.bQF = 1 ∧
      ∃ k, storedState R.panel.optimset (R.fed rec set).ucSUBSWRec (R.fed rec set).ucBranchSet k
        ≠ record.get k) from hset)]
    constructor
    · rintro ⟨-, hnew⟩ hchange
      exact .inl (hnew (.inr hchange))
    · intro hok
      refine ⟨halm, ?_⟩
      rintro (hold | hchange)
      · exact hstate hold
      · exact (hok hchange).resolve_right hset

theorem Noticed.query_iff (h : R.Noticed) (cid2 : UInt8) (pRxData : Int → UInt8) (stack : UInt16) :
    (R.step (.query cid2 pRxData stack)).Noticed ↔ R.StepOk (.query cid2 pRxData stack) := by
  obtain ⟨halm, hstate⟩ := h
  have hflag : ∀ i < 8, flagBit (nTxReply cid2 pRxData R.view stack).1.ucPCProtoDataFlag i
      = (flagBit R.alm.ucPCProtoDataFlag i && flagBit ((nTxDataInfo cid2).eval pRxData).mask i) :=
    fun i hi => build_flag _ R.view stack i hi
  simp only [Noticed, step, StepOk, hflag 0 (by omega), hflag 4 (by omega), Bool.and_eq_true,
    Bool.not_eq_true', decide_eq_false_iff_not]
  generalize (nTxDataInfo cid2).eval pRxData = r
  have h0 : flagBit r.mask 0 = false ↔ r.CarriesBranchAlm ∨ r = .alarm 0x01 := mask_alarm r
  have h4 : flagBit r.mask 4 = false ↔ r.CarriesStates ∨ r = .io 0x01 := mask_io r
  constructor
  · rintro ⟨hnew0, hnew4⟩
    constructor
    · intro hr
      by_contra hold
      have hbit := (hnew0 ⟨Bool.eq_true_of_not_eq_false hold, by rw [hr]; decide⟩).2
      rw [h0.2 (.inr hr)] at hbit
      cases hbit
    · intro hr
      by_contra hold
      have hbit := (hnew4 ⟨Bool.eq_true_of_not_eq_false hold, by rw [hr]; decide⟩).2
      rw [h4.2 (.inr hr)] at hbit
      cases hbit
  · rintro ⟨hok0, hok4⟩
    constructor
    · rintro ⟨hold, hcarries⟩
      refine ⟨halm hold, Bool.eq_true_of_not_eq_false fun hmask => ?_⟩
      have hr := (h0.1 hmask).resolve_left hcarries
      rw [hok0 hr] at hold
      cases hold
    · rintro ⟨hold, hcarries⟩
      refine ⟨hstate hold, Bool.eq_true_of_not_eq_false fun hmask => ?_⟩
      have hr := (h4.1 hmask).resolve_left hcarries
      rw [hok4 hr] at hold
      cases hold

/-- **One step** keeps the notices exactly when it meets its condition. -/
theorem Noticed.step_iff (h : R.Noticed) (op : NoticeOp) :
    (R.step op).Noticed ↔ R.StepOk op := by
  cases op with
  | evaluate c now => exact h.evaluate_iff c now
  | decode rec set record => exact h.decode_iff rec set record
  | query cid2 pRxData stack => exact h.query_iff cid2 pRxData stack
  | update p => exact iff_of_true h trivial

/-- **No lost change notice.** In every run, from whatever the variables
hold at its start, no change goes unnoticed in any state exactly when every
step meets its condition. -/
theorem notices_kept_iff (panel : Panel) (alm : AlmState) (sub : SubUnit) (ops : List NoticeOp) :
    Meets step (fun R op => (R.step op).Right) (init panel alm sub) ops ↔
      Meets step StepOk (init panel alm sub) ops := by
  have hinit : (init panel alm sub).Noticed := ⟨nofun, nofun⟩
  refine meets_congr ops hinit (fun R op _ hr => right_iff_noticed.1 hr) fun R op h => ?_
  rw [right_iff_noticed, h.step_iff]

/-- The device after power-up, with a setup byte. -/
def fresh (setup : UInt8) : NoticeRun :=
  init (blankPanel setup) (.powerUp fun _ => 0) SubUnit.oneOpen

/-- A branch trips, and the PC asks for the alarms of the busbars. -/
def tripThenBusAlarms : List NoticeOp :=
  [.evaluate (.io eActiveOFF (.branch (Fin.last 143))) default,
    .query ePutAlarm (fun _ => 0x01) 0]

/-- Every switch is reported open, and the PC asks for the states of the
busbars. -/
def openThenBusStates : List NoticeOp :=
  [.decode (.replicate 20 0) (.replicate 144 1) (.replicate 144 0),
    .query ePutIO (fun _ => 0x01) 0]

/-- The reply with the alarms of the busbars takes the notice of a tripped
branch, the one with their states that of an opened branch, and states
blanked by taking the branches off monitoring are not announced at all. -/
theorem bus_query_takes_notice :
    ¬ Meets step (fun R op => (R.step op).Right) (fresh 0x31) tripThenBusAlarms ∧
    ¬ Meets step (fun R op => (R.step op).Right) (fresh 0x31) openThenBusStates ∧
    ¬ Meets step (fun R op => (R.step op).Right) (fresh 0x21)
      [.decode (.replicate 20 0) (.replicate 144 1) (.replicate 144 0)] := by
  have hopen : ∀ setup, ((fresh setup).step
      (.decode (.replicate 20 0) (.replicate 144 1) (.replicate 144 0))).stateChanged = true ↔
      ∃ k, storedState (fresh setup).panel.optimset (.replicate 20 0) (.replicate 144 1) k
        ≠ SubUnit.oneOpen.ucBranchState.get k := by
    intro setup
    rw [stateChanged_decode]
    exact or_iff_right nofun
  refine ⟨fun hm => ?_, fun hm => ?_, fun hm => ?_⟩
  · have hnoticed := right_iff_noticed.1 hm.1
    have hok := (hnoticed.query_iff ..).1 (right_iff_noticed.1 hm.2.1)
    have hkept := hok.1 rfl
    rw [almChanged_evaluate.2 (.inr ⟨Fin.last 143, by decide +kernel⟩)] at hkept
    cases hkept
  · have hnoticed := right_iff_noticed.1 hm.1
    have hok := (hnoticed.query_iff ..).1 (right_iff_noticed.1 hm.2.1)
    have hkept := hok.2 rfl
    rw [(hopen 0x31).2 ⟨Fin.last 143, by decide +kernel⟩] at hkept
    cases hkept
  · have hnoticed := right_iff_noticed.1 hm.1
    have hbit := hnoticed.2 ((hopen 0x21).2 ⟨Fin.last 143, by decide +kernel⟩)
    exact absurd hbit (by decide +kernel)

end NoticeRun

end BusMonitor
