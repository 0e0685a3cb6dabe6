import BusMonitor.Alarm.Window
import BusMonitor.Lib.SingleValue
/-!
# Classification of the measured quantities

A measured value is a rational, and with the limits of its quantity it is
normal, under, over or over the second limit. The log of a quantity is to
have an entry at each measurement that changes the class, and the state
remembered for it is to be the class of the last one. The functions leave
out the value 32, which they take for the marker of a quantity that is not
monitored; `transitions_logged_iff` says which sequences are logged right.
-/


namespace BusMonitor

open Stepwise

/-! ## Classes -/

/-- The class of a value. -/
inductive AlmClass where
  | normal
  | under
  | over
  | overSec
  deriving DecidableEq

/-- The alarm type of a class. -/
def AlmClass.code : AlmClass → UInt8
  | .normal => eAlmTypeNormal
  | .under => eAlmTypeUnder
  | .over => eAlmTypeOver
  | .overSec => eAlmTypeOverSec

theorem AlmClass.code_inj {k k' : AlmClass} : k.code = k'.code ↔ k = k' := by
  cases k <;> cases k' <;> decide

/-- A measured quantity: the function that judges it, and its limits. -/
inductive Quantity where
  | voltFreq (upperL lowerL : UInt16)
  | current (upperL ultUpperL : UInt16)
  | power (upperL : UInt16)

namespace Quantity

/-- **The class of a value**, the limits compared in the order of the code.
A value at a limit violates it. -/
def classify : Quantity → ℚ → AlmClass
  | voltFreq upperL lowerL, v =>
    if (upperL.toNat : ℚ) ≤ v then .over else if v ≤ lowerL.toNat then .under else .normal
  | current upperL ultUpperL, v =>
    if (ultUpperL.toNat : ℚ) ≤ v then .overSec else if (upperL.toNat : ℚ) ≤ v then .over
    else .normal
  | power upperL, v => if (upperL.toNat : ℚ) ≤ v then .over else .normal

/-- The evaluation of a value. -/
def call (q : Quantity) (e : Fin 20) (x : Single) : Call :=
  match q with
  | voltFreq upperL lowerL => .voltFreq x upperL lowerL e
  | current upperL ultUpperL => .current x upperL ultUpperL e
  | power upperL => .power x upperL e

variable {q : Quantity} {e : Fin 20} {x : Single}

@[simp] theorem event_call : (q.call e x).event = .bus e := by
  cases q <;> rfl

/-- **The functions classify**: but for the value 32, the verdict is the
class of the value. -/
theorem verdict_call (hx : x.IsFinite) :
    (q.call e x).verdict = if x.value = 32 then .marked else .judged (q.classify x.value).code := by
  have hmark : (x.eqNat 0x20 = true) = (x.value = 32) := propext (by
    rw [Single.eqNat_iff hx]
    norm_num)
  have hge : ∀ n, (x.geNat n = true) = ((n : ℚ) ≤ x.value) :=
    fun n => propext (Single.geNat_iff hx)
  have hle : ∀ n, (x.leNat n = true) = (x.value ≤ n) := fun n => propext (Single.leNat_iff hx)
  cases q with
  | voltFreq upperL lowerL =>
    simp only [call, Call.verdict, valueVerdict, voltFreqType, classify, hmark, hge, hle]
    split
    · rfl
    · split
      · rfl
      · split <;> rfl
  | current upperL ultUpperL =>
    simp only [call, Call.verdict, valueVerdict, currentType, classify, hmark, hge]
    split
    · rfl
    · split
      · rfl
      · split <;> rfl
  | power upperL =>
    simp only [call, Call.verdict, valueVerdict, powerType, classify, hmark, hge]
    split
    · rfl
    · split <;> rfl

/-- The classes of a quantity are the alarm types of its function. -/
theorem gives_classify (v : ℚ) : (q.call e x).kind.Gives (q.classify v).code := by
  cases q with
  | voltFreq upperL lowerL =>
    rw [classify]
    split
    · exact .inr (.inl rfl)
    · split
      · exact .inr (.inr rfl)
      · exact .inl rfl
  | current upperL ultUpperL =>
    rw [classify]
    split
    · exact .inr (.inr rfl)
    · split
      · exact .inr (.inl rfl)
      · exact .inl rfl
  | power upperL =>
    rw [classify]
    split
    · exact .inr rfl
    · exact .inl rfl

end Quantity

/-! ## What an evaluation leaves and changes -/

/-- Evaluating another event does not touch the state remembered. -/
theorem eval_last_of_ne {s : AlmState} {c : Call} {e : AlmEvent} (hne : c.event ≠ e)
    (now : Stamp) : (s.eval c now).last e = s.last e := by
  cases hv : c.verdict with
  | marked =>
    obtain ⟨-, -, hlast, -⟩ := mark_frame c s
    rw [eval_marked hv, AlmState.last, hlast]
    rfl
  | ignored => rw [eval_ignored hv]
  | judged t =>
    have hout : Outcome s (s.eval c now) c.event t now := eval_judged hv
    rcases hout.board with ⟨-, hs⟩ | ⟨-, -, hlast, -⟩
    · rw [hs]
    · rw [AlmState.last, hlast, getElem_setSlot, if_neg hne.symm]
      rfl

theorem Changes.flag {s s' : AlmState} {c : Call} {t : UInt8} {now : Stamp}
    (h : Changes s s' c t now) : s'.ucPCProtoDataFlag = s.ucPCProtoDataFlag ||| 1 := by
  rcases h with ⟨ht, pt, rfl⟩ | ⟨-, thr, -, rfl⟩
  · obtain ⟨r, v, i, -, -, -, hf⟩ := raise_frame s c.event ht c.value (c.limit t) pt now
    rw [hf]
  · obtain ⟨r, v, i, hf⟩ := settle_frame s c.event c.value thr now
    rw [hf]

/-! ## Sequences of measurements -/

/-- The alarm component, and the class of the last value measured: normal
before the first one. -/
structure Measured where
  alm : AlmState
  cls : AlmClass

/-- The quantity of an event is measured, another event is evaluated, a
reply to the PC clears bits of the data flag, or the records are cleared. -/
inductive MeasuredOp (e : Fin 20) where
  | measure (x : { x : Single // x.IsFinite }) (now : Stamp)
  | other (c : { c : Call // c.event ≠ .bus e }) (now : Stamp)
  | reply (mask : UInt8)
  | clear

/-- A record was produced: it joins the window, and bit 0 of the data flag
is set. -/
def Produced (s s' : AlmState) (c : Change) : Prop :=
  Joins s s' c ∧ s'.ucPCProtoDataFlag = s.ucPCProtoDataFlag ||| 1

/-- No record was produced. -/
def Unproduced (s s' : AlmState) : Prop :=
  s'.gRTAlmRecord = s.gRTAlmRecord ∧ s'.rtAlmIndex = s.rtAlmIndex ∧
    s'.ucPCProtoDataFlag = s.ucPCProtoDataFlag

namespace Measured

variable {q : Quantity} {e : Fin 20} {M : Measured}

def step (q : Quantity) (e : Fin 20) (M : Measured) : MeasuredOp e → Measured
  | .measure x now => ⟨M.alm.eval (q.call e x) now, q.classify x.1.value⟩
  | .other c now => { M with alm := M.alm.eval c now }
  | .reply mask =>
    { M with alm := { M.alm with ucPCProtoDataFlag := M.alm.ucPCProtoDataFlag &&& mask } }
  | .clear => { M with alm := almRecordClear M.alm }

/-- After power-up. -/
def init (fram : Mem) : Measured := ⟨.powerUp fram, .normal⟩

/-- **A measurement is logged right**: the state remembered after it is the
class of the value, and a record of the change is produced if the class
has changed, and only then. -/
def Logged (q : Quantity) (e : Fin 20) (M : Measured) : MeasuredOp e → Prop
  | .measure x now =>
    let M' := M.step q e (.measure x now)
    M'.alm.last (.bus e) = M'.cls.code ∧
      if M'.cls = M.cls then Unproduced M.alm M'.alm
      else Produced M.alm M'.alm ((q.call e x).change M.cls.code M'.cls.code now)
  | _ => True

/-- **The condition on a step**: a value of 32 is of the class of the value
before it. -/
def StepOk (q : Quantity) (e : Fin 20) (M : Measured) : MeasuredOp e → Prop
  | .measure x _ => x.1.value = 32 → q.classify 32 = M.cls
  | _ => True

/-- The state remembered is the class of the last value. -/
structure Sound (q : Quantity) (e : Fin 20) (M : Measured) : Prop where
  index : M.alm.rtAlmIndex ≤ 10
  last : M.alm.last (.bus e) = M.cls.code
  gives : ∀ x, (q.call e x).kind.Gives M.cls.code

theorem sound_init (fram : Mem) : Sound q e (init fram) where
  index := (Watch.sound_init fram).right.1
  last := (Watch.sound_init fram).seen (.bus e)
  gives := fun _ => Kind.gives_normal _

/-- A value of 32 leaves the records and the state remembered. -/
theorem Sound.measure_marker (h : Sound q e M) {x : { x : Single // x.IsFinite }}
    (hx : x.1.value = 32) (now : Stamp) : Unproduced M.alm (M.alm.eval (q.call e x) now) ∧
      (M.alm.eval (q.call e x) now).last (.bus e) = M.cls.code := by
  have hv : (q.call e x.1).verdict = .marked := by rw [Quantity.verdict_call x.2, if_pos hx]
  obtain ⟨hrec, hindex, hlast, -⟩ := mark_frame (q.call e x.1) M.alm
  rw [eval_marked hv]
  refine ⟨⟨hrec, hindex, mark_flag _ _⟩, ?_⟩
  rw [AlmState.last, hlast]
  exact h.last

/-- **Any other value** is logged right. -/
theorem Sound.logged (h : Sound q e M) {x : { x : Single // x.IsFinite }} {now : Stamp}
    (hx : x.1.value ≠ 32) : Logged q e M (.measure x now) := by
  have hv : (q.call e x.1).verdict = .judged (q.classify x.1.value).code := by
    rw [Quantity.verdict_call x.2, if_neg hx]
  have hlast : M.alm.last (q.call e x.1).event = M.cls.code := by
    rw [Quantity.event_call]
    exact h.last
  unfold Logged
  dsimp only [step]
  by_cases hsame : q.classify x.1.value = M.cls
  · have hstay : M.alm.eval (q.call e x) now = M.alm := by
      have hout : Outcome M.alm (M.alm.eval (q.call e x) now) _ _ now := eval_judged hv
      rcases hout with ⟨-, hs⟩ | ⟨hne, -⟩ | ⟨hne, -⟩
      · exact hs
      · exact absurd (hlast.trans (congrArg AlmClass.code hsame.symm)) hne
      · exact absurd (hlast.trans (congrArg AlmClass.code hsame.symm)) hne
    rw [if_pos hsame, hstay]
    exact ⟨h.last.trans (congrArg AlmClass.code hsame.symm), rfl, rfl, rfl⟩
  · have hne : M.alm.last (q.call e x.1).event ≠ (q.classify x.1.value).code := by
      rw [hlast]
      exact fun hcode => hsame (AlmClass.code_inj.1 hcode).symm
    have hchanges : Changes M.alm (M.alm.eval (q.call e x) now) _ _ now :=
      eval_changes hv hne (hlast ▸ h.gives x.1)
    obtain ⟨hjoins, hmem, -⟩ := hchanges.joins h.index
    rw [hlast] at hjoins
    rw [if_neg hsame]
    refine ⟨?_, hjoins, hchanges.flag⟩
    rw [AlmState.last, hmem, Quantity.event_call, getElem_setSlot, if_pos rfl]

/-- **One step**: it is logged right exactly when it meets its condition. -/
theorem Sound.logged_iff (h : Sound q e M) (op : MeasuredOp e) :
    Logged q e M op ↔ StepOk q e M op := by
  cases op with
  | measure x now =>
    by_cases hx : x.1.value = 32
    · obtain ⟨hun, hlast⟩ := h.measure_marker hx now
      unfold Logged StepOk
      dsimp only [step]
      rw [hx, hlast]
      constructor
      · rintro ⟨hcode, -⟩ -
        exact (AlmClass.code_inj.1 hcode).symm
      · intro hok
        rw [hok rfl, if_pos rfl]
        exact ⟨rfl, hun⟩
    · exact iff_of_true (h.logged hx) fun hx' => absurd hx' hx
  | other | reply | clear => exact Iff.rfl

/-- A step that is logged right keeps the invariant. -/
theorem Sound.step (h : Sound q e M) {op : MeasuredOp e} (hl : Logged q e M op) :
    Sound q e (M.step q e op) := by
  cases op with
  | measure x now =>
    exact ⟨eval_rtAlmIndex h.index _ now, hl.1, fun _ => q.gives_classify _⟩
  | other c now =>
    exact ⟨eval_rtAlmIndex h.index c now, (eval_last_of_ne c.2 now).trans h.last, h.gives⟩
  | reply => exact ⟨h.index, h.last, h.gives⟩
  | clear => exact ⟨Nat.zero_le _, h.last, h.gives⟩

/-- **The log of a measured quantity**: in every sequence of measurements,
with anything else done between them, each measurement is logged right
exactly when each value of 32 is of the class of the value before it. -/
theorem transitions_logged_iff (q : Quantity) (e : Fin 20) (fram : Mem)
    (ops : List (MeasuredOp e)) :
    Meets (step q e) (Logged q e) (init fram) ops ↔
      Meets (step q e) (StepOk q e) (init fram) ops :=
  meets_congr ops (sound_init fram) (fun _ _ h hl => h.step hl) fun _ op h => h.logged_iff op

/-- The voltage 32 V, far under the factory limit. -/
def thirtyTwo : { x : Single // x.IsFinite } := ⟨.ofByte 32, by decide +kernel⟩

/-- A voltage of 32 V is not recorded as under its limit. -/
theorem thirtyTwo_unlogged :
    ¬ Meets (step (.voltFreq 242 187) 0) (Logged (.voltFreq 242 187) 0) (init fun _ => 0)
      [.measure thirtyTwo default] := by
  intro h
  have hval : thirtyTwo.1.value = 32 := (Single.eqNat_iff thirtyTwo.2).1 (by decide +kernel)
  have hclass : Quantity.classify (.voltFreq 242 187) 32 = .under := by
    simp only [Quantity.classify]
    rw [show (242 : UInt16).toNat = 242 from rfl, show (187 : UInt16).toNat = 187 from rfl]
    norm_num
  obtain ⟨⟨hlast, -⟩, -⟩ := h
  dsimp only [step] at hlast
  rw [hval, hclass] at hlast
  have hmarked := ((sound_init (q := .voltFreq 242 187) (e := 0)
    fun _ => 0).measure_marker hval default).2
  rw [hmarked] at hlast
  exact absurd hlast (by decide)

end Measured

end BusMonitor
