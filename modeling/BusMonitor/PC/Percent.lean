import BusMonitor.Alarm.Model
import BusMonitor.PC.Settings
/-!
# The over-current percentages

`ucOCThrFst` and `ucOCThrSec` are percentages of the rated current, and a
set request is to be refused above 100. The two cases test the first byte
of the frame, which is its version, in place of the byte they store:
`percents_kept_iff` says in which runs the percentages stay in range.
-/


namespace BusMonitor

open Probe Stepwise

/-- **The percentages are in range**, and the current limits the alarm code
computes from them are exact for every rated current. -/
structure PercentsInRange (o : Optimset) : Prop where
  ucOCThrFst : o.ucOCThrFst ≤ 100
  ucOCThrSec : o.ucOCThrSec ≤ 100
  upperL : ∀ rate : UInt16,
    (currentLimit rate o.ucOCThrFst).toNat = rate.toNat * o.ucOCThrFst.toNat / 100
  ultUpperL : ∀ rate : UInt16,
    (currentLimit rate o.ucOCThrSec).toNat = rate.toNat * o.ucOCThrSec.toNat / 100

/-- The percentage a frame with `n` bytes of INFO sends by the command
types `0xE2` and `0xE3`. -/
def sentPercent (m : Int → UInt8) (n : Nat) : Option UInt8 :=
  if m 3 = eSetOptimset ∧ (m 6 = 0xE2 ∨ m 6 = 0xE3) ∧ n = 2 then some (m 7) else none

namespace Station

/-- **The percentages are kept** by a step: they are in range after it, and
a request for more than 100 is refused and changes no setting. -/
structure PercentsKept (s : Station) (op : SettingOp) : Prop where
  range : PercentsInRange (s.step op).optimset
  refused : ∀ msg heap, op = .receive msg heap → ∀ v ver adr rtn s',
    sentPercent (msg.ucRxHexBuf heap) msg.infoLen = some v → 100 < v →
    (gPCProtoHandle msg s).eval (msg.ucRxHexBuf heap) = .set ver adr rtn s' →
    rtn ≠ .eNormal ∧ s'.optimset = s.optimset

/-- **The condition on a step**: no string that passes the checks sends a
percentage above 100. -/
def SendsPercent (s : Station) : SettingOp → Prop
  | .receive msg heap => Handed msg s (msg.ucRxHexBuf heap) →
    ∀ v, sentPercent (msg.ucRxHexBuf heap) msg.infoLen = some v → v ≤ 100
  | .restart => True

end Station

variable {s : Station} {m : Int → UInt8} {len : UInt16}

/-- A percentage makes a limit of sixteen bits. -/
theorem toNat_currentLimit {rate : UInt16} {percent : UInt8} (h : percent ≤ 100) :
    (currentLimit rate percent).toNat = rate.toNat * percent.toNat / 100 := by
  have hp : percent.toNat ≤ 100 := by simpa [UInt8.le_iff_toNat_le] using h
  have hr := rate.toNat_lt
  have hmul : rate.toNat * percent.toNat ≤ rate.toNat * 100 := Nat.mul_le_mul_left _ hp
  rw [currentLimit, UInt16.toNat_ofNat']
  omega

theorem percentsInRange_iff {o : Optimset} :
    PercentsInRange o ↔ o.ucOCThrFst ≤ 100 ∧ o.ucOCThrSec ≤ 100 := by
  constructor
  · intro h
    exact ⟨h.ucOCThrFst, h.ucOCThrSec⟩
  · rintro ⟨hfst, hsec⟩
    exact ⟨hfst, hsec, fun _ => toNat_currentLimit hfst, fun _ => toNat_currentLimit hsec⟩

/-- The command types of the percentages. -/
theorem commandType_ocThr (c : UInt8) : (commandType c = some .ocThrFst ↔ c = 0xE2) ∧
    (commandType c = some .ocThrSec ↔ c = 0xE3) :=
  forall_byte (P := fun c => (commandType c = some .ocThrFst ↔ c = 0xE2) ∧
    (commandType c = some .ocThrSec ↔ c = 0xE3)) (by decide +kernel) c

/-! ## One request -/

/-- A percentage that is sent is stored, whatever it is. -/
theorem eval_sentPercent {n : Nat} {v : UInt8} (hlen : LenFor len n) (hver : m 0 = framFrmVER)
    (hsent : sentPercent m n = some v) :
    ((nSetDataInfo (m 3) len s).eval m).1 = .eNormal := by
  unfold sentPercent at hsent
  split at hsent
  case isFalse => cases hsent
  rename_i hframe
  obtain ⟨hcommand, htype, hn⟩ := hframe
  have hone : len = 1 := (hlen 1 (by decide)).2 hn
  unfold nSetDataInfo
  rw [hcommand, if_neg (by decide), eval_bind, eval_entry]
  rcases htype with htype | htype
  · rw [(commandType_ocThr _).1.2 htype, nSetSwitch, eval_setByte hver, if_pos hone]
  · rw [(commandType_ocThr _).2.2 htype, nSetSwitch, eval_setByte hver, if_pos hone]

/-- A request that sends no percentage above 100 keeps both in range. -/
theorem percents_nSetDataInfo {n : Nat} (hlen : LenFor len n) (hver : m 0 = framFrmVER)
    (hcommand : m 3 = eSetOptimset ∨ m 3 = eSetTime) (h : PercentsInRange s.optimset)
    (hsent : ∀ v, sentPercent m n = some v → v ≤ 100) :
    PercentsInRange ((nSetDataInfo (m 3) len s).eval m).2.optimset := by
  rw [percentsInRange_iff] at h ⊢
  have hstored : (m 6 = 0xE2 ∨ m 6 = 0xE3) → m 3 ≠ eSetTime → len = 1 → m 7 ≤ 100 := by
    intro htype htime hone
    refine hsent _ (if_pos ⟨hcommand.resolve_right htime, htype, ?_⟩)
    exact (hlen 1 (by decide)).1 hone
  have hclock : ((setClock len s).eval m).2.optimset = s.optimset := by
    rw [eval_setClock]
    split
    · split <;> rfl
    · rfl
  unfold nSetDataInfo
  by_cases htime : m 3 = eSetTime
  · rw [if_pos htime, show commandType 0x00 = some .clock from rfl, nSetSwitch, hclock]
    exact h
  rw [if_neg htime, eval_bind, eval_entry]
  cases hk : commandType (m 6) with
  | none => exact h
  | some k =>
    cases k with
    | clock =>
      rw [nSetSwitch, hclock]
      exact h
    | ocThrFst =>
      rw [nSetSwitch, eval_setByte hver]
      split
      · next hone => exact ⟨hstored (.inl ((commandType_ocThr _).1.1 hk)) htime hone, h.2⟩
      · exact h
    | ocThrSec =>
      rw [nSetSwitch, eval_setByte hver]
      split
      · next hone => exact ⟨h.1, hstored (.inr ((commandType_ocThr _).2.1 hk)) htime hone⟩
      · exact h
    | comAddr =>
      rw [nSetSwitch, eval_setByte hver]
      split <;> exact h
    | comBaud =>
      rw [nSetSwitch, eval_setBaud]
      split
      · split <;> exact h
      · exact h
    | ovThr | uvThr | opThrA | opThrB | ofThr | ufThr =>
      rw [nSetSwitch, eval_setWord]
      split <;> exact h

/-! ## Runs -/

/-- **One step**: the percentages are kept exactly when it meets its
condition. -/
theorem percentsKept_iff (hs : s.Copied) (h : PercentsInRange s.optimset) (op : SettingOp) :
    s.PercentsKept op ↔ s.SendsPercent op := by
  cases op with
  | restart =>
    refine iff_of_true ⟨?_, nofun⟩ trivial
    rw [show s.step .restart = s from optInit_of_copied hs]
    exact h
  | receive msg heap =>
    have hlen := lenFor_usHexLen msg
    constructor
    · intro hkept hhanded v hsent
      by_contra hv
      have hset := eval_of_handed hhanded
      refine (hkept.refused msg heap rfl v _ _ _ _ hsent (UInt8.not_le.1 hv) hset).1 ?_
      exact eval_sentPercent hlen hhanded.ver hsent
    · intro hok
      constructor
      · simp only [Station.step]
        cases hr : (gPCProtoHandle msg s).eval (msg.ucRxHexBuf heap) with
        | ignored => exact h
        | answered ver adr rtn => exact h
        | put ver adr request => exact h
        | set ver adr rtn s' =>
          obtain ⟨hhanded, heval⟩ := handed_set hr
          have hrange := percents_nSetDataInfo hlen hhanded.ver hhanded.command h (hok hhanded)
          rwa [heval] at hrange
      · intro msg' heap' heq v ver adr rtn s' hsent hv hr
        cases heq
        exact absurd hv (UInt8.not_lt.2 (hok (handed_set hr).1 v hsent))

/-- **The percentages stay in range.** A new device receives any strings,
with restarts in between: the percentages are in range at the start and
kept by every step exactly when every step meets its condition. -/
theorem percents_kept_iff {fram : Mem} (hfresh : readWord fram fmAddrOptimSet ≠ initMark)
    (o : Optimset) (rtc : Rtc) (ops : List SettingOp) :
    let start := Station.optInit ⟨o, fram, rtc⟩
    PercentsInRange start.optimset ∧ Meets Station.step Station.PercentsKept start ops ↔
      Meets Station.step Station.SendsPercent start ops := by
  intro start
  obtain ⟨hdefault, hcopied⟩ : start.optimset = optDefault ∧ start.Copied := optInit_fresh hfresh
  have hrange : PercentsInRange start.optimset := by
    rw [hdefault, percentsInRange_iff]
    decide
  rw [and_iff_right hrange]
  refine meets_congr (I := fun s => s.Copied ∧ PercentsInRange s.optimset) ops ⟨hcopied, hrange⟩
    ?_ fun s op hs => percentsKept_iff hs.1 hs.2 op
  rintro s op ⟨hs, -⟩ hkept
  exact ⟨(reached_step hs op).copied hs, hkept.range⟩

/-- The first percentage set to 90, sent to the address 1. -/
def percentNinety : MessageType where
  rxBuffer := [0x7E, 0x33, 0x31, 0x30, 0x31, 0x32, 0x43, 0x34, 0x39, 0x43, 0x30, 0x30, 0x34,
    0x45, 0x32, 0x35, 0x41, 0x46, 0x43, 0x39, 0x35, 0x0D]
  stale := fun _ => 0
  fits := by decide

/-- It is stored as it should be, and kept by a restart. -/
theorem percents_kept_ninety :
    Meets Station.step Station.PercentsKept (Station.optInit ⟨optDefault, fun _ => 0, default⟩)
      [.receive percentNinety fun _ => 0, .restart] := by
  refine ((percents_kept_iff (by decide) optDefault default _).2 ?_).2
  refine ⟨fun _ v hv => ?_, trivial, trivial⟩
  have hninety : sentPercent (percentNinety.ucRxHexBuf fun _ => 0) percentNinety.infoLen =
      some 90 := by decide +kernel
  rw [hninety] at hv
  cases hv
  decide

/-- The first percentage set to 200, sent to the address 1. -/
def percentTwoHundred : MessageType where
  rxBuffer := [0x7E, 0x33, 0x31, 0x30, 0x31, 0x32, 0x43, 0x34, 0x39, 0x43, 0x30, 0x30, 0x34,
    0x45, 0x32, 0x43, 0x38, 0x46, 0x43, 0x39, 0x30, 0x0D]
  stale := fun _ => 0
  fits := by decide

/-- It is stored. -/
theorem two_hundred_percent_stored :
    ¬ Meets Station.step Station.PercentsKept (Station.optInit ⟨optDefault, fun _ => 0, default⟩)
      [.receive percentTwoHundred fun _ => 0] := by
  rintro ⟨hkept, -⟩
  exact absurd hkept.range.ucOCThrFst (by decide +kernel)

end BusMonitor
