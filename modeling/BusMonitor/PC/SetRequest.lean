import BusMonitor.PC.Handle
/-!
# Set requests

An `Assignment` is a setting together with the value a frame sends for
it, and `Installed` says that a request did what it asks for: the setting
has the value, its copy in the FRAM too, and nothing else has moved. A
reply is `Honest` when it says `eNormal` for exactly this, and when every
other reply leaves the station alone. The code falls short in its
`default` branch, which replies `eNormal`, and where the clock has no
room for a number it is given.
-/


namespace BusMonitor

open Probe

/-- A setting with the value sent for it. -/
inductive Assignment where
  | clock (year : UInt16) (month date hours minutes seconds : UInt8)
  | comAddr (v : UInt8)
  | comBaud (v : UInt16)
  | ovThr (v : UInt16)
  | uvThr (v : UInt16)
  | ocThrFst (v : UInt8)
  | ocThrSec (v : UInt8)
  | opThrA (v : UInt16)
  | opThrB (v : UInt16)
  | ofThr (v : UInt16)
  | ufThr (v : UInt16)
  deriving DecidableEq, Repr

/-- The settings record with the value in its field. -/
def Assignment.set : Assignment → Optimset → Optimset
  | clock .., o => o
  | comAddr v, o => { o with ucComAddr := v }
  | comBaud v, o => { o with usComBaud := v }
  | ovThr v, o => { o with usOVThr := v }
  | uvThr v, o => { o with usUVThr := v }
  | ocThrFst v, o => { o with ucOCThrFst := v }
  | ocThrSec v, o => { o with ucOCThrSec := v }
  | opThrA v, o => o.setOPThr 0 v
  | opThrB v, o => o.setOPThr 1 v
  | ofThr v, o => { o with usOFThr := v }
  | ufThr v, o => { o with usUFThr := v }

/-- Where `Opt_Save` puts the settings. -/
def optAddr : Nat := fmAddrOptimSet + fmOptDevInfo

/-- The FRAM holds the settings of `s'` and is otherwise that of `s`. -/
def Saved (s s' : Station) : Prop :=
  s'.fram.read optAddr s'.optimset.toBytes.length = s'.optimset.toBytes ∧
  (∀ x, x < optAddr ∨ optAddr + s'.optimset.toBytes.length ≤ x → s'.fram x = s.fram x) ∧
  s'.rtc = s.rtc

/-- **The request is in effect.** Its setting has the value sent, and
everything else is as it was in `s`. -/
def Installed (s s' : Station) : Assignment → Prop
  | .clock year month date hours minutes seconds =>
    s'.optimset = s.optimset ∧ s'.fram = s.fram ∧
    2000 + s'.rtc.now.year.toUInt16 = year ∧ s'.rtc.now.month = month ∧ s'.rtc.now.date = date ∧
    s'.rtc.now.hour = hours ∧ s'.rtc.now.minute = minutes ∧ s'.rtc.now.second = seconds
  | a => s'.optimset = a.set s.optimset ∧ Saved s s'

/-- **An honest reply**: `eNormal` says that the request is in effect, and
any other code that nothing has changed. -/
def Honest (req : Option Assignment) (s : Station) (rtn : RTN) (s' : Station) : Prop :=
  (rtn = .eNormal ↔ ∃ a, req = some a ∧ Installed s s' a) ∧ (rtn ≠ .eNormal → s' = s)

/-! ## What a frame asks for -/

section request

variable (m : Int → UInt8) (n : Nat)

/-- The seven bytes of a time from `i` on. -/
def sentTime (i : Int) : Assignment :=
  .clock (rev16 (m i) (m (i + 1))) (m (i + 2)) (m (i + 3)) (m (i + 4)) (m (i + 5)) (m (i + 6))

def sentByte (f : UInt8 → Assignment) : Option Assignment :=
  if n = 2 then some (f (m 7)) else none

def sentWord (f : UInt16 → Assignment) : Option Assignment :=
  if n = 3 then some (f (rev16 (m 7) (m 8))) else none

/-- The value behind the command type, when the `n` bytes of INFO are the
type and a value of the setting's size. -/
def sentFor : Setting → Option Assignment
  | .clock => if n = 8 then some (sentTime m 7) else none
  | .comAddr => sentByte m n .comAddr
  | .comBaud => sentWord m n .comBaud
  | .ovThr => sentWord m n .ovThr
  | .uvThr => sentWord m n .uvThr
  | .ocThrFst => sentByte m n .ocThrFst
  | .ocThrSec => sentByte m n .ocThrSec
  | .opThrA => sentWord m n .opThrA
  | .opThrB => sentWord m n .opThrB
  | .ofThr => sentWord m n .ofThr
  | .ufThr => sentWord m n .ufThr

/-- What a frame with `n` bytes of INFO asks for. The command `eSetTime`
has no command type; its INFO starts with the time. -/
def requested (command : UInt8) : Option Assignment :=
  if command = eSetTime then if 7 ≤ n then some (sentTime m 6) else none
  else (commandType (m 6)).bind (sentFor m n)

/-- The requests that are carried out: any value but an unknown rate, and
a time only by `eSetTime`, in eight bytes and from the years 2000 to
2099. -/
def Taken (command : UInt8) : Assignment → Prop
  | .clock year .. => command = eSetTime ∧ n = 8 ∧ 2000 ≤ year ∧ year ≤ 2099
  | .comBaud v => IsBaud v
  | _ => True

/-- The values that are read back as they were set: all but the numbers
the clock registers have no room for. -/
def Kept : Assignment → Prop
  | .clock _ month date hours minutes seconds =>
    month ≤ 15 ∧ date ≤ 39 ∧ hours ≤ 39 ∧ minutes ≤ 79 ∧ seconds ≤ 79
  | _ => True

/-- When the reply to a set request is honest: the command type is known,
what is carried out can be kept, and what is refused was not in effect
already. -/
def HonestWhen (command : UInt8) (s : Station) : Prop :=
  (command = eSetTime ∨ (commandType (m 6)).isSome) ∧
  ∀ a, requested m n command = some a →
    (Taken n command a → Kept a) ∧ (¬ Taken n command a → ¬ Installed s s a)

end request

/-! ## The branches -/

variable {s : Station} {m : Int → UInt8} {n : Nat} {len : UInt16} {req : Option Assignment}

/-- A refusal is honest unless the setting had the value already. -/
theorem honest_refused {rtn : RTN} (h : rtn ≠ .eNormal) :
    Honest req s rtn s ↔ ∀ a, req = some a → ¬ Installed s s a := by
  simp [Honest, h]

/-- An acceptance is honest when the request is in effect. -/
theorem honest_done {s' : Station} :
    Honest req s .eNormal s' ↔ ∃ a, req = some a ∧ Installed s s' a := by
  simp [Honest]

/-- `Opt_Save` saves, and touches nothing else. -/
theorem saved_optSave (o : Optimset) : Saved s (optSave { s with optimset := o }) :=
  ⟨Mem.read_write_self, fun _ h => Mem.write_of_disjoint h, rfl⟩

/-- Setting the clock is in effect for the numbers that fit. -/
theorem installed_clock {year : UInt16} {month date hours minutes seconds : UInt8}
    (hy : 2000 ≤ year ∧ year ≤ 2099) :
    Installed s { s with rtc := s.rtc.set ⟨(year - 2000).toUInt8, month, date, hours, minutes,
        seconds⟩ } (.clock year month date hours minutes seconds) ↔
      Kept (.clock year month date hours minutes seconds) := by
  have hlo : 2000 ≤ year.toNat := by simpa [UInt16.le_iff_toNat_le] using hy.1
  have hhi : year.toNat ≤ 2099 := by simpa [UInt16.le_iff_toNat_le] using hy.2
  have hsub : (year - 2000).toNat = year.toNat - 2000 := by
    rw [UInt16.toNat_sub_of_le _ _ hy.1]
    rfl
  have hfit : (year - 2000).toUInt8 ≤ 159 := by
    rw [UInt8.le_iff_toNat_le, UInt16.toNat_toUInt8, hsub]
    simp only [UInt8.reduceToNat]
    omega
  have hyear : 2000 + (year - 2000).toUInt8.toUInt16 = year := by
    apply UInt16.toNat.inj
    rw [UInt16.toNat_add, UInt8.toNat_toUInt16, UInt16.toNat_toUInt8, hsub]
    simp only [UInt16.reduceToNat]
    omega
  simp only [Installed, Kept, Rtc.set, Rtc.setTime, Rtc.setDate, Rtc.now, true_and,
    year_back.2 hfit, hyear, month_back, date_back, hour_back, minute_back]

section branches

/-- `len`, as the handler passes it for `n` bytes of INFO. -/
def LenFor (len : UInt16) (n : Nat) : Prop :=
  ∀ k : UInt16, k.toNat < 8 → (len = k ↔ n = k.toNat + 1)

/-- A branch that stores what it is sent is honest: the request is in
effect, or the length was refused. -/
theorem honest_stored {k : UInt16} {a : Assignment} {o : Optimset} (hlen : LenFor len n)
    (hk : k.toNat < 8) (hreq : req = if n = k.toNat + 1 then some a else none)
    (ha : Installed s (optSave { s with optimset := o }) a) :
    let r := if len = k then (RTN.eNormal, optSave { s with optimset := o }) else (.eOFError, s)
    Honest req s r.1 r.2 := by
  subst hreq
  by_cases hn : n = k.toNat + 1
  · simp only [(hlen k hk).2 hn, hn, if_true]
    exact honest_done.2 ⟨a, rfl, ha⟩
  · simp only [mt (hlen k hk).1 hn, hn, if_false]
    exact (honest_refused (by decide)).2 fun _ h => nomatch h

theorem eval_setWord {put : Optimset → UInt16 → Optimset} : (setWord put len s).eval m =
    if len = 2 then (.eNormal, optSave { s with optimset := put s.optimset (rev16 (m 7) (m 8)) })
    else (.eOFError, s) := by
  unfold setWord
  rw [eval_ite]
  rfl

/-- The byte tested is the version, which is below 100. -/
theorem eval_setByte {tested : Bool} {put : Optimset → UInt8 → Optimset}
    (hver : m 0 = framFrmVER) : (setByte tested put len s).eval m =
      if len = 1 then (.eNormal, optSave { s with optimset := put s.optimset (m 7) })
      else (.eOFError, s) := by
  have h100 : (entry 0 : Decoded UInt8).eval m ≤ 100 := by
    rw [eval_entry, hver]
    decide
  unfold setByte
  rw [eval_ite]
  cases tested
  · rfl
  · simp only [eval_bind, if_true]
    rw [if_pos h100]
    rfl

theorem eval_setBaud : (setBaud len s).eval m = if len = 2 then if IsBaud (rev16 (m 7) (m 8)) then
    (.eNormal, optSave { s with optimset := { s.optimset with usComBaud := rev16 (m 7) (m 8) } })
    else (.eVoidData, s) else (.eOFError, s) := by
  unfold setBaud
  rw [eval_ite]
  simp only [eval_bind, eval_ite]
  rfl

theorem honest_setWord {put : Optimset → UInt16 → Optimset} {f : UInt16 → Assignment}
    (hlen : LenFor len n)
    (ha : ∀ v, Installed s (optSave { s with optimset := put s.optimset v }) (f v)) :
    Honest (sentWord m n f) s ((setWord put len s).eval m).1 ((setWord put len s).eval m).2 := by
  rw [eval_setWord]
  exact honest_stored hlen (by decide) rfl (ha _)

theorem honest_setByte {tested : Bool} {put : Optimset → UInt8 → Optimset}
    {f : UInt8 → Assignment} (hlen : LenFor len n) (hver : m 0 = framFrmVER)
    (ha : ∀ v, Installed s (optSave { s with optimset := put s.optimset v }) (f v)) :
    Honest (sentByte m n f) s ((setByte tested put len s).eval m).1
      ((setByte tested put len s).eval m).2 := by
  rw [eval_setByte hver]
  exact honest_stored hlen (by decide) rfl (ha _)

theorem honest_setBaud (hlen : LenFor len n) :
    Honest (sentWord m n .comBaud) s ((setBaud len s).eval m).1 ((setBaud len s).eval m).2 ↔
      ∀ a, sentWord m n .comBaud = some a → ¬ Taken n eSetOptimset a → ¬ Installed s s a := by
  rw [eval_setBaud]
  by_cases hbaud : IsBaud (rev16 (m 7) (m 8))
  · rw [if_pos hbaud]
    refine iff_of_true (honest_stored hlen (by decide) rfl ⟨rfl, saved_optSave _⟩) fun a ha ht => ?_
    unfold sentWord at ha
    split at ha <;> cases ha
    exact absurd hbaud ht
  · rw [if_neg hbaud]
    have hrefused : ∃ rtn : RTN, rtn ≠ .eNormal ∧
        (if len = 2 then (RTN.eVoidData, s) else (.eOFError, s)) = (rtn, s) := by
      split
      · exact ⟨_, by decide, rfl⟩
      · exact ⟨_, by decide, rfl⟩
    obtain ⟨rtn, hrtn, hr⟩ := hrefused
    rw [hr, honest_refused hrtn]
    refine forall_congr' fun a => forall_congr' fun ha => ?_
    unfold sentWord at ha
    split at ha <;> cases ha
    exact ⟨fun h _ => h, fun h => h hbaud⟩

/-- The clock branch, with the time taken from the sixth byte on. -/
theorem eval_setClock : (setClock len s).eval m =
    if len = 7 then if rev16 (m 6) (m 7) ≤ 2099 ∧ 2000 ≤ rev16 (m 6) (m 7) then
      (.eNormal, { s with rtc := s.rtc.set ⟨(rev16 (m 6) (m 7) - 2000).toUInt8, m 8, m 9, m 10,
        m 11, m 12⟩ })
    else (.eVoidData, s) else (.eOFError, s) := by
  unfold setClock
  rw [eval_ite]
  simp only [eval_bind, eval_ite]
  rfl

/-- A refusal, where the grammar of set requests refuses too. -/
theorem honest_refused_iff {rtn : RTN} {command : UInt8} (h : rtn ≠ .eNormal)
    (ht : ∀ a, req = some a → ¬ Taken n command a) :
    Honest req s rtn s ↔ ∀ a, req = some a →
      (Taken n command a → Kept a) ∧ (¬ Taken n command a → ¬ Installed s s a) := by
  rw [honest_refused h]
  refine forall_congr' fun a => forall_congr' fun ha => ?_
  exact ⟨fun hi => ⟨fun h' => absurd h' (ht a ha), fun _ => hi⟩, fun h' => h'.2 (ht a ha)⟩

/-- An acceptance of a request that is taken. -/
theorem honest_done_iff {s' : Station} {a : Assignment} {command : UInt8} (hreq : req = some a)
    (ht : Taken n command a) (hi : Installed s s' a ↔ Kept a) :
    Honest req s .eNormal s' ↔ ∀ a, req = some a →
      (Taken n command a → Kept a) ∧ (¬ Taken n command a → ¬ Installed s s a) := by
  subst hreq
  rw [honest_done]
  simp [hi, ht]

/-- `eSetTime`: the time is set when it comes in eight bytes with a year the
clock counts. -/
theorem honest_eSetTime (hlen : LenFor len n) :
    Honest (requested m n eSetTime) s ((setClock len s).eval m).1 ((setClock len s).eval m).2 ↔
      ∀ a, requested m n eSetTime = some a →
        (Taken n eSetTime a → Kept a) ∧ (¬ Taken n eSetTime a → ¬ Installed s s a) := by
  have hreq : requested m n eSetTime = if 7 ≤ n then some (sentTime m 6) else none := if_pos rfl
  have htaken : ∀ a, requested m n eSetTime = some a → Taken n eSetTime a →
      n = 8 ∧ 2000 ≤ rev16 (m 6) (m 7) ∧ rev16 (m 6) (m 7) ≤ 2099 := by
    intro a ha ht
    rw [hreq] at ha
    split at ha <;> cases ha
    exact ht.2
  rw [eval_setClock]
  by_cases hn : n = 8
  · rw [if_pos ((hlen 7 (by decide)).2 hn)]
    by_cases hy : rev16 (m 6) (m 7) ≤ 2099 ∧ 2000 ≤ rev16 (m 6) (m 7)
    · rw [if_pos hy]
      refine honest_done_iff (hreq.trans (if_pos (by omega))) ⟨rfl, hn, hy.2, hy.1⟩ ?_
      exact installed_clock ⟨hy.2, hy.1⟩
    · rw [if_neg hy]
      refine honest_refused_iff (show RTN.eVoidData ≠ .eNormal by decide) fun a ha ht => hy ?_
      exact (htaken a ha ht).2.symm
  · rw [if_neg (mt (hlen 7 (by decide)).1 hn)]
    exact honest_refused_iff (show RTN.eOFError ≠ .eNormal by decide) fun a ha ht =>
      hn (htaken a ha ht).1

/-- With the command type 0 in its sixth byte, the year of a time is below
256. -/
theorem refused_of_type_zero (h0 : m 6 = 0) :
    ∃ rtn : RTN, rtn ≠ .eNormal ∧ (setClock len s).eval m = (rtn, s) := by
  have hy : ¬ (rev16 (m 6) (m 7) ≤ 2099 ∧ 2000 ≤ rev16 (m 6) (m 7)) := by
    rintro ⟨-, h⟩
    rw [UInt16.le_iff_toNat_le, toNat_rev16, h0] at h
    have := (m 7).toNat_lt
    simp at h
    omega
  rw [eval_setClock, if_neg hy]
  split
  · exact ⟨_, by decide, rfl⟩
  · exact ⟨_, by decide, rfl⟩

/-- A table row with another entry is not the one that was found. -/
theorem rest_of_ite {α : Type*} {c : Prop} [Decidable c] {a b : α} {x : Option α} (hab : a ≠ b)
    (h : (if c then some a else x) = some b) : x = some b := by
  split at h
  · exact absurd (Option.some.inj h) hab
  · exact h

theorem commandType_clock {c : UInt8} (h : commandType c = some .clock) : c = 0 := by
  unfold commandType at h
  by_contra hc
  rw [if_neg hc] at h
  iterate 10 replace h := rest_of_ite (by decide) h
  cases h

/-- A request that is always taken and always kept. -/
theorem iff_of_stored {P : Prop} (hP : P)
    (h : ∀ a, req = some a → Taken n eSetOptimset a ∧ Kept a) :
    P ↔ ∀ a, req = some a → (Taken n eSetOptimset a → Kept a) ∧
      (¬ Taken n eSetOptimset a → ¬ Installed s s a) :=
  iff_of_true hP fun a ha => ⟨fun _ => (h a ha).2, fun ht => absurd (h a ha).1 ht⟩

theorem free_of_sent {c : Prop} [Decidable c] {v a : Assignment}
    (hv : Taken n eSetOptimset v ∧ Kept v) (h : (if c then some v else none) = some a) :
    Taken n eSetOptimset a ∧ Kept a := by
  split at h <;> cases h
  exact hv

/-- `eSetOptimset`, one case of the `switch` after the other. -/
theorem honest_eSetOptimset {k : Setting} (hlen : LenFor len n) (hver : m 0 = framFrmVER)
    (hk : commandType (m 6) = some k) :
    Honest (sentFor m n k) s ((nSetSwitch len s (some k)).eval m).1
        ((nSetSwitch len s (some k)).eval m).2 ↔
      ∀ a, sentFor m n k = some a → (Taken n eSetOptimset a → Kept a) ∧
        (¬ Taken n eSetOptimset a → ¬ Installed s s a) := by
  cases k with
  | clock =>
    have ht : ∀ a, sentFor m n .clock = some a → ¬ Taken n eSetOptimset a := by
      intro a ha
      simp only [sentFor] at ha
      split at ha <;> cases ha
      exact fun h => absurd h.1 (by decide)
    obtain ⟨rtn, hrtn, hr⟩ : ∃ rtn : RTN, rtn ≠ .eNormal ∧ (setClock len s).eval m = (rtn, s) :=
      refused_of_type_zero (commandType_clock hk)
    simp only [nSetSwitch, hr]
    exact honest_refused_iff hrtn ht
  | comBaud =>
    refine (honest_setBaud hlen).trans ?_
    refine forall_congr' fun a => forall_congr' fun ha => (and_iff_right fun _ => ?_).symm
    simp only [sentWord] at ha
    split at ha <;> cases ha
    trivial
  | comAddr | ocThrFst | ocThrSec =>
    simp only [sentFor, nSetSwitch]
    refine iff_of_stored (honest_setByte hlen hver ?_) fun _ => free_of_sent ⟨trivial, trivial⟩
    exact fun _ => ⟨rfl, saved_optSave _⟩
  | ovThr | uvThr | opThrA | opThrB | ofThr | ufThr =>
    simp only [sentFor, nSetSwitch]
    refine iff_of_stored (honest_setWord hlen ?_) fun _ => free_of_sent ⟨trivial, trivial⟩
    exact fun _ => ⟨rfl, saved_optSave _⟩

/-- **Set requests, for one call of `nSet_DataInfo`.** -/
theorem honest_nSetDataInfo {command : UInt8} (hlen : LenFor len n) (hver : m 0 = framFrmVER)
    (hcmd : command = eSetOptimset ∨ command = eSetTime) :
    Honest (requested m n command) s ((nSetDataInfo command len s).eval m).1
        ((nSetDataInfo command len s).eval m).2 ↔ HonestWhen m n command s := by
  unfold HonestWhen nSetDataInfo
  by_cases ht : command = eSetTime
  · subst ht
    rw [if_pos rfl, and_iff_right (Or.inl rfl)]
    exact honest_eSetTime hlen
  · obtain rfl := hcmd.resolve_right ht
    have hreq : requested m n eSetOptimset = (commandType (m 6)).bind (sentFor m n) := if_neg ht
    rw [if_neg ht, eval_bind, eval_entry, hreq]
    cases hk : commandType (m 6) with
    | none =>
      -- the `default` branch: `eNormal` for a request that asks for nothing
      refine iff_of_false (fun h => ?_) fun h => by simp [ht] at h
      obtain ⟨a, ha, -⟩ := h.1.1 rfl
      cases ha
    | some k =>
      rw [and_iff_right (show eSetOptimset = eSetTime ∨ (some k).isSome = true from Or.inr rfl)]
      exact honest_eSetOptimset hlen hver hk

end branches

/-! ## The frames that are handed over -/

variable {msg : MessageType} {heap : Int → UInt8}

/-- The bytes of INFO in a frame. -/
def MessageType.infoLen (msg : MessageType) : Nat := msg.usHexLen.toNat - 8

theorem lenFor_usHexLen (msg : MessageType) : LenFor (msg.usHexLen - 9) msg.infoLen := by
  intro k hk
  have := msg.usHexLen.toNat_lt
  rw [← UInt16.toNat_inj, UInt16.toNat_sub, MessageType.infoLen]
  simp only [UInt16.reduceToNat]
  omega

/-- **The checks on the way to `nSet_DataInfo`**: markers, CID1, address,
checksum, version, length and the command. -/
structure Handed (msg : MessageType) (s : Station) (m : Int → UInt8) : Prop where
  soi : msg.byte 0 = framFrmSOI
  eoi : msg.lastByte = framFrmEOI
  cid1 : m 2 = framFrmCID1
  adr : m 1 = s.optimset.ucComAddr
  chksum : calCHKsum msg = (rxCHKsum msg).eval m
  ver : m 0 = framFrmVER
  length : (revWord 4).eval m = lchksum ((msg.usHexLen - 8) * 2)
  command : m 3 = eSetOptimset ∨ m 3 = eSetTime

/-- A string that passes the checks is handed over, with `usHexLen - 9` for
the length. -/
theorem eval_of_handed (h : Handed msg s m) :
    let done := (nSetDataInfo (m 3) (msg.usHexLen - 9) s).eval m
    (gPCProtoHandle msg s).eval m = .set framFrmVER s.optimset.ucComAddr done.1 done.2 := by
  have hadr : m 3 ≠ ePutAddress ∧ m 3 ≠ ePutVersion := by
    rcases h.command with hc | hc <;> rw [hc] <;> decide
  unfold gPCProtoHandle atCID1OK atADROK atCHKOK atVEROK execute
  simp only [eval_bind, eval_entry, eval_pure, h.soi, h.eoi, h.cid1, h.adr, ← h.chksum,
    h.ver, h.length, h.command, hadr, and_self, if_true, if_false]

/-- And only such a string is. -/
theorem handed_set {ver adr : UInt8} {rtn : RTN} {s' : Station}
    (h : (gPCProtoHandle msg s).eval m = .set ver adr rtn s') :
    Handed msg s m ∧ (nSetDataInfo (m 3) (msg.usHexLen - 9) s).eval m = (rtn, s') := by
  -- one check after the other: a string that fails it is not handed over
  unfold gPCProtoHandle at h
  obtain ⟨⟨hsoi, heoi⟩, h⟩ := of_eval_check h nofun
  rw [eval_bind] at h
  obtain ⟨hcid1, h⟩ := of_eval_check h nofun
  unfold atCID1OK at h
  rw [eval_bind, eval_ite] at h
  split at h
  case isTrue =>
    -- the query for the address
    unfold putAddress at h
    rw [eval_bind, eval_ite] at h
    split at h <;> cases h
  rw [eval_bind] at h
  obtain ⟨hadr, h⟩ := of_eval_check h nofun
  unfold atADROK at h
  rw [eval_bind] at h
  obtain ⟨hsum, h⟩ := of_eval_check h nofun
  unfold atCHKOK at h
  rw [eval_ite] at h
  split at h
  case isTrue => cases h
  rw [eval_bind] at h
  obtain ⟨hver, h⟩ := of_eval_check h nofun
  unfold atVEROK at h
  rw [eval_bind] at h
  obtain ⟨hlength, h⟩ := of_eval_check h nofun
  unfold execute at h
  rw [eval_ite] at h
  split at h
  case isFalse =>
    rw [eval_bind, eval_pure] at h
    cases h
  rename_i hcmd
  rw [eval_bind, eval_pure] at h
  cases h
  exact ⟨⟨hsoi, heoi, hcid1, hadr, hsum, hver, hlength, hcmd⟩, rfl⟩

/-- What the handler knows of a frame it hands to `nSet_DataInfo`. -/
theorem handed_of_set {ver adr : UInt8} {rtn : RTN} {s' : Station}
    (h : (gPCProtoHandle msg s).eval m = .set ver adr rtn s') :
    m 0 = framFrmVER ∧ (m 3 = eSetOptimset ∨ m 3 = eSetTime) ∧
      (nSetDataInfo (m 3) (msg.usHexLen - 9) s).eval m = (rtn, s') := by
  obtain ⟨hhanded, heval⟩ := handed_set h
  exact ⟨hhanded.ver, hhanded.command, heval⟩

/-- **Set requests.** For every frame the handler hands to `nSet_DataInfo`
and every station, the reply is honest if and only if the command type is
known, a time that is taken fits the clock, and a value that is refused
was not in effect already. -/
theorem set_honest_iff {ver adr : UInt8} {rtn : RTN} {s' : Station}
    (h : (gPCProtoHandle msg s).eval (msg.ucRxHexBuf heap) = .set ver adr rtn s') :
    let m := msg.ucRxHexBuf heap
    Honest (requested m msg.infoLen (m 3)) s rtn s' ↔ HonestWhen m msg.infoLen (m 3) s := by
  obtain ⟨hver, hcmd, hr⟩ := handed_of_set h
  have hiff : Honest _ s _ _ ↔ _ := honest_nSetDataInfo (lenFor_usHexLen msg) hver hcmd
  rwa [hr] at hiff

/-- The address 5, sent to the address 1. -/
def addressFive : MessageType where
  rxBuffer := [0x7E, 0x33, 0x31, 0x30, 0x31, 0x32, 0x43, 0x34, 0x39, 0x43, 0x30, 0x30, 0x34,
    0x44, 0x30, 0x30, 0x35, 0x46, 0x43, 0x41, 0x39, 0x0D]
  stale := fun _ => 0
  fits := by decide

theorem set_address_honest :
    Honest (some (.comAddr 5)) factory .eNormal
      (optSave { factory with optimset := { optDefault with ucComAddr := 5 } }) := by
  have hset : (gPCProtoHandle addressFive factory).eval (addressFive.ucRxHexBuf fun _ => 0) =
      .set framFrmVER 1 .eNormal
        (optSave { factory with optimset := { optDefault with ucComAddr := 5 } }) := rfl
  refine (set_honest_iff hset).2 ⟨by decide +kernel, fun a ha => ?_⟩
  cases ha
  exact ⟨fun _ => trivial, fun h => absurd trivial h⟩

/-- The command type `0x55`, which no setting has. -/
def typeFiftyFive : MessageType where
  rxBuffer := [0x7E, 0x33, 0x31, 0x30, 0x31, 0x32, 0x43, 0x34, 0x39, 0x45, 0x30, 0x30, 0x32,
    0x35, 0x35, 0x46, 0x44, 0x31, 0x38, 0x0D]
  stale := fun _ => 0
  fits := by decide

/-- 45 May 2018, 12 o'clock. -/
def dateFortyFive : MessageType where
  rxBuffer := [0x7E, 0x33, 0x31, 0x30, 0x31, 0x32, 0x43, 0x34, 0x45, 0x46, 0x30, 0x31, 0x30,
    0x30, 0x37, 0x45, 0x32, 0x30, 0x35, 0x32, 0x44, 0x30, 0x43, 0x30, 0x30, 0x30, 0x30, 0x30,
    0x30, 0x46, 0x41, 0x32, 0x41, 0x0D]
  stale := fun _ => 0
  fits := by decide

/-- An unknown command type changes nothing, and a 45th day is kept as the
fifth. Both are answered `eNormal`. -/
theorem false_eNormal :
    (∃ s', (gPCProtoHandle typeFiftyFive factory).eval (typeFiftyFive.ucRxHexBuf fun _ => 0) =
        .set framFrmVER 1 .eNormal s' ∧
      ¬ Honest (requested (typeFiftyFive.ucRxHexBuf fun _ => 0) typeFiftyFive.infoLen eSetOptimset)
        factory .eNormal s') ∧
    ∃ s', (gPCProtoHandle dateFortyFive factory).eval (dateFortyFive.ucRxHexBuf fun _ => 0) =
        .set framFrmVER 1 .eNormal s' ∧
      ¬ Honest (requested (dateFortyFive.ucRxHexBuf fun _ => 0) dateFortyFive.infoLen eSetTime)
        factory .eNormal s' := by
  constructor
  · refine ⟨factory, rfl, fun h => ?_⟩
    obtain ⟨a, ha, -⟩ := h.1.1 rfl
    cases ha
  · refine ⟨{ factory with rtc := factory.rtc.set ⟨18, 5, 45, 12, 0, 0⟩ }, rfl, fun h => ?_⟩
    obtain ⟨a, ha, hi⟩ := h.1.1 rfl
    cases ha
    exact absurd hi.2.2.2.2.1 (by decide +kernel)

end BusMonitor
