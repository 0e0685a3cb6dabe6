import BusMonitor.Alarm.Ring
import BusMonitor.Lib.Walk
/-!
# The walk over the alarm history

`nPTAlarm_DataInfo` of `app_PCProto.c`. The PC asks for the newest record,
then for the next one or the same again. Where the walk stands is kept in
function statics that no request resets, so that a walk depends on the
walks before it. `walksRight_iff` says from which states of ring and
statics a walk delivers the history.
-/


namespace BusMonitor

open Recent Stepwise Walk

/-! ## The handler -/

/-- The history as the PC asks for it: the FRAM and `gPTAlmRelate`. -/
structure HistoryRing where
  fram : Mem
  relate : PTAlmRelate
  almIndex_lt : relate.almIndex < ptAlmItem
  flag_bit : relate.fullFlag = 0 ∨ relate.fullFlag = 1

/-- Every stored alarm was raised at a date: no record looks like the zeros
of an empty history. -/
def HistoryRing.Dated (h : HistoryRing) : Prop :=
  ∀ i ∈ ringSlots h.relate, (slot h.fram i).generate.Dated

instance (h : HistoryRing) : Decidable h.Dated := inferInstanceAs (Decidable (∀ _ ∈ _, _))

/-- A history that was written under a clock that shows dates. -/
structure DatedRing extends HistoryRing where
  dated : toHistoryRing.Dated

/-- The stored records, newest first. -/
def HistoryRing.records (h : HistoryRing) : List AlmRecord :=
  (ringSlots h.relate).map (slot h.fram)

/-- The statics of `nPTAlarm_DataInfo`. -/
structure PTAlmStatics where
  fPTAlmRecord : AlmRecord
  lastFlag : UInt8
  noneFlag : UInt8
  sendIndex : Nat

/-- The five bytes from the month on, then event and type. -/
def AlmRecord.part (r : AlmRecord) (t : Stamp) : List UInt8 :=
  [t.month, t.date, t.hour, t.minute, t.second, r.almEvent, r.almType]

def AlmRecord.generatePart (r : AlmRecord) : List UInt8 := r.part r.generate

def AlmRecord.terminatePart (r : AlmRecord) : List UInt8 := r.part r.terminate

section handler

variable (h : HistoryRing) (dataFlag : UInt8)

/-- The nine bytes of `DataInfo`. -/
def almInfo (w : PTAlmStatics) (data : List UInt8) : PTAlmStatics × List UInt8 :=
  (w, [w.lastFlag, dataFlag] ++ data)

/-- Load the record under `sendIndex` and send its generation. -/
def sendGenerate (w : PTAlmStatics) : PTAlmStatics × List UInt8 :=
  let r := slot h.fram w.sendIndex
  almInfo dataFlag { w with fPTAlmRecord := r } r.generatePart

/-- The cursor put on the newest record, or the flags of an empty
history. -/
def toNewest (w : PTAlmStatics) : PTAlmStatics :=
  if 0 < h.relate.almIndex then { w with sendIndex := h.relate.almIndex - 1 }
  else if h.relate.fullFlag = 1 then { w with sendIndex := ptAlmItem - 1 }
  else { w with lastFlag := 1, noneFlag := 1 }

/-- The flag as the cursor arrives at `i`. -/
def arrive (w : PTAlmStatics) (i : Nat) : PTAlmStatics :=
  { w with
    sendIndex := i
    lastFlag := if (h.relate.fullFlag = 0 ∧ i = 0) ∨ i = h.relate.almIndex then 1 else w.lastFlag }

/-- The cursor moved to the next older record. -/
def toOlder (w : PTAlmStatics) : PTAlmStatics :=
  if 0 < w.sendIndex then arrive h w (w.sendIndex - 1)
  else if h.relate.fullFlag = 1 then { w with sendIndex := ptAlmItem - 1 }
  else w

/-- Command `0x02`. -/
def resend (w : PTAlmStatics) : PTAlmStatics × List UInt8 :=
  if w.noneFlag = 1 then almInfo dataFlag w (List.replicate 7 0) else sendGenerate h dataFlag w

/-- Command `0x00`. -/
def sendNewest (w : PTAlmStatics) : PTAlmStatics × List UInt8 := resend h dataFlag (toNewest h w)

/-- Command `0x01`. -/
def sendNext (w : PTAlmStatics) : PTAlmStatics × List UInt8 :=
  if w.fPTAlmRecord.flag = terminateFlag then
    almInfo dataFlag { w with fPTAlmRecord := { w.fPTAlmRecord with flag := 0 } }
      w.fPTAlmRecord.terminatePart
  else sendGenerate h dataFlag (toOlder h w)

/-- `nPTAlarm_DataInfo`, without data for an unknown command. -/
def nPTAlarmDataInfo (command : UInt8) (w : PTAlmStatics) : PTAlmStatics × Option (List UInt8) :=
  if command = 0x00 then (sendNewest h dataFlag w).map id some
  else if command = 0x01 then (sendNext h dataFlag w).map id some
  else if command = 0x02 then (resend h dataFlag w).map id some
  else (w, none)

end handler

/-! ## What a walk has to deliver -/

/-- Each record by its generation, and by its termination once it has
one. -/
def deliveries (rs : List AlmRecord) : List (List UInt8) :=
  rs.flatMap fun r =>
    r.generatePart :: if r.flag = terminateFlag then [r.terminatePart] else []

/-- What the PC has to be sent, request by request. An empty history is
one reply of zeros. -/
def expected (rs : List AlmRecord) : List (List UInt8) :=
  if rs = [] then [List.replicate 7 0] else deliveries rs

/-- The handler as a server of the walk. -/
def almServer (h : HistoryRing) (dataFlag : UInt8) : Server PTAlmStatics (List UInt8) where
  first w := (nPTAlarmDataInfo h dataFlag 0x00 w).map id (·.getD [])
  next w := (nPTAlarmDataInfo h dataFlag 0x01 w).map id (·.getD [])
  again w := (nPTAlarmDataInfo h dataFlag 0x02 w).map id (·.getD [])

/-- The reply carries delivery `j`, and its first byte is 1 exactly on the
last one. -/
def Shows (dataFlag : UInt8) (L : List (List UInt8)) (j : Nat) (reply : List UInt8) : Prop :=
  ∃ lastFlag, reply = [lastFlag, dataFlag] ++ L.getD j [] ∧ (lastFlag = 1 ↔ j + 1 = L.length)

/-- **The walk is right**: after `0x00` and any requests that stay within
the deliveries, the reply is the one the requests have moved to. -/
def WalksRight (h : HistoryRing) (dataFlag : UInt8) (w : PTAlmStatics) : Prop :=
  ∀ as, cursor as < (expected h.records).length →
    Shows dataFlag (expected h.records) (cursor as) ((almServer h dataFlag).walk w as).2

/-- From which statics a walk over the ring is right. -/
def Walkable (h : HistoryRing) (w : PTAlmStatics) : Prop :=
  h.records = [] ∨ (w.noneFlag ≠ 1 ∧ (∀ r ∈ h.records, r.flag ≠ terminateFlag) ∧
    if h.records.length = 1 then w.lastFlag = 1
    else w.lastFlag ≠ 1 ∧ ¬ (h.relate.fullFlag = 1 ∧ h.relate.almIndex = 499))

/-! ## The slots of the ring -/

section slots

variable {h : PTAlmRelate}

theorem length_ringSlots (hi : h.almIndex < ptAlmItem) : (ringSlots h).length =
    if h.fullFlag = 0 then h.almIndex else ptAlmItem := by
  simp only [ringSlots, List.length_append, length_below]
  split
  · rfl
  · rw [length_above]
    omega

/-- The slot of the `j`-th most recent record: from the index down, and then
from the end of a full ring. -/
theorem getElem?_ringSlots (hi : h.almIndex < ptAlmItem) {j : Nat} : (ringSlots h)[j]? =
    if j < h.almIndex then some (h.almIndex - 1 - j)
    else if h.fullFlag ≠ 0 ∧ j < ptAlmItem then some (ptAlmItem - 1 - (j - h.almIndex))
    else none := by
  unfold ringSlots
  by_cases hj : j < h.almIndex
  · rw [if_pos hj, List.getElem?_append_left (by simpa using hj), below,
      List.getElem?_reverse (by simpa using hj), List.length_range,
      List.getElem?_range (by omega)]
  · rw [if_neg hj, List.getElem?_append_right (by simpa using hj), length_below]
    by_cases hf : h.fullFlag = 0
    · simp [hf]
    · rw [if_neg hf]
      by_cases hj' : j < ptAlmItem
      · rw [if_pos ⟨hf, hj'⟩, above, List.getElem?_reverse (by simp; omega), List.length_range',
          List.getElem?_range' (by omega)]
        exact congrArg some (by omega)
      · rw [if_neg fun hc => hj' hc.2]
        exact List.getElem?_eq_none (by rw [length_above]; omega)

end slots

/-! ## Where the cursor stands -/

variable {h : HistoryRing} {dataFlag : UInt8} {w : PTAlmStatics} {j : Nat}

/-- The slot of the `j`-th record. -/
def HistoryRing.slotAt (h : HistoryRing) (j : Nat) : Nat :=
  if j < h.relate.almIndex then h.relate.almIndex - 1 - j
  else ptAlmItem - 1 - (j - h.relate.almIndex)

theorem HistoryRing.length_records : h.records.length =
    if h.relate.fullFlag = 0 then h.relate.almIndex else ptAlmItem := by
  rw [records, List.length_map]
  exact length_ringSlots h.almIndex_lt

/-- Past its index the ring has records only when it is full. -/
theorem HistoryRing.full_of_le (hi : h.relate.almIndex ≤ j) (hj : j < h.records.length) :
    h.relate.fullFlag = 1 := by
  have hlen := h.length_records
  rcases h.flag_bit with h0 | h1
  · rw [if_pos h0] at hlen
    omega
  · exact h1

theorem HistoryRing.getElem?_slots (hj : j < h.records.length) :
    (ringSlots h.relate)[j]? = some (h.slotAt j) := by
  have hlen := h.length_records
  rw [getElem?_ringSlots h.almIndex_lt, slotAt]
  by_cases hi : j < h.relate.almIndex
  · rw [if_pos hi, if_pos hi]
  · have hfull := full_of_le (by omega) hj
    rw [hfull, if_neg (by decide)] at hlen
    rw [if_neg hi, if_neg hi, if_pos ⟨by rw [hfull]; decide, by omega⟩]

theorem HistoryRing.getElem?_records (hj : j < h.records.length) :
    h.records[j]? = some (slot h.fram (h.slotAt j)) := by
  rw [records, List.getElem?_map, getElem?_slots hj]
  rfl

theorem toNewest_eq (hn : 0 < h.records.length) :
    toNewest h w = { w with sendIndex := h.slotAt 0 } := by
  unfold toNewest HistoryRing.slotAt
  by_cases hi : 0 < h.relate.almIndex
  · rw [if_pos hi, if_pos hi]
    rfl
  · rw [if_neg hi, if_neg hi, if_pos (HistoryRing.full_of_le (by omega) hn)]
    simp

/-- The next record lies one slot down, or the slots wrap. -/
theorem HistoryRing.slotAt_succ (hj : j + 1 < h.records.length) :
    h.slotAt j = h.slotAt (j + 1) + 1 ∨
      (h.relate.fullFlag = 1 ∧ j + 1 = h.relate.almIndex ∧ h.slotAt j = 0 ∧
        h.slotAt (j + 1) = ptAlmItem - 1) := by
  have hlen := h.length_records
  have hlt := h.almIndex_lt
  have hitem : ptAlmItem = 500 := rfl
  by_cases hwrap : j + 1 = h.relate.almIndex
  · refine .inr ⟨full_of_le hwrap.ge hj, hwrap, ?_, ?_⟩
    · rw [slotAt, if_pos (by omega)]
      omega
    · rw [slotAt, if_neg (by omega)]
      omega
  · left
    have hle : h.records.length ≤ ptAlmItem := by
      rw [hlen]
      split <;> omega
    unfold slotAt
    split <;> split <;> omega

/-- A step down arrives where the flag is set exactly at the last record,
but for a full ring with the index at 499, whose last record is in slot
499. -/
theorem HistoryRing.arrives_iff (hj : j + 1 < h.records.length)
    (hdown : h.slotAt j = h.slotAt (j + 1) + 1) :
    ((h.relate.fullFlag = 0 ∧ h.slotAt (j + 1) = 0) ∨ h.slotAt (j + 1) = h.relate.almIndex) ↔
      (j + 2 = h.records.length ∧ ¬ (h.relate.fullFlag = 1 ∧ h.relate.almIndex = 499)) := by
  have hlen := h.length_records
  have hlt := h.almIndex_lt
  have hitem : ptAlmItem = 500 := rfl
  have hbits : ¬ (1 : UInt8) = 0 ∧ ¬ (0 : UInt8) = 1 := by decide
  unfold slotAt at hdown ⊢
  rcases h.flag_bit with h0 | h1
  · rw [if_pos h0] at hlen
    rw [h0, if_pos (by omega)]
    simp only [hbits, true_and, false_and, not_false_eq_true, and_true]
    omega
  · rw [h1, if_neg hbits.1] at hlen
    rw [h1]
    simp only [hbits, false_and, false_or, true_and]
    split at hdown <;> split at hdown <;> simp only [*, if_true, if_false] <;> omega

/-- The cursor moves from one record to the next. It notices its arrival
at the last one, but not where it gets there by wrapping. -/
theorem toOlder_eq (hj : j + 1 < h.records.length) (hs : w.sendIndex = h.slotAt j) :
    toOlder h w = { w with
      sendIndex := h.slotAt (j + 1)
      lastFlag := if j + 2 = h.records.length ∧
          ¬ (h.relate.fullFlag = 1 ∧ h.relate.almIndex = 499) then 1 else w.lastFlag } := by
  unfold toOlder
  rcases HistoryRing.slotAt_succ hj with hdown | ⟨hfull, hidx, h0, hnext⟩
  · rw [if_pos (by omega), show w.sendIndex - 1 = h.slotAt (j + 1) by omega, arrive]
    simp only [HistoryRing.arrives_iff hj hdown]
  · -- from slot 0 the cursor wraps, and the flag is left alone
    have hlen := h.length_records
    have hno : ¬ (j + 2 = h.records.length ∧
        ¬ (h.relate.fullFlag = 1 ∧ h.relate.almIndex = 499)) := by
      rintro ⟨hend, hwrap⟩
      rw [hfull, if_neg (by decide)] at hlen
      have hitem : ptAlmItem = 500 := rfl
      exact hwrap ⟨hfull, by omega⟩
    rw [if_neg (by omega), if_pos hfull, if_neg hno, hnext]

/-- The statics stand on the `j`-th record: the cursor on its slot, the
record loaded, and no empty history remembered. -/
structure Located (h : HistoryRing) (j : Nat) (w : PTAlmStatics) : Prop where
  sendIndex : w.sendIndex = h.slotAt j
  loaded : w.fPTAlmRecord = slot h.fram (h.slotAt j)
  noneFlag : w.noneFlag ≠ 1

/-- The statics, loaded with the `j`-th record. -/
def standOn (h : HistoryRing) (j : Nat) (lastFlag : UInt8) (w : PTAlmStatics) : PTAlmStatics :=
  { w with
    fPTAlmRecord := slot h.fram (h.slotAt j)
    lastFlag := lastFlag
    sendIndex := h.slotAt j }

theorem located_standOn {lastFlag : UInt8} (hw : w.noneFlag ≠ 1) :
    Located h j (standOn h j lastFlag w) := ⟨rfl, rfl, hw⟩

theorem Located.standOn_eq (hl : Located h j w) : standOn h j w.lastFlag w = w := by
  rw [standOn, ← hl.loaded, ← hl.sendIndex]

/-- The flag byte and the generation of the `j`-th record. -/
def generateReply (h : HistoryRing) (dataFlag : UInt8) (j : Nat) (lastFlag : UInt8) : List UInt8 :=
  [lastFlag, dataFlag] ++ (slot h.fram (h.slotAt j)).generatePart

theorem sendNewest_eq (hn : 0 < h.records.length) (hw : w.noneFlag ≠ 1) :
    sendNewest h dataFlag w =
      (standOn h 0 w.lastFlag w, generateReply h dataFlag 0 w.lastFlag) := by
  rw [sendNewest, toNewest_eq hn, resend, if_neg hw]
  rfl

theorem resend_eq (hl : Located h j w) :
    resend h dataFlag w = (w, generateReply h dataFlag j w.lastFlag) := by
  have hsend : resend h dataFlag w =
      (standOn h j w.lastFlag w, generateReply h dataFlag j w.lastFlag) := by
    rw [resend, if_neg hl.noneFlag, sendGenerate, standOn, generateReply, ← hl.sendIndex]
    rfl
  rw [hsend, hl.standOn_eq]

/-- From an open record the next request moves on. -/
theorem sendNext_open (hl : Located h j w) (hj : j + 1 < h.records.length)
    (ho : (slot h.fram (h.slotAt j)).flag ≠ terminateFlag) :
    let lastFlag := if j + 2 = h.records.length ∧
        ¬ (h.relate.fullFlag = 1 ∧ h.relate.almIndex = 499) then 1 else w.lastFlag
    sendNext h dataFlag w =
      (standOn h (j + 1) lastFlag w, generateReply h dataFlag (j + 1) lastFlag) := by
  intro lastFlag
  rw [sendNext, hl.loaded, if_neg ho, toOlder_eq hj hl.sendIndex]
  rfl

/-- From a terminated one it sends the termination, and asking again goes
back to where it stood. -/
theorem again_next_terminated (hl : Located h j w)
    (ht : (slot h.fram (h.slotAt j)).flag = terminateFlag) :
    (resend h dataFlag (sendNext h dataFlag w).1).1 = w := by
  have hback : (resend h dataFlag (sendNext h dataFlag w).1).1 = standOn h j w.lastFlag w := by
    rw [sendNext, if_pos (by rw [hl.loaded, ht]), resend, almInfo, if_neg hl.noneFlag, sendGenerate,
      hl.sendIndex, standOn, ← hl.sendIndex]
    rfl
  rw [hback, hl.standOn_eq]

/-! ## Walks over open records -/

/-- The deliveries of open records are their generations. -/
theorem deliveries_of_open {rs : List AlmRecord} (ho : ∀ r ∈ rs, r.flag ≠ terminateFlag) :
    deliveries rs = rs.map AlmRecord.generatePart := by
  unfold deliveries
  rw [List.map_eq_flatMap]
  exact List.flatMap_congr fun r hr => by rw [if_neg (ho r hr)]

theorem expected_of_open (hn : 0 < h.records.length)
    (ho : ∀ r ∈ h.records, r.flag ≠ terminateFlag) :
    expected h.records = h.records.map AlmRecord.generatePart := by
  unfold expected
  rw [if_neg (List.ne_nil_of_length_pos hn), deliveries_of_open ho]

theorem getD_expected_of_open (hj : j < h.records.length)
    (ho : ∀ r ∈ h.records, r.flag ≠ terminateFlag) :
    (expected h.records).getD j [] = (slot h.fram (h.slotAt j)).generatePart := by
  rw [expected_of_open (by omega) ho, List.getD_eq_getElem?_getD, List.getElem?_map,
    HistoryRing.getElem?_records hj]
  rfl

/-- A stored record that is open is so in its slot. -/
theorem open_slot (hj : j < h.records.length) (ho : ∀ r ∈ h.records, r.flag ≠ terminateFlag) :
    (slot h.fram (h.slotAt j)).flag ≠ terminateFlag :=
  ho _ (List.mem_of_getElem? (HistoryRing.getElem?_records hj))

/-- What holds along a walk over the first `n` records, when those before
the last of them are open: the statics stand on the record under the
cursor, and the flag is the old one until the last record is reached by a
step down. -/
def Standing (h : HistoryRing) (dataFlag lastFlag : UInt8) (j : Nat)
    (p : PTAlmStatics × List UInt8) : Prop :=
  Located h j p.1 ∧ p.2 = generateReply h dataFlag j p.1.lastFlag ∧
  p.1.lastFlag = if 0 < j ∧ j + 1 = h.records.length ∧
    ¬ (h.relate.fullFlag = 1 ∧ h.relate.almIndex = 499) then 1 else lastFlag

theorem standing_walk {n : Nat} (hle : n ≤ h.records.length) (hw : w.noneFlag ≠ 1)
    (ho : ∀ j, j + 1 < n → (slot h.fram (h.slotAt j)).flag ≠ terminateFlag) (as : List Ask)
    (has : cursor as < n) :
    Standing h dataFlag w.lastFlag (cursor as) ((almServer h dataFlag).walk w as) := by
  refine walk_invariant ?_ ?_ ?_ as has
  · change Standing h dataFlag w.lastFlag 0 (sendNewest h dataFlag w)
    rw [sendNewest_eq (by omega) hw]
    exact ⟨located_standOn hw, rfl, (if_neg (by omega)).symm⟩
  · rintro j ⟨w', reply⟩ hj ⟨hl, -, hf⟩
    change Standing h dataFlag w.lastFlag (j + 1) (sendNext h dataFlag w')
    rw [sendNext_open hl (by omega) (ho j hj)]
    refine ⟨located_standOn hl.noneFlag, rfl, ?_⟩
    have hold : w'.lastFlag = w.lastFlag := hf.trans (if_neg fun hc => by have := hc.2.1; omega)
    change (if _ then 1 else w'.lastFlag) = _
    simp only [hold, Nat.zero_lt_succ, true_and]
  · rintro j ⟨w', reply⟩ hj ⟨hl, -, hf⟩
    change Standing h dataFlag w.lastFlag j (resend h dataFlag w')
    rw [resend_eq hl]
    exact ⟨hl, rfl, hf⟩

/-- The reply of an empty history, and the flags it leaves behind. -/
def SentZeros (dataFlag : UInt8) (p : PTAlmStatics × List UInt8) : Prop :=
  p.1.noneFlag = 1 ∧ p.1.lastFlag = 1 ∧ p.2 = [1, dataFlag] ++ List.replicate 7 0

/-- A walk over an empty history sends its zeros again and again. -/
theorem walksRight_empty (he : h.records = []) : WalksRight h dataFlag w := by
  have hlen := h.length_records
  have hlt := h.almIndex_lt
  have hfull : h.relate.fullFlag = 0 := by
    by_contra hf
    rw [he, if_neg hf] at hlen
    exact absurd hlen (by decide)
  have hidx : h.relate.almIndex = 0 := by
    rw [he, if_pos hfull] at hlen
    exact hlen.symm
  have hexp : expected h.records = [List.replicate 7 0] := if_pos he
  have hzeros : ∀ as, cursor as < 1 → SentZeros dataFlag ((almServer h dataFlag).walk w as) := by
    refine fun as has => walk_invariant (I := fun _ => SentZeros dataFlag) ?_
      (fun j p hj => by omega) ?_ as has
    · have hnew : toNewest h w = { w with lastFlag := 1, noneFlag := 1 } := by
        rw [toNewest, if_neg (by omega), hfull, if_neg (by decide)]
      change SentZeros dataFlag (sendNewest h dataFlag w)
      rw [sendNewest, hnew, resend, if_pos rfl]
      exact ⟨rfl, rfl, rfl⟩
    · rintro j ⟨w', reply⟩ - ⟨hn, hl, -⟩
      change SentZeros dataFlag (resend h dataFlag w')
      rw [resend, if_pos hn, almInfo, hl]
      exact ⟨hn, hl, rfl⟩
  intro as has
  rw [hexp] at has ⊢
  have hc : cursor as = 0 := Nat.lt_one_iff.1 has
  refine ⟨1, ?_, by rw [hc]; simp⟩
  rw [(hzeros as has).2.2, hc]
  rfl

/-- A walk over open records is right when its flag starts out right and
the last record is not reached by wrapping. -/
theorem walksRight_open (hn : 0 < h.records.length) (hw : w.noneFlag ≠ 1)
    (ho : ∀ r ∈ h.records, r.flag ≠ terminateFlag)
    (hf : if h.records.length = 1 then w.lastFlag = 1
      else w.lastFlag ≠ 1 ∧ ¬ (h.relate.fullFlag = 1 ∧ h.relate.almIndex = 499)) :
    WalksRight h dataFlag w := by
  have hlen : (expected h.records).length = h.records.length := by
    rw [expected_of_open hn ho, List.length_map]
  intro as has
  rw [hlen] at has
  obtain ⟨-, hr, hlast⟩ : Standing h dataFlag w.lastFlag (cursor as) _ :=
    standing_walk le_rfl hw (fun j hj => open_slot (by omega) ho) as has
  refine ⟨((almServer h dataFlag).walk w as).1.lastFlag, ?_, ?_⟩
  · rw [hr, generateReply, getD_expected_of_open has ho]
  · rw [hlen, hlast]
    by_cases h1 : h.records.length = 1
    · rw [if_pos h1] at hf
      rw [if_neg fun hc => by have := hc.1; omega]
      exact iff_of_true hf (by omega)
    · rw [if_neg h1] at hf
      by_cases hend : cursor as + 1 = h.records.length
      · rw [if_pos ⟨by omega, hend, hf.2⟩]
        exact iff_of_true rfl hend
      · rw [if_neg fun hc => hend hc.2.1]
        exact iff_of_false hf.1 hend

/-! ## What a right walk needs -/

theorem getD_expected_zero (hn : 0 < h.records.length) :
    (expected h.records).getD 0 [] = (slot h.fram (h.slotAt 0)).generatePart := by
  have h0 := HistoryRing.getElem?_records hn
  obtain ⟨r, rs, hrs⟩ := List.exists_cons_of_length_pos hn
  rw [hrs] at h0 ⊢
  cases h0
  rfl

theorem length_deliveries (rs : List AlmRecord) :
    (deliveries rs).length = rs.length + rs.countP (·.flag = terminateFlag) := by
  induction rs with
  | nil => rfl
  | cons r rs ih =>
    have hcons : deliveries (r :: rs) =
        (r.generatePart :: if r.flag = terminateFlag then [r.terminatePart] else []) ++
          deliveries rs := rfl
    rw [hcons, List.length_append, ih, List.length_cons, List.length_cons, List.countP_cons]
    by_cases h : r.flag = terminateFlag <;> simp [h] <;> omega

theorem length_expected (hn : 0 < h.records.length) :
    (expected h.records).length =
      h.records.length + h.records.countP (·.flag = terminateFlag) := by
  rw [expected, if_neg (List.ne_nil_of_length_pos hn), length_deliveries]

/-- After an empty history was met once, the first reply is zeros, and no
record with a date looks like that. -/
theorem WalksRight.noneFlag (hr : WalksRight h dataFlag w) (hd : h.Dated)
    (hn : 0 < h.records.length) : w.noneFlag ≠ 1 := by
  intro hw
  have hlen := length_expected hn
  obtain ⟨lf, hreply, -⟩ := hr [] (show 0 < _ by omega)
  change (sendNewest h dataFlag w).2 = [lf, dataFlag] ++ (expected h.records).getD 0 [] at hreply
  rw [sendNewest, toNewest_eq hn, resend, if_pos hw, almInfo, getD_expected_zero hn] at hreply
  simp only [AlmRecord.generatePart, AlmRecord.part, List.replicate, List.cons_append,
    List.nil_append, List.cons.injEq, and_true] at hreply
  obtain ⟨-, -, hmonth, hdate, -⟩ := hreply
  rcases hd _ (List.mem_of_getElem? (HistoryRing.getElem?_slots hn)) with hne | hne
  · exact hne hmonth.symm
  · exact hne hdate.symm

/-- The first byte of a reply is the flag the statics hold. -/
theorem head?_walk (as : List Ask) : ((almServer h dataFlag).walk w as).2.head? =
    some ((almServer h dataFlag).walk w as).1.lastFlag := by
  have hagain (w : PTAlmStatics) :
      (resend h dataFlag w).2.head? = some (resend h dataFlag w).1.lastFlag := by
    unfold resend
    split <;> rfl
  have hnext (w : PTAlmStatics) :
      (sendNext h dataFlag w).2.head? = some (sendNext h dataFlag w).1.lastFlag := by
    unfold sendNext
    split <;> rfl
  induction as using List.reverseRecOn with
  | nil => exact hagain _
  | append_singleton as a ih =>
    rw [walk_concat]
    cases a with
    | next => exact hnext _
    | again => exact hagain _

/-- So the statics of a right walk hold 1 exactly at its end. -/
theorem WalksRight.lastFlag (hr : WalksRight h dataFlag w) (as : List Ask)
    (has : cursor as < (expected h.records).length) :
    ((almServer h dataFlag).walk w as).1.lastFlag = 1 ↔
      cursor as + 1 = (expected h.records).length := by
  obtain ⟨lf, hreply, hlf⟩ := hr as has
  have hhead : ((almServer h dataFlag).walk w as).2.head? = _ := head?_walk as
  rw [hreply] at hhead
  cases hhead
  exact hlf

/-- The newest terminated record: the walk reaches it over open ones. -/
theorem exists_newest_terminated {r : AlmRecord} (hmem : r ∈ h.records)
    (ht : r.flag = terminateFlag) :
    ∃ p < h.records.length, (slot h.fram (h.slotAt p)).flag = terminateFlag ∧
      ∀ j, j + 1 < p + 1 → (slot h.fram (h.slotAt j)).flag ≠ terminateFlag := by
  obtain ⟨k, hk, hkr⟩ := List.mem_iff_getElem.1 hmem
  have hex : ∃ j, j < h.records.length ∧ (slot h.fram (h.slotAt j)).flag = terminateFlag := by
    refine ⟨k, hk, ?_⟩
    have hslot := HistoryRing.getElem?_records hk
    rw [List.getElem?_eq_getElem hk, hkr] at hslot
    cases hslot
    exact ht
  obtain ⟨hp, hpt⟩ := Nat.find_spec hex
  refine ⟨Nat.find hex, hp, hpt, ?_⟩
  intro j hj ht
  exact Nat.find_min hex (by omega) ⟨by omega, ht⟩

/-- **No terminated record.** Asking again after a termination goes back to
the generation, so that the same number of `0x01` ends one delivery
earlier, with the flag as it would have been. -/
theorem WalksRight.open (hr : WalksRight h dataFlag w) (hd : h.Dated)
    (hn : 0 < h.records.length) : ∀ r ∈ h.records, r.flag ≠ terminateFlag := by
  intro r hmem ht
  have hlen := length_expected hn
  have hcount : 0 < h.records.countP (·.flag = terminateFlag) :=
    List.countP_pos_iff.2 ⟨r, hmem, by simpa using ht⟩
  obtain ⟨p, hp, hpt, hbefore⟩ := exists_newest_terminated hmem ht
  have hstand : Standing h dataFlag w.lastFlag _ _ :=
    standing_walk (Nat.succ_le_of_lt hp) (hr.noneFlag hd hn) hbefore (List.replicate p .next)
      (by rw [cursor_replicate]; omega)
  rw [cursor_replicate] at hstand
  let rest := List.replicate ((expected h.records).length - 2 - p) Ask.next
  have hback := walk_detour (m := almServer h dataFlag) (s := w) rest
    (again_next_terminated hstand.1 hpt)
  have hshort : cursor (List.replicate p .next ++ rest) = (expected h.records).length - 2 := by
    rw [cursor_append, cursor_replicate, cursor_replicate]
    omega
  have hlong : cursor (List.replicate p .next ++ [.next, .again] ++ rest) =
      (expected h.records).length - 1 := by
    rw [cursor_append, cursor_append, cursor_replicate, cursor_replicate,
      show cursor [.next, .again] = 1 from rfl]
    omega
  -- with the detour the walk has come to its end, without it not yet
  have hend := (hr.lastFlag (List.replicate p .next ++ [.next, .again] ++ rest) (by omega)).2
    (by omega)
  have hnot := hr.lastFlag (List.replicate p .next ++ rest) (by omega)
  rw [← hback, hend, hshort] at hnot
  have := hnot.1 rfl
  omega

/-- **What a right walk needs of the statics.** -/
theorem WalksRight.walkable (hr : WalksRight h dataFlag w) (hd : h.Dated) : Walkable h w := by
  rcases Nat.eq_zero_or_pos h.records.length with h0 | hn
  · exact .inl (List.eq_nil_of_length_eq_zero h0)
  have hw := hr.noneFlag hd hn
  have ho := hr.open hd hn
  have hlen : (expected h.records).length = h.records.length := by
    rw [expected_of_open hn ho, List.length_map]
  have hfirst : w.lastFlag = 1 ↔ 0 + 1 = h.records.length := by
    have hflag : (sendNewest h dataFlag w).1.lastFlag = 1 ↔ 0 + 1 = (expected h.records).length :=
      hr.lastFlag [] (show 0 < _ by omega)
    rwa [sendNewest_eq hn hw, hlen] at hflag
  refine .inr ⟨hw, ho, ?_⟩
  split
  · exact hfirst.2 (by omega)
  · have hne : w.lastFlag ≠ 1 := fun h1 => by have := hfirst.1 h1; omega
    refine ⟨hne, fun hwrap => hne ?_⟩
    -- arriving by the wrap, the walk ends with the flag it started with
    have hc : cursor (List.replicate (h.records.length - 1) .next) = h.records.length - 1 :=
      cursor_replicate _
    have hstand : Standing h dataFlag w.lastFlag _ _ :=
      standing_walk le_rfl hw (fun j hj => open_slot (by omega) ho)
        (List.replicate (h.records.length - 1) .next) (by omega)
    have hlast := (hr.lastFlag (List.replicate (h.records.length - 1) .next) (by omega)).2
      (by omega)
    rw [← hlast, hstand.2.2, if_neg fun hc => hc.2.2 hwrap]

/-- **The walk over the history.** It is right, whatever the requests,
exactly from the statics that are walkable. -/
theorem walksRight_iff (h : DatedRing) (dataFlag : UInt8) (w : PTAlmStatics) :
    WalksRight h.toHistoryRing dataFlag w ↔ Walkable h.toHistoryRing w := by
  refine ⟨fun hr => hr.walkable h.dated, ?_⟩
  rintro (he | ⟨hw, ho, hf⟩)
  · exact walksRight_empty he
  · rcases Nat.eq_zero_or_pos h.records.length with h0 | hn
    · exact walksRight_empty (List.eq_nil_of_length_eq_zero h0)
    · exact walksRight_open hn hw ho hf

/-! ## Where the histories come from -/

/-- An operation on the history at a date. -/
def HistOp.Dated : HistOp → Prop
  | .generate _ now => now.Dated
  | _ => True

theorem dated_closeNewest {e : UInt8} {now : Stamp} {rs : List AlmRecord}
    (h : ∀ r ∈ rs, r.generate.Dated) : ∀ r ∈ closeNewest e now rs, r.generate.Dated := by
  induction rs with
  | nil => exact h
  | cons a rs ih =>
    obtain ⟨ha, hrs⟩ := List.forall_mem_cons.1 h
    by_cases he : a.almEvent = e
    · rw [closeNewest_cons_self he]
      exact List.forall_mem_cons.2 ⟨ha, hrs⟩
    · rw [closeNewest_cons_of_ne he]
      exact List.forall_mem_cons.2 ⟨ha, ih hrs⟩

theorem dated_step {l : Log} {op : HistOp} (h : ∀ r ∈ l.recs, r.generate.Dated) (hop : op.Dated) :
    ∀ r ∈ (l.step op).recs, r.generate.Dated := by
  cases op with
  | generate r now =>
    intro r' hr'
    rcases List.mem_cons.1 (List.mem_of_mem_take hr') with rfl | hr'
    · exact hop
    · exact h r' hr'
  | terminate e now => exact dated_closeNewest h
  | clear => exact fun _ hr => absurd hr List.not_mem_nil
  | restart => exact h

/-- The log of a run has the dates of its operations, whatever the types of
the alarms. -/
theorem dated_run {ops : List HistOp} (hops : ∀ op ∈ ops, op.Dated) :
    ∀ r ∈ (run Log.step ⟨0, []⟩ ops).recs, r.generate.Dated := by
  induction ops using List.reverseRecOn with
  | nil => exact fun _ hr => absurd hr List.not_mem_nil
  | append_singleton ops op ih =>
    rw [run_append]
    exact dated_step (ih fun o ho => hops o (List.mem_append_left _ ho))
      (hops op (List.mem_append_right _ List.mem_cons_self))

/-- A right history, as the PC walks over it. -/
def HistoryCorrect.ring {base : Mem} {s : AlmState} {l : Log} (h : HistoryCorrect base s l) :
    HistoryRing where
  fram := s.fram
  relate := s.gPTAlmRelate
  almIndex_lt := h.almIndex_lt
  flag_bit := h.flag_bit

/-- **What a walk delivers is the log.** -/
theorem HistoryCorrect.records_ring {base : Mem} {s : AlmState} {l : Log}
    (h : HistoryCorrect base s l) : h.ring.records = l.recs := h.records

/-- The ring after a run on a clock that shows dates. -/
def runRing {base : Mem} (hf : Fresh base) {ops : List HistOp}
    (hok : Meets AlmState.histStep HistOk (.powerUp base) ops) (hops : ∀ op ∈ ops, op.Dated) :
    DatedRing where
  toHistoryRing := (represents_run hf hok).correct.ring
  dated _ hi := dated_run hops _ ((represents_run hf hok).correct.records ▸
    List.mem_map_of_mem hi)

theorem records_runRing {base : Mem} (hf : Fresh base) {ops : List HistOp}
    (hok : Meets AlmState.histStep HistOk (.powerUp base) ops) (hops : ∀ op ∈ ops, op.Dated) :
    (runRing hf hok hops).records = (run Log.step ⟨0, []⟩ ops).recs :=
  (represents_run hf hok).correct.records_ring

/-- The statics after a reset. -/
def freshStatics : PTAlmStatics := ⟨default, 0, 0, 0⟩

/-- An alarm of the first of January that is still on. -/
def openAlarm : AlmRecord :=
  { (default : AlmRecord) with
    flag := generateFlag, almType := 2, generate := { (default : Stamp) with month := 1, date := 1 } }

/-- A history of one alarm, and one of two. -/
def oneAlarm : DatedRing where
  fram := Mem.write (fun _ => 0) (slotAddr 0) openAlarm.toBytes
  relate := ⟨0, 1⟩
  almIndex_lt := by decide
  flag_bit := .inl rfl
  dated := by decide +kernel

def twoAlarms : DatedRing where
  fram := (Mem.write (fun _ => 0) (slotAddr 0) openAlarm.toBytes).write (slotAddr 1)
    openAlarm.toBytes
  relate := ⟨0, 2⟩
  almIndex_lt := by decide
  flag_bit := .inl rfl
  dated := by decide +kernel

/-- After a reset the only alarm is not marked as the last one; and the
second walk over two alarms marks the first of them. -/
theorem walks_wrong :
    ¬ WalksRight oneAlarm.toHistoryRing 0 freshStatics ∧
    ¬ WalksRight twoAlarms.toHistoryRing 0
      ((almServer twoAlarms.toHistoryRing 0).walk freshStatics [.next]).1 := by
  constructor
  · intro hr
    exact absurd (hr.lastFlag [] (by decide +kernel)) (by decide +kernel)
  · intro hr
    exact absurd (hr.lastFlag [] (by decide +kernel)) (by decide +kernel)

end BusMonitor
