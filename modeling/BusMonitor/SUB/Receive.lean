import BusMonitor.SUB.BranchState
import BusMonitor.SUB.Crc16
/-!
# Frames from the modules

`SUB_Receive` of `app_SUBProto.c`. A module answers with ten bytes: a
header, its number, a byte that is not looked at, five bytes of switches
and the CRC. The number selects the place in the receive record, and only
its lower bound is checked. `receives_right_iff` says which inputs the
routine gets right.
-/


namespace BusMonitor

open Mem

/-! ## The routine -/

/-- `ucSUB_SWRec`, `ucSUB_SWold` and `IOChangeFlag`. The arrays are the
bytes below 20; at the other addresses is what lies behind them. -/
structure SubReceiver where
  ucSUBSWRec : Mem
  ucSUBSWold : Mem
  ioChangeFlag : UInt8

/-- What a call leaves: what it returns, its stores into the two arrays,
and the flag. -/
structure Reception where
  ret : UInt8
  recStores : List Store
  oldStores : List Store
  ioChangeFlag : UInt8

/-- `usCRC_Rec`, in the byte order of the processor. -/
def usCRCRec (pData : Nat → UInt8) : UInt16 := ((pData 9).toUInt16 <<< 8) ||| (pData 8).toUInt16

/-- `m`, in eight bits. -/
def frameModule (pData : Nat → UInt8) : Nat := (pData 1 - 0x09).toNat

/-- The five bytes of switches, at their place in the record. -/
def recStores (pData : Nat → UInt8) : List Store :=
  (List.range 5).map fun j => ⟨frameModule pData * 5 + j, [pData (3 + j)]⟩

/-- What is copied into `ucSUB_SWold`: one byte a round, at `i*5+i`. -/
def copyStores (swRec : Mem) : List Store :=
  (List.range 5).map fun i => ⟨i * 5 + i, [swRec (i * 5 + i)]⟩

/-- The bit of a module in `IOChangeFlag`. -/
def changeBit (m : Nat) : UInt8 :=
  match m with
  | 0 => 0x01
  | 1 => 0x02
  | 2 => 0x04
  | 3 => 0x08
  | _ => 0x00

namespace SubReceiver

variable (s : SubReceiver)

/-- A failed call. -/
def failed : Reception := ⟨1, [], [], s.ioChangeFlag⟩

/-- The frame is stored. The comparison goes byte by byte and stops at the
first difference. -/
def stored (pData : Nat → UInt8) : Reception :=
  let m := frameModule pData
  let swRec := s.ucSUBSWRec.writeAll (recStores pData)
  if ∃ j < 5, swRec (m * 5 + j) ≠ s.ucSUBSWold (m * 5 + j) then
    ⟨0, recStores pData, copyStores swRec, s.ioChangeFlag ||| changeBit m⟩
  else ⟨0, recStores pData, [], s.ioChangeFlag⟩

/-- `SUB_Receive`. -/
def subReceive (pData : Nat → UInt8) (ucLen : UInt16) : Reception :=
  if ucLen = 10 then
    if pData 0 = 0x02 then
      if crc16 pData 8 = usCRCRec pData then
        if 0x09 ≤ pData 1 then s.stored pData else s.failed
      else s.failed
    else s.failed
  else s.failed

/-- The variables after a call. -/
def after (r : Reception) : SubReceiver where
  ucSUBSWRec := s.ucSUBSWRec.writeAll r.recStores
  ucSUBSWold := s.ucSUBSWold.writeAll r.oldStores
  ioChangeFlag := r.ioChangeFlag

end SubReceiver

/-! ## What it is to do -/

/-- The frames that are to be accepted. -/
structure ModuleFrame (pData : Nat → UInt8) (ucLen : UInt16) : Prop where
  len : ucLen = 10
  header : pData 0 = 0x02
  number : 0x09 ≤ pData 1 ∧ pData 1 ≤ 0x0C
  crc : crc16 pData 8 = usCRCRec pData

/-- The switches of the frame are in the record, and no other byte of it
has changed. -/
structure Recorded (pData : Nat → UInt8) (swRec swRec' : Mem) : Prop where
  switches : ∀ j < 5, swRec' (5 * frameModule pData + j) = pData (3 + j)
  others : ∀ a, a < 5 * frameModule pData ∨ 5 * frameModule pData + 5 ≤ a → swRec' a = swRec a

/-- **The reception is right**: the frames that are to be accepted, and no
other input, return 0; they are recorded, and everything else returns 1
and changes nothing. -/
structure ReceivesRight (s : SubReceiver) (pData : Nat → UInt8) (ucLen : UInt16) : Prop where
  accepts : (s.subReceive pData ucLen).ret = 0 ↔ ModuleFrame pData ucLen
  records : ModuleFrame pData ucLen →
    Recorded pData s.ucSUBSWRec (s.after (s.subReceive pData ucLen)).ucSUBSWRec
  refuses : ¬ ModuleFrame pData ucLen →
    (s.subReceive pData ucLen).ret = 1 ∧ s.after (s.subReceive pData ucLen) = s

/-- The frames the routine stores. -/
structure TakenFrame (pData : Nat → UInt8) (ucLen : UInt16) : Prop where
  len : ucLen = 10
  header : pData 0 = 0x02
  crc : crc16 pData 8 = usCRCRec pData
  number : 0x09 ≤ pData 1

/-! ## What it does -/

section spec

variable {s : SubReceiver} {pData : Nat → UInt8} {ucLen : UInt16}

theorem subReceive_of_taken (h : TakenFrame pData ucLen) : s.subReceive pData ucLen = s.stored pData := by
  unfold SubReceiver.subReceive
  rw [if_pos h.len, if_pos h.header, if_pos h.crc, if_pos h.number]

theorem subReceive_of_not_taken (h : ¬ TakenFrame pData ucLen) :
    s.subReceive pData ucLen = s.failed := by
  unfold SubReceiver.subReceive
  split
  · next hlen =>
    split
    · next hheader =>
      split
      · next hcrc => exact if_neg fun hnumber => h ⟨hlen, hheader, hcrc, hnumber⟩
      · rfl
    · rfl
  · rfl

theorem ret_stored : (s.stored pData).ret = 0 := by
  unfold SubReceiver.stored
  dsimp only
  split <;> rfl

theorem recStores_stored : (s.stored pData).recStores = recStores pData := by
  unfold SubReceiver.stored
  dsimp only
  split <;> rfl

theorem ret_eq_zero_iff : (s.subReceive pData ucLen).ret = 0 ↔ TakenFrame pData ucLen := by
  by_cases h : TakenFrame pData ucLen
  · exact iff_of_true (by rw [subReceive_of_taken h, ret_stored]) h
  · refine iff_of_false ?_ h
    rw [subReceive_of_not_taken h]
    exact (by decide : ¬ (1 : UInt8) = 0)

/-- The five stores follow one another. -/
theorem fills_recStores :
    Fills (frameModule pData * 5) (frameModule pData * 5 + 5) (recStores pData) :=
  ⟨rfl, rfl, rfl, rfl, rfl, rfl⟩

/-- **A frame is recorded** at the place of its number, whatever that is. -/
theorem recorded_recStores (swRec : Mem) :
    Recorded pData swRec (swRec.writeAll (recStores pData)) := by
  have hfills : Fills (frameModule pData * 5) (frameModule pData * 5 + 5) (recStores pData) :=
    fills_recStores
  have hread := hfills.read (m := swRec)
  rw [Nat.add_sub_cancel_left] at hread
  constructor
  · intro j hj
    have hbyte := Mem.getD_read (m := swRec.writeAll (recStores pData))
      (a := frameModule pData * 5) hj
    rw [hread] at hbyte
    rw [Nat.mul_comm, ← hbyte]
    obtain rfl | rfl | rfl | rfl | rfl : j = 0 ∨ j = 1 ∨ j = 2 ∨ j = 3 ∨ j = 4 := by omega
    all_goals rfl
  · intro a ha
    exact Mem.writeAll_of_within hfills.within (by omega)

/-- What the routine takes it records. -/
theorem TakenFrame.recorded (h : TakenFrame pData ucLen) :
    Recorded pData s.ucSUBSWRec (s.after (s.subReceive pData ucLen)).ucSUBSWRec := by
  rw [subReceive_of_taken h, SubReceiver.after, recStores_stored]
  exact recorded_recStores _

/-- A failed call leaves everything. -/
theorem after_failed : s.after s.failed = s := rfl

end spec

/-! ## Which inputs it gets right -/

theorem moduleFrame_iff {pData : Nat → UInt8} {ucLen : UInt16} :
    ModuleFrame pData ucLen ↔ TakenFrame pData ucLen ∧ pData 1 ≤ 0x0C := by
  constructor
  · rintro ⟨hlen, hheader, ⟨hlo, hhi⟩, hcrc⟩
    exact ⟨⟨hlen, hheader, hcrc, hlo⟩, hhi⟩
  · rintro ⟨⟨hlen, hheader, hcrc, hlo⟩, hhi⟩
    exact ⟨hlen, hheader, ⟨hlo, hhi⟩, hcrc⟩

/-- **Rejection of sub-module frames.** The reception is right on every
input but the frames with a good header and CRC and a number beyond the
last module. -/
theorem receives_right_iff (s : SubReceiver) (pData : Nat → UInt8) (ucLen : UInt16) :
    ReceivesRight s pData ucLen ↔
      ¬ (ucLen = 10 ∧ pData 0 = 0x02 ∧ crc16 pData 8 = usCRCRec pData ∧ 0x0C < pData 1) := by
  constructor
  · rintro ⟨haccepts, -, -⟩ ⟨hlen, hheader, hcrc, hnumber⟩
    have hlo : 0x09 ≤ pData 1 := UInt8.le_trans (by decide) (UInt8.le_of_lt hnumber)
    have hframe := haccepts.1 (ret_eq_zero_iff.2 ⟨hlen, hheader, hcrc, hlo⟩)
    exact absurd hframe.number.2 (UInt8.not_le.2 hnumber)
  · intro hgood
    have htaken : TakenFrame pData ucLen ↔ ModuleFrame pData ucLen := by
      rw [moduleFrame_iff]
      refine (and_iff_left_of_imp fun h => ?_).symm
      exact UInt8.not_lt.1 fun hnumber => hgood ⟨h.len, h.header, h.crc, hnumber⟩
    refine ⟨ret_eq_zero_iff.trans htaken, fun hframe => (htaken.2 hframe).recorded, ?_⟩
    · intro hframe
      rw [subReceive_of_not_taken (mt htaken.1 hframe)]
      exact ⟨rfl, after_failed⟩

/-- A buffer that holds a frame. -/
def frameOf (bytes : List UInt8) : Nat → UInt8 := fun i => bytes.getD i 0

/-- A frame with the number behind the last one, and its CRC. -/
def moduleThirteen : List UInt8 := [0x02, 0x0D, 0, 0, 0, 0, 0, 0, 0x12, 0x1D]

/-- The number 0x0D is accepted. -/
theorem module_thirteen_accepted :
    ¬ ReceivesRight ⟨fun _ => 0, fun _ => 0, 0⟩ (frameOf moduleThirteen) 10 := by
  intro h
  have hret : (SubReceiver.subReceive ⟨fun _ => 0, fun _ => 0, 0⟩
      (frameOf moduleThirteen) 10).ret = 0 :=
    ret_eq_zero_iff.2 ⟨rfl, rfl, by decide +kernel, by decide⟩
  have hframe := h.accepts.1 hret
  exact absurd hframe.number.2 (by decide)

/-! ## What the branches read of it -/

/-- `ucSUB_SWRec` as `SUB_BranchState` reads it. -/
def SubReceiver.record (s : SubReceiver) : Vector UInt8 20 := .ofFn fun i => s.ucSUBSWRec i

theorem moduleBit_record (s : SubReceiver) {m b : Nat} (hm : m < 4) (hb : b < 40) :
    moduleBit s.record m b =
      (s.ucSUBSWRec (5 * m + b / 8) >>> UInt8.ofNat (b % 8)) &&& 0x01 := by
  have hplace : 5 * m + b / 8 < 20 := by omega
  have hbyte : s.record[5 * m + b / 8]? = some (s.ucSUBSWRec (5 * m + b / 8)) := by
    rw [Vector.getElem?_eq_getElem hplace, SubReceiver.record, Vector.getElem_ofFn]
  rw [moduleBit, hbyte]
  rfl

/-- **A frame reaches its branches**: the bits of its module are those it
carries, and the bits of the other modules are as before. -/
theorem moduleBit_received {s : SubReceiver} {pData : Nat → UInt8} {ucLen : UInt16}
    (h : ModuleFrame pData ucLen) {m b : Nat} (hm : m < 4) (hb : b < 40) :
    moduleBit (s.after (s.subReceive pData ucLen)).record m b =
      if m = frameModule pData then (pData (3 + b / 8) >>> UInt8.ofNat (b % 8)) &&& 0x01
      else moduleBit s.record m b := by
  have hrecorded : Recorded pData s.ucSUBSWRec
      (s.after (s.subReceive pData ucLen)).ucSUBSWRec := (moduleFrame_iff.1 h).1.recorded
  rw [moduleBit_record _ hm hb, moduleBit_record _ hm hb]
  split
  · next hself => rw [hself, hrecorded.switches _ (by omega)]
  · next hother => rw [hrecorded.others _ (by omega)]

end BusMonitor
