import BusMonitor.PC.DataInfo
import BusMonitor.PC.Grammar
import BusMonitor.PC.SetRequest
/-!
# The time there and back

The reply to a get-time request carries a time in seven bytes, and a
set-time frame is to take them back. `gPCProtoHandle` passes a length that
leaves out a command type, which only the other set requests carry, so the
seven bytes are a byte short: `time_never_returns`. With any byte behind
them the time does return (`time_returns_padded`), so that encoder and
decoder agree on everything else.
-/


namespace BusMonitor

open Probe Mem MessageType

/-! ## Valid times -/

/-- The days of a month, with the leap years from 2000 to 2099. -/
def daysIn (year month : UInt8) : UInt8 :=
  if month = 2 then if year % 4 = 0 then 29 else 28
  else if month = 4 ∨ month = 6 ∨ month = 9 ∨ month = 11 then 30 else 31

/-- A date and time of the years 2000 to 2099. -/
structure Stamp.Valid (t : Stamp) : Prop where
  year : t.year ≤ 99
  month : 1 ≤ t.month ∧ t.month ≤ 12
  date : 1 ≤ t.date ∧ t.date ≤ daysIn t.year t.month
  hour : t.hour ≤ 23
  minute : t.minute ≤ 59
  second : t.second ≤ 59

theorem daysIn_le (year month : UInt8) : daysIn year month ≤ 31 := by
  unfold daysIn
  split_ifs <;> decide

/-- The clock has room for a valid time. -/
theorem Stamp.Valid.fits {t : Stamp} (h : t.Valid) : t.Fits := by
  have hdate : t.date ≤ 31 := UInt8.le_trans h.date.2 (daysIn_le _ _)
  exact ⟨UInt8.le_trans h.year (by decide), UInt8.le_trans h.month.2 (by decide),
    UInt8.le_trans hdate (by decide), UInt8.le_trans h.hour (by decide),
    UInt8.le_trans h.minute (by decide), UInt8.le_trans h.second (by decide)⟩

/-! ## Frames with an INFO -/

/-- The bytes of INFO. -/
def MessageType.info (msg : MessageType) : List UInt8 := (msg.hex.drop 6).take msg.infoLen

/-- **A set-time frame**: a command to the address, with CID2 `0x4E` and
the INFO. -/
structure SetsTime (msg : MessageType) (adr : UInt8) (info : List UInt8) : Prop where
  sentence : Sentence adr msg.rxBuffer
  cid2 : msg.decoded 3 = eSetTime
  info : msg.info = info

variable {msg : MessageType} {adr : UInt8} {s : Station} {heap : Int → UInt8} {p : Panel}

theorem ucRxHexBuf_sub {k : Nat} (h8 : 8 ≤ msg.usHexLen.toNat) (hk : 1 ≤ k ∧ k ≤ 8) :
    msg.ucRxHexBuf heap ((msg.usHexLen.toNat : Int) - k) =
      msg.decoded (msg.usHexLen.toNat - k) := by
  have hcast : (msg.usHexLen.toNat : Int) - k = (msg.usHexLen.toNat - k : Nat) := by omega
  rw [hcast]
  exact ucRxHexBuf_of_lt (by omega)

/-- A set command passes the checks of the handler. -/
theorem handed_of_sentence (heap : Int → UInt8)
    (h : Sentence s.optimset.ucComAddr msg.rxBuffer)
    (hcommand : msg.decoded 3 = eSetOptimset ∨ msg.decoded 3 = eSetTime) :
    8 ≤ msg.usHexLen.toNat ∧ Handed msg s (msg.ucRxHexBuf heap) := by
  obtain ⟨hframed, ⟨h8, -, -⟩, hcid, ⟨-, hadr⟩, hsum, ⟨-, hver⟩, hsize⟩ := sentence_iff.1 h
  have hbyte : ∀ i : Nat, i < 8 → msg.ucRxHexBuf heap i = msg.decoded i :=
    fun i hi => ucRxHexBuf_of_lt (by omega)
  refine ⟨h8, ?_⟩
  constructor
  · exact hframed.1
  · exact hframed.2
  · exact (hbyte 2 (by decide)).trans hcid
  · exact (hbyte 1 (by decide)).trans hadr
  · simp only [rxCHKsum, eval_bind, eval_entry, eval_pure]
    rw [show (msg.usHexLen.toNat : Int) - 2 = (msg.usHexLen.toNat : Int) - (2 : Nat) from rfl,
      show (msg.usHexLen.toNat : Int) - 1 = (msg.usHexLen.toNat : Int) - (1 : Nat) from rfl,
      ucRxHexBuf_sub h8 (by decide), ucRxHexBuf_sub h8 (by decide)]
    exact hsum
  · exact (hbyte 0 (by decide)).trans hver
  · have h4 := hbyte 4 (by decide)
    have h5 := hbyte 5 (by decide)
    have heval : (revWord 4).eval (msg.ucRxHexBuf heap) =
        rev16 (msg.ucRxHexBuf heap (4 : Nat)) (msg.ucRxHexBuf heap (5 : Nat)) := rfl
    rw [heval, h4, h5]
    exact hsize
  · rw [show msg.ucRxHexBuf heap 3 = msg.decoded 3 from hbyte 3 (by decide)]
    exact hcommand

/-- What the handler does with a set-time frame. -/
theorem eval_setsTime (heap : Int → UInt8) {info : List UInt8}
    (h : SetsTime msg s.optimset.ucComAddr info) :
    msg.usHexLen.toNat = 8 + info.length ∧
      (∀ i : Nat, i < info.length → msg.ucRxHexBuf heap (6 + i : Nat) = info.getD i 0) ∧
      let done := (setClock (msg.usHexLen - 9) s).eval (msg.ucRxHexBuf heap)
      (gPCProtoHandle msg s).eval (msg.ucRxHexBuf heap) =
        .set framFrmVER s.optimset.ucComAddr done.1 done.2 := by
  obtain ⟨h8, hhanded⟩ := handed_of_sentence heap h.sentence (.inr h.cid2)
  have hlen : msg.usHexLen.toNat = 8 + info.length := by
    rw [← h.info, MessageType.info, infoLen, List.length_take, List.length_drop, length_hex]
    omega
  refine ⟨hlen, ?_, ?_⟩
  · intro i hi
    rw [ucRxHexBuf_of_lt (by omega), decoded, ← h.info, MessageType.info, infoLen]
    simp only [List.getD_eq_getElem?_getD, List.getElem?_take, List.getElem?_drop]
    rw [if_pos (by omega)]
  · have hcommand : msg.ucRxHexBuf heap 3 = eSetTime :=
      (ucRxHexBuf_of_lt (i := 3) (by omega)).trans h.cid2
    have hset := eval_of_handed hhanded
    rw [hcommand] at hset
    exact hset

/-! ## There and back -/

/-- The seven bytes of the get-time reply. -/
theorem bytes_nPutTime (dataInfo : Mem) : p.nPutTimeDataInfo.bytes dataInfo =
    bigEndian (p.rtc.now.year.toUInt16 + 2000) ++ [p.rtc.now.month, p.rtc.now.date,
      p.rtc.now.hour, p.rtc.now.minute, p.rtc.now.second] := by
  have hfill : Fills 0 7 [⟨0, revBytes (p.rtc.now.year.toUInt16 + 2000)⟩, ⟨2, [p.rtc.now.month]⟩,
      ⟨3, [p.rtc.now.date]⟩, ⟨4, [p.rtc.now.hour]⟩, ⟨5, [p.rtc.now.minute]⟩,
      ⟨6, [p.rtc.now.second]⟩] := ⟨rfl, rfl, rfl, rfl, rfl, rfl, rfl⟩
  rw [← littleEndian_swap16]
  exact hfill.read

/-- **The time returns**: the frame is answered `eNormal`, and the clock it
sets shows the time the reply was built from. -/
def TimeReturns (p : Panel) (msg : MessageType) (s : Station) (heap : Int → UInt8) : Prop :=
  ∃ ver adr s', (gPCProtoHandle msg s).eval (msg.ucRxHexBuf heap) = .set ver adr .eNormal s' ∧
    s'.rtc.now = p.rtc.now

/-- The year of a reply, decoded. -/
theorem year_returns {b : UInt8} (h : b ≤ 99) {hi lo : UInt8}
    (hw : [hi, lo] = bigEndian (b.toUInt16 + 2000)) :
    rev16 hi lo ≤ 2099 ∧ 2000 ≤ rev16 hi lo ∧ (rev16 hi lo - 2000).toUInt8 = b := by
  have hb : b.toNat ≤ 99 := by simpa [UInt8.le_iff_toNat_le] using h
  have hsum : (b.toUInt16 + 2000).toNat = b.toNat + 2000 := by
    rw [UInt16.toNat_add, UInt8.toNat_toUInt16]
    simp only [UInt16.reduceToNat]
    omega
  rw [rev16_eq_iff.2 hw]
  simp only [UInt16.le_iff_toNat_le, hsum, UInt16.reduceToNat]
  refine ⟨by omega, by omega, ?_⟩
  rw [UInt16.add_sub_cancel]
  exact UInt8.toUInt8_toUInt16 b

/-- **With a byte behind it the time returns.** -/
theorem time_returns_padded {dataInfo : Mem} {x : UInt8} (hvalid : p.rtc.now.Valid)
    (h : SetsTime msg s.optimset.ucComAddr (p.nPutTimeDataInfo.bytes dataInfo ++ [x])) :
    TimeReturns p msg s heap := by
  obtain ⟨hlen, hbytes, heval⟩ := eval_setsTime heap h
  rw [bytes_nPutTime] at hlen hbytes
  have hseven : msg.usHexLen - 9 = 7 := by
    apply UInt16.toNat.inj
    have : msg.usHexLen.toNat = 16 := hlen
    rw [UInt16.toNat_sub, this]
    rfl
  -- the bytes of the frame, one after the other
  have hbound : ∀ i < 8, i < (bigEndian (p.rtc.now.year.toUInt16 + 2000) ++ [p.rtc.now.month,
      p.rtc.now.date, p.rtc.now.hour, p.rtc.now.minute, p.rtc.now.second] ++ [x]).length :=
    fun _ hi => hi
  have h6 : msg.ucRxHexBuf heap 6 = ((p.rtc.now.year.toUInt16 + 2000) >>> 8).toUInt8 :=
    hbytes 0 (hbound 0 (by decide))
  have h7 : msg.ucRxHexBuf heap 7 = (p.rtc.now.year.toUInt16 + 2000).toUInt8 :=
    hbytes 1 (hbound 1 (by decide))
  have h8 : msg.ucRxHexBuf heap 8 = p.rtc.now.month := hbytes 2 (hbound 2 (by decide))
  have h9 : msg.ucRxHexBuf heap 9 = p.rtc.now.date := hbytes 3 (hbound 3 (by decide))
  have h10 : msg.ucRxHexBuf heap 10 = p.rtc.now.hour := hbytes 4 (hbound 4 (by decide))
  have h11 : msg.ucRxHexBuf heap 11 = p.rtc.now.minute := hbytes 5 (hbound 5 (by decide))
  have h12 : msg.ucRxHexBuf heap 12 = p.rtc.now.second := hbytes 6 (hbound 6 (by decide))
  have hyear := year_returns hvalid.year
    (show [msg.ucRxHexBuf heap 6, msg.ucRxHexBuf heap 7] = bigEndian _ by rw [h6, h7, bigEndian])
  rw [eval_setClock, if_pos hseven, if_pos ⟨hyear.1, hyear.2.1⟩, hyear.2.2, h8, h9, h10, h11,
    h12] at heval
  refine ⟨_, _, _, heval, ?_⟩
  exact now_set_iff.2 hvalid.fits

/-- **The time never returns.** Whatever time the reply carries, its bytes
alone are refused for their length, and the station stays as it was. -/
theorem time_never_returns {dataInfo : Mem}
    (h : SetsTime msg s.optimset.ucComAddr (p.nPutTimeDataInfo.bytes dataInfo))
    (heap : Int → UInt8) :
    (gPCProtoHandle msg s).eval (msg.ucRxHexBuf heap) =
        .set framFrmVER s.optimset.ucComAddr .eOFError s ∧ ¬ TimeReturns p msg s heap := by
  obtain ⟨hlen, -, heval⟩ := eval_setsTime heap h
  rw [bytes_nPutTime] at hlen
  have hsix : msg.usHexLen - 9 ≠ 7 := by
    intro hseven
    have hsub := congrArg UInt16.toNat hseven
    have : msg.usHexLen.toNat = 15 := hlen
    rw [UInt16.toNat_sub, this] at hsub
    exact absurd hsub (by decide)
  rw [eval_setClock, if_neg hsix] at heval
  refine ⟨heval, ?_⟩
  rintro ⟨ver, adr, s', hnormal, -⟩
  rw [heval] at hnormal
  cases hnormal

/-- 6 May 2024, 07:08:09. -/
def sixthOfMay : Stamp := ⟨24, 5, 6, 7, 8, 9⟩

/-- The monitor at that time. -/
def mayPanel : Panel := { blankPanel 0x31 with rtc := Rtc.set default sixthOfMay }

/-- The same time sent to the address 1, in seven bytes. -/
def setSixthOfMay : MessageType where
  rxBuffer := [0x7E, 0x33, 0x31, 0x30, 0x31, 0x32, 0x43, 0x34, 0x45, 0x32, 0x30, 0x30, 0x45,
    0x30, 0x37, 0x45, 0x38, 0x30, 0x35, 0x30, 0x36, 0x30, 0x37, 0x30, 0x38, 0x30, 0x39, 0x46,
    0x41, 0x38, 0x46, 0x0D]
  stale := fun _ => 0
  fits := by decide

theorem setsTime_sixthOfMay :
    SetsTime setSixthOfMay 1 (mayPanel.nPutTimeDataInfo.bytes fun _ => 0) := by
  refine ⟨sentence_iff.2 ⟨⟨rfl, rfl⟩, ⟨by decide, ⟨16, rfl⟩, by decide +kernel⟩, rfl, ⟨?_, rfl⟩, ?_,
    ⟨?_, rfl⟩, ?_⟩, rfl, ?_⟩
  · exact show setSixthOfMay.decoded 3 ≠ ePutAddress by decide
  · exact show calCHKsum setSixthOfMay = rev16 _ _ by decide +kernel
  · exact show setSixthOfMay.decoded 3 ≠ ePutVersion by decide
  · exact show rev16 _ _ = lchksum _ by decide +kernel
  · decide +kernel

/-- The time sent back is refused. -/
theorem sixthOfMay_never_returns :
    (gPCProtoHandle setSixthOfMay factory).eval (setSixthOfMay.ucRxHexBuf fun _ => 0) =
        .set framFrmVER 1 .eOFError factory ∧
      ¬ TimeReturns mayPanel setSixthOfMay factory fun _ => 0 :=
  time_never_returns (s := factory) setsTime_sixthOfMay fun _ => 0

/-- A valid time, and the seven bytes of its reply in a well-formed frame,
that do not set the clock. -/
theorem time_lost : ¬ ∀ (p : Panel) (dataInfo : Mem) (msg : MessageType) (s : Station)
    (heap : Int → UInt8), p.rtc.now.Valid →
    SetsTime msg s.optimset.ucComAddr (p.nPutTimeDataInfo.bytes dataInfo) →
    TimeReturns p msg s heap := by
  intro h
  have hnow : mayPanel.rtc.now = sixthOfMay := by decide
  have hvalid : mayPanel.rtc.now.Valid := by
    rw [hnow]
    constructor <;> decide
  obtain ⟨ver, adr, s', hset, -⟩ :=
    h mayPanel (fun _ => 0) setSixthOfMay factory (fun _ => 0) hvalid setsTime_sixthOfMay
  have hrefused : (gPCProtoHandle setSixthOfMay factory).eval
      (setSixthOfMay.ucRxHexBuf fun _ => 0) = .set framFrmVER 1 .eOFError factory := rfl
  rw [hrefused] at hset
  cases hset

end BusMonitor
