import BusMonitor.System
import BusMonitor.Lib.Recent
/-!
# Alarm records and the history area of the FRAM

The history area holds a marker, a header of a full flag and an index,
and one record of 21 bytes a slot. A record read back is the record that
was written, and the seven bytes a termination writes are the terminate
time and the flag of the record in place.
-/


namespace BusMonitor

open LittleEndian

/-! ## Records -/

def generateFlag : UInt8 := 0x55
def terminateFlag : UInt8 := 0xFF

/-- The number of real-time records. -/
def rtAlmItem : Nat := 10

/-- The number of history records. -/
def ptAlmItem : Nat := 500

def fmOffsetAlmRelate : Nat := 2
def fmOffsetAlmRecord : Nat := 6

/-- `AlmRecordTypeDef`. -/
structure AlmRecord where
  generate : Stamp
  terminate : Stamp
  flag : UInt8
  fCurrentValue : Single
  usThresholdValue : UInt16
  almEvent : UInt8
  almType : UInt8
  deriving DecidableEq, Repr, Inhabited

/-- `sizeof(AlmRecordTypeDef)`. -/
def sizeofAlmRecord : Nat := 21

/-- The 21 bytes of a record. -/
def AlmRecord.toBytes (r : AlmRecord) : List UInt8 :=
  r.generate.toBytes ++ r.terminate.toBytes ++ [r.flag] ++ encode 4 r.fCurrentValue.bits.toNat ++
    wordBytes r.usThresholdValue ++ [r.almEvent, r.almType]

/-- The time stored in the six bytes from `a` on. -/
def readStamp (m : Mem) (a : Nat) : Stamp :=
  ⟨m a, m (a + 1), m (a + 2), m (a + 3), m (a + 4), m (a + 5)⟩

/-- The record stored in the 21 bytes from `a` on. -/
def readRecord (m : Mem) (a : Nat) : AlmRecord where
  generate := readStamp m a
  terminate := readStamp m (a + 6)
  flag := m (a + 12)
  fCurrentValue := ⟨UInt32.ofNat (decode (m.read (a + 13) 4))⟩
  usThresholdValue := UInt16.ofNat (decode (m.read (a + 17) 2))
  almEvent := m (a + 19)
  almType := m (a + 20)

@[simp] theorem AlmRecord.length_toBytes (r : AlmRecord) : r.toBytes.length = 21 := rfl

/-- The record closed at a time: what a termination makes of it. -/
def AlmRecord.close (now : Stamp) (r : AlmRecord) : AlmRecord :=
  { r with flag := terminateFlag, terminate := now }

/-- The record is open: its alarm has not been given an end. -/
def AlmRecord.IsOpen (r : AlmRecord) : Prop := r.flag = generateFlag

instance (r : AlmRecord) : Decidable r.IsOpen := inferInstanceAs (Decidable (_ = _))

@[simp] theorem AlmRecord.close_almEvent (now : Stamp) (r : AlmRecord) :
    (r.close now).almEvent = r.almEvent := rfl

@[simp] theorem AlmRecord.close_terminate (now : Stamp) (r : AlmRecord) :
    (r.close now).terminate = now := rfl

theorem AlmRecord.not_isOpen_close (now : Stamp) (r : AlmRecord) : ¬ (r.close now).IsOpen := by
  simp [AlmRecord.IsOpen, AlmRecord.close, terminateFlag, generateFlag]

/-- Reading depends only on the bytes of the record. -/
theorem readRecord_congr {m m' : Mem} {a : Nat} (h : ∀ i < 21, m (a + i) = m' (a + i)) :
    readRecord m a = readRecord m' a := by
  have hd (k n : Nat) (hk : k + n ≤ 21) : m.read (a + k) n = m'.read (a + k) n :=
    Mem.read_congr fun i hi => by rw [Nat.add_assoc]; exact h _ (by omega)
  have h0 : m a = m' a := h 0 (by omega)
  simp [readRecord, readStamp, hd 13 4 (by omega), hd 17 2 (by omega), h, h0, Nat.add_assoc]

/-- **Round trip.** A record written is the record read back. -/
theorem readRecord_write (m : Mem) (a : Nat) (r : AlmRecord) :
    readRecord (m.write a r.toBytes) a = r := by
  have hb (i : Nat) (hi : i < 21) : m.write a r.toBytes (a + i) = r.toBytes.getD i 0 :=
    Mem.write_at hi
  have h0 : m.write a r.toBytes a = r.toBytes.getD 0 0 := hb 0 (by omega)
  have hread (k n : Nat) (hk : k + n ≤ 21) : (m.write a r.toBytes).read (a + k) n
      = (List.range n).map fun i => r.toBytes.getD (k + i) 0 :=
    List.map_congr_left fun i hi => by
      rw [Nat.add_assoc]
      exact hb _ (by have := List.mem_range.1 hi; omega)
  have hv : decode (encode 4 r.fCurrentValue.bits.toNat) = r.fCurrentValue.bits.toNat :=
    decode_encode r.fCurrentValue.bits.toNat_lt
  have ht : decode (encode 2 r.usThresholdValue.toNat) = r.usThresholdValue.toNat :=
    decode_encode r.usThresholdValue.toNat_lt
  have e13 : (m.write a r.toBytes).read (a + 13) 4 = encode 4 r.fCurrentValue.bits.toNat := by
    rw [hread 13 4 (by omega)]; rfl
  have e17 : (m.write a r.toBytes).read (a + 17) 2 = encode 2 r.usThresholdValue.toNat := by
    rw [hread 17 2 (by omega)]; rfl
  simp only [readRecord, readStamp, e13, e17, hv, ht, h0, hb, Nat.add_assoc, Nat.reduceAdd,
    Nat.reduceLT]
  simp [AlmRecord.toBytes, Stamp.toBytes, wordBytes, encode]

/-- The seven bytes of a termination: the terminate time and the flag, as
they stand in the record. -/
def AlmRecord.closingBytes (r : AlmRecord) : List UInt8 := r.terminate.toBytes ++ [r.flag]

@[simp] theorem AlmRecord.length_closingBytes (r : AlmRecord) : r.closingBytes.length = 7 := rfl

/-- **Closing in place.** Writing the closing bytes over a stored record
closes it. -/
theorem readRecord_closing (m : Mem) (a : Nat) (now : Stamp) :
    readRecord (m.write (a + 6) ((readRecord m a).close now).closingBytes) a
      = (readRecord m a).close now := by
  generalize hbs : ((readRecord m a).close now).closingBytes = bs
  have hlen : bs.length = 7 := by rw [← hbs]; rfl
  have hout (i : Nat) (hi : i < 6 ∨ 13 ≤ i) : m.write (a + 6) bs (a + i) = m (a + i) :=
    Mem.write_of_disjoint (by omega)
  have hin (i : Nat) (hi : i < 7) : m.write (a + 6) bs (a + (6 + i)) = bs.getD i 0 := by
    rw [← Nat.add_assoc]; exact Mem.write_at (by omega)
  have h0 : m.write (a + 6) bs a = m a := hout 0 (by omega)
  have hread (k n : Nat) (hk : 13 ≤ k) :
      (m.write (a + 6) bs).read (a + k) n = m.read (a + k) n :=
    Mem.read_write_disjoint (by omega)
  have e6 := hin 0; have e7 := hin 1; have e8 := hin 2; have e9 := hin 3
  have e10 := hin 4; have e11 := hin 5; have e12 := hin 6
  simp only [Nat.reduceAdd, Nat.reduceLT, forall_const] at e6 e7 e8 e9 e10 e11 e12
  simp only [readRecord, readStamp, AlmRecord.close, Nat.add_assoc, Nat.reduceAdd, h0, hread,
    e6, e7, e8, e9, e10, e11, e12, Nat.reduceLeDiff, hout, Nat.reduceLT, true_or, or_true]
  simp [← hbs, AlmRecord.closingBytes, AlmRecord.close, Stamp.toBytes]

/-! ## Slots and header -/

/-- `usFM_OperateAddr`, a 16-bit address. -/
def slotAddr (i : Nat) : Nat :=
  (fmAddrPastAlm + fmOffsetAlmRecord + i * sizeofAlmRecord) % 2 ^ 16

/-- The record in slot `i` of the history. -/
def slot (m : Mem) (i : Nat) : AlmRecord := readRecord m (slotAddr i)

theorem slotAddr_eq {i : Nat} (hi : i ≤ 500) : slotAddr i = 0x506 + 21 * i := by
  simp only [slotAddr, fmAddrPastAlm, fmOffsetAlmRecord, sizeofAlmRecord]
  omega

/-- A write that misses a slot leaves its record alone. -/
theorem slot_write_disjoint {m : Mem} {a i : Nat} {bs : List UInt8} (hi : i ≤ 500)
    (h : 0x506 + 21 * i + 21 ≤ a ∨ a + bs.length ≤ 0x506 + 21 * i) :
    slot (m.write a bs) i = slot m i := by
  unfold slot
  rw [slotAddr_eq hi]
  exact readRecord_congr fun j hj => Mem.write_of_disjoint (by omega)

/-- Writing a record into a slot changes that slot. -/
theorem slot_write {m : Mem} {i : Nat} (hi : i < 500) (r : AlmRecord) {k : Nat} (hk : k < 500) :
    slot (m.write (slotAddr i) r.toBytes) k = Function.update (slot m) i r k := by
  by_cases h : k = i
  · rw [h, Function.update_self]
    exact readRecord_write _ _ _
  · rw [Function.update_of_ne h]
    refine slot_write_disjoint (by omega) ?_
    rw [slotAddr_eq (by omega), AlmRecord.length_toBytes]
    omega

/-- Closing the record of a slot changes that slot. -/
theorem slot_closing {m : Mem} {i : Nat} (hi : i ≤ 500) (now : Stamp) {k : Nat} (hk : k ≤ 500) :
    slot (m.write (slotAddr i + 6) ((slot m i).close now).closingBytes) k
      = Function.update (slot m) i ((slot m i).close now) k := by
  by_cases h : k = i
  · rw [h, Function.update_self]
    exact readRecord_closing _ _ _
  · rw [Function.update_of_ne h]
    refine slot_write_disjoint hk ?_
    rw [slotAddr_eq hi, AlmRecord.length_closingBytes]
    omega

/-- `PTAlmRelatTypeDef`: the full flag and the index of the next slot. -/
structure PTAlmRelate where
  fullFlag : UInt8
  almIndex : Nat
  deriving DecidableEq, Repr, Inhabited

/-- The three bytes of the header. -/
def PTAlmRelate.toBytes (h : PTAlmRelate) : List UInt8 := h.fullFlag :: encode 2 h.almIndex

@[simp] theorem PTAlmRelate.length_toBytes (h : PTAlmRelate) : h.toBytes.length = 3 := rfl

/-- Where the header is kept. -/
def headerAddr : Nat := fmAddrPastAlm + fmOffsetAlmRelate

/-- The header in the FRAM. -/
def readHeader (m : Mem) : PTAlmRelate :=
  ⟨m headerAddr, readWord m (headerAddr + 1)⟩

/-- The header written is the header read back. -/
theorem readHeader_write {m : Mem} {h : PTAlmRelate} (hi : h.almIndex < 2 ^ 16) :
    readHeader (m.write headerAddr h.toBytes) = h := by
  have h1 : (m.write headerAddr h.toBytes).read (headerAddr + 1) 2 = encode 2 h.almIndex := by
    have hself : (m.write headerAddr h.toBytes).read headerAddr 3 = h.toBytes :=
      Mem.read_write_self
    exact (List.cons.inj hself).2
  have h0 : m.write headerAddr h.toBytes headerAddr = h.fullFlag :=
    Mem.write_at (i := 0) (by simp)
  rw [readHeader, readWord, h1, decode_encode hi, h0]

/-- A write outside the header leaves it alone. -/
theorem readHeader_write_disjoint {m : Mem} {a : Nat} {bs : List UInt8}
    (h : 0x505 ≤ a ∨ a + bs.length ≤ 0x502) : readHeader (m.write a bs) = readHeader m := by
  have h0 : m.write a bs headerAddr = m headerAddr :=
    Mem.write_of_disjoint (by simp only [headerAddr, fmAddrPastAlm, fmOffsetAlmRelate]; omega)
  have h1 : (m.write a bs).read (headerAddr + 1) 2 = m.read (headerAddr + 1) 2 :=
    Mem.read_write_disjoint (by simp only [headerAddr, fmAddrPastAlm, fmOffsetAlmRelate]; omega)
  rw [readHeader, readHeader, readWord, readWord, h0, h1]

end BusMonitor
