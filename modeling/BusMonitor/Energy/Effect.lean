import BusMonitor.Energy.Model
/-!
# What the energy code changes

Each call changes the header of its FRAM area, one slot, or nothing of
the area. `Mirrored` is the part of the store's state a restart brings
back; `gPTESave_cases` says what one call of `gPTE_Save` can do.
-/


namespace BusMonitor

open LittleEndian Month

/-! ## The slots are left alone -/

/-- The memories agree from the first slot on. -/
def SameSlots (m m' : Mem) : Prop := ∀ x, fmAddrEPPastTime + fmOffsetPTE ≤ x → m' x = m x

theorem SameSlots.read {m m' : Mem} (h : SameSlots m m') {a n : Nat}
    (ha : fmAddrEPPastTime + fmOffsetPTE ≤ a) : m'.read a n = m.read a n :=
  Mem.read_congr fun i _ => h (a + i) (by omega)

/-- A write that ends before the first slot. -/
theorem sameSlots_write {m : Mem} {a : Nat} {bs : List UInt8}
    (h : a + bs.length ≤ fmAddrEPPastTime + fmOffsetPTE) : SameSlots m (m.write a bs) :=
  fun _ hx => Mem.write_of_disjoint (.inr (h.trans hx))

variable {s : EnergyStore} {now : Clock}

theorem setFlag_sameSlots (flag : UInt8) : SameSlots s.fram (s.setFlag flag).fram :=
  sameSlots_write (show fmAddrEPPastTime + fmOffsetSaveFlag + [flag].length ≤ _ by
    simp [fmOffsetSaveFlag, fmOffsetPTE])

theorem lowerFlag_sameSlots : SameSlots s.fram (lowerFlag s now).fram := by
  unfold lowerFlag
  split
  · exact setFlag_sameSlots _
  · exact fun _ _ => rfl

/-! ## The header mirrors the state -/

/-- The FRAM is marked and holds the base and the save flag. -/
structure Mirrored (s : EnergyStore) : Prop where
  mark : readWord s.fram fmAddrEPPastTime = initMark
  base : readWord s.fram (fmAddrEPPastTime + fmOffsetBaseTime) = s.usPTEBaseTime
  flag : s.fram (fmAddrEPPastTime + fmOffsetSaveFlag) = s.ucPTESaveFlag

/-- A write that misses the header keeps it. -/
theorem Mirrored.write (h : Mirrored s) {a : Nat} {bs : List UInt8}
    (ha : a + bs.length ≤ fmAddrEPPastTime ∨ fmAddrEPPastTime + fmOffsetPTE ≤ a) :
    Mirrored { s with fram := s.fram.write a bs } := by
  have hoff : fmOffsetBaseTime = 2 ∧ fmOffsetSaveFlag = 4 ∧ fmOffsetPTE = 6 := ⟨rfl, rfl, rfl⟩
  refine ⟨?_, ?_, ?_⟩
  · exact (congrArg decode (Mem.read_write_disjoint (by omega))).trans h.mark
  · exact (congrArg decode (Mem.read_write_disjoint (by omega))).trans h.base
  · exact (Mem.write_of_disjoint (by omega)).trans h.flag

theorem readWord_write {m : Mem} {a n : Nat} (h : n < 65536) :
    readWord (m.write a (encode 2 n)) a = n := by
  have hread : (m.write a (encode 2 n)).read a (encode 2 n).length = encode 2 n :=
    Mem.read_write_self
  rw [length_encode] at hread
  rw [readWord, hread, decode_encode h]

theorem Mirrored.setBase (h : Mirrored s) {base : Nat} (hb : base < 65536) :
    Mirrored (s.setBase base) where
  mark := (congrArg decode (Mem.read_write_disjoint (by simp [fmOffsetBaseTime]))).trans h.mark
  base := readWord_write hb
  flag := by
    rw [EnergyStore.setBase_fram,
      Mem.write_of_disjoint (by simp [fmOffsetBaseTime, fmOffsetSaveFlag])]
    exact h.flag

theorem Mirrored.setFlag (h : Mirrored s) (flag : UInt8) : Mirrored (s.setFlag flag) where
  mark := (congrArg decode (Mem.read_write_disjoint (by simp [fmOffsetSaveFlag]))).trans h.mark
  base := (congrArg decode (Mem.read_write_disjoint
    (by simp [fmOffsetSaveFlag, fmOffsetBaseTime]))).trans h.base
  flag := by rw [EnergyStore.setFlag_fram, Mem.write_byte, EnergyStore.setFlag_flag]

theorem monthBefore_lt : monthBefore now < 65536 := by
  have := now.year_lt
  have := now.month_le
  unfold monthBefore
  split <;> omega

theorem Mirrored.rebase (h : Mirrored s) : Mirrored (rebase s now) := by
  unfold BusMonitor.rebase
  split
  · exact h.setBase monthBefore_lt
  · exact h

theorem Mirrored.lowerFlag (h : Mirrored s) : Mirrored (lowerFlag s now) := by
  unfold BusMonitor.lowerFlag
  split
  · exact h.setFlag 0
  · exact h

theorem Mirrored.acqEnergyClear (h : Mirrored s) : Mirrored (acqEnergyClear s) :=
  (h.write (.inl (by simp [fmAddrEPRealTime, fmAddrEPPastTime]))).write
    (.inl (by simp [fmAddrEPRealTime, fmAddrEPPastTime]))

/-- **A restart brings back** what the header mirrors. -/
theorem Mirrored.powerUp (h : Mirrored s) : EnergyStore.powerUp s.fram = s := by
  have hinit : EnergyStore.powerUp s.fram = ⟨s.fram,
      readWord s.fram (fmAddrEPPastTime + fmOffsetBaseTime),
      s.fram (fmAddrEPPastTime + fmOffsetSaveFlag)⟩ := if_pos h.mark
  rw [hinit, h.base, h.flag]

/-- The store the first start leaves. -/
theorem powerUp_unmarked {m : Mem} (hm : readWord m fmAddrEPPastTime ≠ initMark) :
    EnergyStore.powerUp m =
      (EnergyStore.setBase ⟨m.write fmAddrEPPastTime (encode 2 initMark), 0, 0⟩ 0).setFlag 0 :=
  if_neg hm

/-- The first start marks the area, without a base. -/
theorem mirrored_powerUp {m : Mem} (hm : readWord m fmAddrEPPastTime ≠ initMark) :
    Mirrored (.powerUp m) := by
  rw [powerUp_unmarked hm]
  refine ⟨?_, ?_, ?_⟩
  · refine (congrArg decode (Mem.read_write_disjoint (by simp [fmOffsetSaveFlag]))).trans ?_
    refine (congrArg decode (Mem.read_write_disjoint (by simp [fmOffsetBaseTime]))).trans ?_
    exact readWord_write (by decide)
  · refine (congrArg decode (Mem.read_write_disjoint
      (by simp [fmOffsetSaveFlag, fmOffsetBaseTime]))).trans ?_
    exact readWord_write (by decide)
  · rw [EnergyStore.setFlag_fram, Mem.write_byte, EnergyStore.setFlag_flag]

/-! ## One call of `gPTE_Save` -/

/-- The first minute of a month, with the save flag down. -/
def Pending (s : EnergyStore) (now : Clock) : Prop := now.FirstMinute ∧ s.ucPTESaveFlag = 0

instance : Decidable (Pending s now) := inferInstanceAs (Decidable (_ ∧ _))

/-- A call stores the record of the current month. -/
def Saves (s : EnergyStore) (now : Clock) : Prop :=
  Pending s now ∧ (rebase s now).usPTEBaseTime < gPTEFTime now

instance : Decidable (Saves s now) := inferInstanceAs (Decidable (_ ∧ _))

theorem lowerFlag_of_firstMinute (hf : now.FirstMinute) : lowerFlag s now = s :=
  if_neg fun h => h.1 hf.2.2

/-- The store with the record of the current month in its slot and the
flag up. -/
def recorded (s : EnergyStore) (now : Clock) (ep : Vector UInt32 8) : EnergyStore :=
  EnergyStore.setFlag { s with
    fram := s.fram.write (nPTEAddr s.usPTEBaseTime (gPTEFTime now))
      (currentRecord now ep).toBytes } 1

/-- In the first minute the save flag is not taken back. -/
theorem gPTESave_of_pending (hp : Pending s now) (ep : Vector UInt32 8) :
    gPTESave s now ep = store (rebase s now) now ep := by
  have hpos : gPTESave s now ep = lowerFlag (store (rebase s now) now ep) now := if_pos hp
  rw [hpos, lowerFlag_of_firstMinute hp.1]

/-- **What a call can do**: store the record of the month, only give the
device its base, or at most take the flag down. -/
theorem gPTESave_cases (s : EnergyStore) (now : Clock) (ep : Vector UInt32 8) :
    (Saves s now ∧ gPTESave s now ep = recorded (rebase s now) now ep) ∨
    (gPTEFTime now ≤ (rebase s now).usPTEBaseTime ∧ gPTESave s now ep = rebase s now) ∨
    (¬ Pending s now ∧ gPTESave s now ep = lowerFlag s now) := by
  by_cases hp : Pending s now
  · have hsave := gPTESave_of_pending hp ep
    by_cases hlt : (rebase s now).usPTEBaseTime < gPTEFTime now
    · exact .inl ⟨⟨hp, hlt⟩, hsave.trans (if_pos hlt)⟩
    · exact .inr (.inl ⟨Nat.le_of_not_lt hlt, hsave.trans (if_neg hlt)⟩)
  · exact .inr (.inr ⟨hp, if_neg hp⟩)

/-- The record is read back from its slot. -/
theorem recorded_read_self {ep : Vector UInt32 8}
    (ha : fmAddrEPPastTime + fmOffsetPTE ≤ nPTEAddr s.usPTEBaseTime (gPTEFTime now)) :
    (recorded s now ep).fram.read (nPTEAddr s.usPTEBaseTime (gPTEFTime now)) sizeofPTEnergy =
      (currentRecord now ep).toBytes := by
  have hback : (s.fram.write (nPTEAddr s.usPTEBaseTime (gPTEFTime now))
      (currentRecord now ep).toBytes).read (nPTEAddr s.usPTEBaseTime (gPTEFTime now))
        (currentRecord now ep).toBytes.length = (currentRecord now ep).toBytes :=
    Mem.read_write_self
  rw [length_toBytes] at hback
  exact ((setFlag_sameSlots 1).read ha).trans hback

/-- A slot it does not overlap is as before. -/
theorem recorded_read_disjoint {ep : Vector UInt32 8} {a : Nat}
    (ha : fmAddrEPPastTime + fmOffsetPTE ≤ a)
    (hdisj : a + 34 ≤ nPTEAddr s.usPTEBaseTime (gPTEFTime now) ∨
      nPTEAddr s.usPTEBaseTime (gPTEFTime now) + 34 ≤ a) :
    (recorded s now ep).fram.read a sizeofPTEnergy = s.fram.read a sizeofPTEnergy := by
  refine ((setFlag_sameSlots 1).read ha).trans (Mem.read_write_disjoint ?_)
  rw [length_toBytes]
  exact hdisj

/-! ## Bases -/

theorem rebase_base : (rebase s now).usPTEBaseTime =
    if s.usPTEBaseTime = 0 then monthBefore now else s.usPTEBaseTime := by
  unfold rebase
  split <;> rfl

theorem lowerFlag_base : (lowerFlag s now).usPTEBaseTime = s.usPTEBaseTime := by
  unfold lowerFlag
  split <;> rfl

theorem isCode_monthBefore : IsCode (monthBefore now) := by
  have := now.year_lt
  have := now.one_le_month
  have := now.month_le
  unfold IsCode monthBefore
  split <;> omega

/-- The base a record is stored under is a month. -/
theorem isCode_rebase (h : s.usPTEBaseTime ≠ 0 → IsCode s.usPTEBaseTime) (now : Clock) :
    IsCode (rebase s now).usPTEBaseTime := by
  rw [rebase_base]
  split
  · exact isCode_monthBefore
  · next hb => exact h hb

/-- Only the current month comes after the month before it. -/
theorem eq_of_monthBefore_lt {t : Nat} (ht : IsCode t) (hlt : monthBefore now < t)
    (hle : t ≤ gPTEFTime now) : t = gPTEFTime now := by
  have := now.year_lt
  have := now.one_le_month
  have := now.month_le
  unfold IsCode at ht
  unfold monthBefore at hlt
  unfold gPTEFTime at *
  split at hlt <;> omega

/-! ## What a query reads -/

/-- A record is read from its 34 bytes. -/
theorem readPTEnergy_congr {m m' : Mem} {a : Nat}
    (h : m'.read a sizeofPTEnergy = m.read a sizeofPTEnergy) :
    readPTEnergy m' a = readPTEnergy m a := by
  have hbyte : ∀ i < sizeofPTEnergy, m' (a + i) = m (a + i) := by
    intro i hi
    rw [← Mem.getD_read (m := m') hi, h, Mem.getD_read hi]
  have hsize : sizeofPTEnergy = 34 := rfl
  have hword : m'.read a 2 = m.read a 2 := Mem.read_congr fun i hi => hbyte i (by omega)
  have hcounter (k : Fin 8) : m'.read (a + 2 + 4 * k) 4 = m.read (a + 2 + 4 * k) 4 := by
    refine Mem.read_congr fun i hi => ?_
    rw [show a + 2 + 4 * (k : Nat) + i = a + (2 + 4 * k + i) by omega]
    exact hbyte _ (by omega)
  unfold readPTEnergy readWord
  simp only [hword, hcounter]

/-- Where a query starts, and where it stops. -/
def queryStart (base usTimeS : Nat) : Nat := if usTimeS ≤ base then base else usTimeS

def queryStop (month usTimeE : Nat) : Nat := if month < usTimeE then month else usTimeE

/-- The months whose slots make the answer of a query. -/
def usedMonths (base month usTimeS usTimeE : Nat) : List Nat :=
  if queryStart base usTimeS < queryStop month usTimeE ∧ base < queryStop month usTimeE then
    queryStop month usTimeE :: (if usTimeS ≤ base then [] else [usTimeS])
  else []

theorem mem_usedMonths {base month usTimeS usTimeE t : Nat} :
    t ∈ usedMonths base month usTimeS usTimeE ↔
      (queryStart base usTimeS < queryStop month usTimeE ∧ base < queryStop month usTimeE) ∧
        (t = queryStop month usTimeE ∨ base < usTimeS ∧ t = usTimeS) := by
  unfold usedMonths
  by_cases hlt : queryStart base usTimeS < queryStop month usTimeE ∧ base < queryStop month usTimeE
  · rw [if_pos hlt]
    by_cases hS : usTimeS ≤ base
    · simp [hlt, hS, Nat.not_lt.2 hS]
    · simp [hlt, hS, Nat.lt_of_not_le hS]
  · simp [hlt]

/-- They come after the base and up to the current month. -/
theorem bounds_of_mem_usedMonths {base month usTimeS usTimeE t : Nat}
    (ht : t ∈ usedMonths base month usTimeS usTimeE) : base < t ∧ t ≤ month := by
  have hstop : queryStop month usTimeE ≤ month := by
    unfold queryStop
    split <;> omega
  obtain ⟨⟨hlt, hbase⟩, rfl | ⟨hS, rfl⟩⟩ := mem_usedMonths.1 ht
  · exact ⟨hbase, hstop⟩
  · rw [queryStart, if_neg (by omega)] at hlt
    omega

/-- **A query depends on the base and the slots it uses.** -/
theorem gPTEQuery_congr {s' : EnergyStore} {usTimeS usTimeE : Nat}
    (hbase : s'.usPTEBaseTime = s.usPTEBaseTime)
    (hslots : ∀ t ∈ usedMonths s.usPTEBaseTime (gPTEFTime now) usTimeS usTimeE,
      s'.fram.read (nPTEAddr s.usPTEBaseTime t) sizeofPTEnergy =
        s.fram.read (nPTEAddr s.usPTEBaseTime t) sizeofPTEnergy) :
    gPTEQuery s' now usTimeS usTimeE = gPTEQuery s now usTimeS usTimeE := by
  have hquery (s₀ : EnergyStore) : gPTEQuery s₀ now usTimeS usTimeE =
      if queryStart s₀.usPTEBaseTime usTimeS < queryStop (gPTEFTime now) usTimeE ∧
          s₀.usPTEBaseTime < queryStop (gPTEFTime now) usTimeE then
        let r := readPTEnergy s₀.fram
          (nPTEAddr s₀.usPTEBaseTime (queryStop (gPTEFTime now) usTimeE))
        { r with ep := .zipWith (· - ·) r.ep (if usTimeS ≤ s₀.usPTEBaseTime then zeroPTEnergy
          else readPTEnergy s₀.fram (nPTEAddr s₀.usPTEBaseTime usTimeS)).ep }
      else zeroPTEnergy := rfl
  rw [hquery, hquery, hbase]
  refine if_ctx_congr Iff.rfl (fun hlt => ?_) fun _ => rfl
  -- the slot of the start is read only behind the base
  have hstop := readPTEnergy_congr (hslots _ (mem_usedMonths.2 ⟨hlt, .inl rfl⟩))
  have hstart : (if usTimeS ≤ s.usPTEBaseTime then zeroPTEnergy
      else readPTEnergy s'.fram (nPTEAddr s.usPTEBaseTime usTimeS)) =
      if usTimeS ≤ s.usPTEBaseTime then zeroPTEnergy
      else readPTEnergy s.fram (nPTEAddr s.usPTEBaseTime usTimeS) :=
    if_ctx_congr Iff.rfl (fun _ => rfl) fun hS =>
      readPTEnergy_congr (hslots _ (mem_usedMonths.2 ⟨hlt, .inr ⟨Nat.lt_of_not_le hS, rfl⟩⟩))
  rw [hstop, hstart]

end BusMonitor
