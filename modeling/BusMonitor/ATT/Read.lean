import BusMonitor.Energy.Remainder
/-!
# Reading the meter chips

`bsp_ATT.c`. A register is read by a transfer of three bytes with a checksum
of the chip's, and every reader tries up to five transfers. A failed one
has filled the cache by then, so what counts is which transfer a reader
converts: the first good one, except for `DA_ATT_PFRead`, whose `break`
stands outside its test (`readers_alike_iff`). Conversions are exact.
-/


namespace BusMonitor

/-! ## Transfers -/

/-- What the chip sends in a transfer: the register, high byte first, and
the three bytes of `r_ComChksum`. -/
structure Transfer where
  rdata : Vector UInt8 3
  readSum : Vector UInt8 3
  deriving DecidableEq

namespace Transfer

variable (t : Transfer) (ucRegAddr : UInt8)

/-- The register as received. -/
def register : BitVec 24 :=
  (t.rdata.get 0).toBitVec ++ (t.rdata.get 1).toBitVec ++ (t.rdata.get 2).toBitVec

/-- The sum of the three bytes and the address. -/
def checkSum : UInt32 :=
  (t.rdata.get 0).toUInt32 + (t.rdata.get 1).toUInt32 + (t.rdata.get 2).toUInt32 +
    ucRegAddr.toUInt32

/-- The transfer checks: the address is echoed and the sum is right. -/
def Good : Prop :=
  t.readSum.get 0 = ucRegAddr ∧
    t.checkSum ucRegAddr = ((t.readSum.get 1).toUInt32 <<< 8) ||| (t.readSum.get 2).toUInt32

instance : Decidable (t.Good ucRegAddr) := inferInstanceAs (Decidable (_ ∧ _))

end Transfer

/-- The low three bytes of the cache become the register. -/
def fillCache (uiRegCache : UInt32) (v : BitVec 24) : UInt32 :=
  ⟨(uiRegCache >>> 24).toUInt8.toBitVec ++ v⟩

/-- `DA_ATT_ReadReg`: the return value, and the cache it writes to. -/
def daATTReadReg (ucRegAddr : UInt8) (t : Transfer) (uiRegCache : UInt32) : UInt8 × UInt32 :=
  (if t.Good ucRegAddr then 0 else 1, fillCache uiRegCache t.register)

/-! ## The readers -/

/-- A loop over the transfers that ends at the first good one. With `fresh`
the cache is cleared before each. -/
def retry (fresh : Bool) (ATTReg : UInt8) (convert : UInt32 → ℚ) : List Transfer → UInt32 → ℚ
  | [], _ => 0
  | t :: ts, uiRegCache =>
    let r := daATTReadReg ATTReg t (if fresh then 0 else uiRegCache)
    if r.1 = 0 then convert r.2 else retry fresh ATTReg convert ts r.2

section readers

variable (ATTReg : UInt8) (ts : Vector Transfer 5)

/-- `Kp`. -/
def kp : ℚ := 16093254 / 10 ^ 9

/-- The magnitude of a power register, in two's complement. -/
def powerTemp (uiRegCache : UInt32) : UInt32 :=
  if uiRegCache &&& 0x00800000 ≠ 0 then (~~~uiRegCache + 1) &&& 0x00FFFFFF else uiRegCache

/-- `DA_ATT_RMSRead`. -/
def daATTRMSRead : ℚ := retry false ATTReg (fun c => c.toNat / 8192) ts.toList 0

/-- `DA_ATT_PowerRead`. -/
def daATTPowerRead : ℚ := retry false ATTReg (fun c => (powerTemp c).toNat * kp) ts.toList 0

/-- `DA_ATT_FreqRead`. -/
def daATTFreqRead : ℚ := retry false ATTReg (fun c => c.toNat / 8192) ts.toList 0

/-- `DA_ATT_EPRead`. -/
def daATTEPRead (uiRegCache : UInt32) : ℚ :=
  retry true ATTReg (fun c => c.toNat / 3200) ts.toList uiRegCache

/-- `DA_ATT_PFRead`: the loop is left after one transfer, and what is
returned after a failed one is what the stack held in `fPF`. -/
def daATTPFRead (fPF : ℚ) : ℚ :=
  let r := daATTReadReg ATTReg (ts.get 0) 0
  if r.1 = 0 then r.2.toNat / 8388608 else fPF

end readers

/-! ## The first good transfer -/

/-- The register of the first transfer that checks. -/
def firstGood (ATTReg : UInt8) : List Transfer → Option (BitVec 24)
  | [] => none
  | t :: ts => if t.Good ATTReg then some t.register else firstGood ATTReg ts

/-- **The value a reader should return**: its conversion of the first good
transfer, or 0. -/
def selected (ATTReg : UInt8) (ts : Vector Transfer 5) (convert : BitVec 24 → ℚ) : ℚ :=
  ((firstGood ATTReg ts.toList).map convert).getD 0

/-- The magnitude of a 24-bit number in two's complement. -/
def magnitude (v : BitVec 24) : ℕ := if v.msb then 2 ^ 24 - v.toNat else v.toNat

/-- All readers retry alike, whatever the stack held in `fPF` and in the
cache of `DA_ATT_EPRead`. -/
structure ReadersAlike (ATTReg : UInt8) (ts : Vector Transfer 5) (fPF : ℚ)
    (uiRegCache : UInt32) : Prop where
  rms : daATTRMSRead ATTReg ts = selected ATTReg ts fun v => v.toNat / 8192
  power : daATTPowerRead ATTReg ts = selected ATTReg ts fun v => magnitude v * kp
  freq : daATTFreqRead ATTReg ts = selected ATTReg ts fun v => v.toNat / 8192
  energy : daATTEPRead ATTReg ts uiRegCache = selected ATTReg ts epRead
  factor : daATTPFRead ATTReg ts fPF = selected ATTReg ts fun v => v.toNat / 8388608

variable {ATTReg : UInt8} {ts : Vector Transfer 5} {uiRegCache : UInt32} {v : BitVec 24}

/-- Over a clear high byte the cache becomes the register. -/
theorem fillCache_eq (h : uiRegCache >>> 24 = 0) : fillCache uiRegCache v = ⟨0#8 ++ v⟩ := by
  rw [fillCache, h]
  rfl

theorem toNat_fillCache (h : uiRegCache >>> 24 = 0) :
    (fillCache uiRegCache v).toNat = v.toNat := by
  rw [fillCache_eq h]
  have happend : (0#8 ++ v).toNat = (0#8).toNat <<< 24 ||| v.toNat := BitVec.toNat_append ..
  refine happend.trans ?_
  simp

theorem fillCache_low (h : uiRegCache >>> 24 = 0) : fillCache uiRegCache v >>> 24 = 0 := by
  apply UInt32.toNat.inj
  have := v.isLt
  rw [UInt32.toNat_shiftRight, toNat_fillCache h, Nat.shiftRight_eq_div_pow]
  simp only [UInt32.reduceToNat, Nat.reduceMod, Nat.reducePow]
  omega

theorem toNat_powerTemp (h : uiRegCache >>> 24 = 0) :
    (powerTemp (fillCache uiRegCache v)).toNat = magnitude v := by
  have hn := toNat_fillCache (v := v) h
  generalize fillCache uiRegCache v = c at hn
  have hv := v.isLt
  have hbit : c &&& 0x00800000 ≠ 0 ↔ v.msb = true := by
    rw [BitVec.msb_eq_decide, decide_eq_true_iff, Ne, ← UInt32.toNat_inj, UInt32.toNat_and, hn]
    have hand : v.toNat &&& 2 ^ 23 = (v &&& BitVec.twoPow 24 23).toNat := by
      rw [BitVec.toNat_and, BitVec.toNat_twoPow]
      rfl
    have hbit : v.getLsbD 23 = decide (2 ^ (24 - 1) ≤ v.toNat) := by
      rw [← BitVec.msb_eq_decide, BitVec.msb_eq_getLsbD_last]
    change ¬ v.toNat &&& 2 ^ 23 = 0 ↔ _
    rw [hand, BitVec.and_twoPow, hbit]
    by_cases hle : 2 ^ (24 - 1) ≤ v.toNat
    · rw [decide_eq_true hle, if_pos rfl]
      exact iff_of_true (by decide) hle
    · rw [decide_eq_false hle, if_neg Bool.false_ne_true]
      exact iff_of_false (fun h => h rfl) hle
  unfold powerTemp magnitude
  by_cases hmsb : v.msb = true
  · rw [if_pos (hbit.2 hmsb), if_pos hmsb, UInt32.toNat_and, UInt32.toNat_add, UInt32.toNat_not, hn]
    have hpos : 2 ^ 23 ≤ v.toNat := by
      rw [BitVec.msb_eq_decide, decide_eq_true_iff] at hmsb
      exact hmsb
    change _ &&& 2 ^ 24 - 1 = _
    rw [Nat.and_two_pow_sub_one_eq_mod]
    simp only [UInt32.reduceToNat, UInt32.size]
    omega
  · rw [if_neg fun hc => hmsb (hbit.1 hc), if_neg hmsb, hn]

/-- **The loop**: over a cache with a clear high byte it selects the first
good transfer. -/
theorem retry_eq {fresh : Bool} {convert : UInt32 → ℚ} {value : BitVec 24 → ℚ}
    (hconvert : ∀ (c : UInt32) (v : BitVec 24), c >>> 24 = 0 → convert (fillCache c v) = value v)
    (ts : List Transfer)
    (h : fresh = true ∨ uiRegCache >>> 24 = 0) :
    retry fresh ATTReg convert ts uiRegCache = ((firstGood ATTReg ts).map value).getD 0 := by
  induction ts generalizing uiRegCache with
  | nil => rfl
  | cons t ts ih =>
    obtain ⟨c, hc, hclear⟩ : ∃ c, c = (if fresh then 0 else uiRegCache) ∧ c >>> 24 = 0 := by
      refine ⟨_, rfl, ?_⟩
      rcases h with hf | h
      · rw [if_pos hf]
        rfl
      · split
        · rfl
        · exact h
    by_cases hgood : t.Good ATTReg
    · simp [retry, firstGood, daATTReadReg, ← hc, hgood, hconvert _ _ hclear]
    · simp [retry, firstGood, daATTReadReg, ← hc, hgood, ih (Or.inr (fillCache_low hclear))]

theorem daATTPFRead_eq (fPF : ℚ) : daATTPFRead ATTReg ts fPF =
    if (ts.get 0).Good ATTReg then ((ts.get 0).register.toNat : ℚ) / 8388608 else fPF := by
  unfold daATTPFRead daATTReadReg
  by_cases h : (ts.get 0).Good ATTReg
  · simp only [h, if_true, toNat_fillCache (show (0 : UInt32) >>> 24 = 0 from rfl)]
  · simp [h]

theorem firstGood_of_good (h : (ts.get 0).Good ATTReg) :
    firstGood ATTReg ts.toList = some (ts.get 0).register := by
  have hlen : ts.toList.length = 5 := Vector.length_toList
  obtain ⟨t, rest, hcons⟩ := List.exists_cons_of_length_pos (show 0 < ts.toList.length by omega)
  have hget : ts.get 0 = t := by
    have h0 : ts.toList.head? = some (ts.get 0) := by
      rw [List.head?_eq_getElem?, List.getElem?_eq_getElem (by omega)]
      rfl
    rw [hcons] at h0
    exact (Option.some.inj h0).symm
  rw [hget] at h ⊢
  rw [hcons, firstGood, if_pos h]

/-- **The readers retry alike** on the sequences whose first transfer is
good, and on no others. -/
theorem readers_alike_iff (ATTReg : UInt8) (ts : Vector Transfer 5) :
    (∀ fPF uiRegCache, ReadersAlike ATTReg ts fPF uiRegCache) ↔ (ts.get 0).Good ATTReg := by
  have hzero : (0 : UInt32) >>> 24 = 0 := rfl
  constructor
  · intro h
    by_contra hbad
    -- two contents of the stack would have to be the same value
    have h0 := (h 0 0).factor
    have h1 := (h 1 0).factor
    rw [daATTPFRead_eq, if_neg hbad] at h0 h1
    exact absurd (h0.trans h1.symm) (by norm_num)
  · intro hgood fPF uiRegCache
    refine ⟨?_, ?_, ?_, ?_, ?_⟩
    · refine retry_eq (fun c v hc => ?_) _ (Or.inr hzero)
      rw [toNat_fillCache hc]
    · refine retry_eq (fun c v hc => ?_) _ (Or.inr hzero)
      rw [toNat_powerTemp hc]
    · refine retry_eq (fun c v hc => ?_) _ (Or.inr hzero)
      rw [toNat_fillCache hc]
    · refine retry_eq (fun c v hc => ?_) _ (Or.inl rfl)
      rw [toNat_fillCache hc, epRead]
    · rw [daATTPFRead_eq, if_pos hgood, selected, firstGood_of_good hgood]
      rfl

/-- A transfer of the power factor one half. -/
def halfTransfer : Transfer := ⟨#v[0x40, 0, 0], #v[0x14, 0, 0x54]⟩

/-- The same with a wrong checksum. -/
def failedTransfer : Transfer := { halfTransfer with readSum := #v[0x14, 0, 0] }

/-- After one failed transfer `DA_ATT_PFRead` returns what the stack held,
here 1, and the others their conversion of the second one. -/
theorem second_transfer_lost :
    ¬ ReadersAlike 0x14 #v[failedTransfer, halfTransfer, halfTransfer, halfTransfer,
      halfTransfer] 1 0 := by
  intro h
  have hfactor := h.factor
  rw [daATTPFRead_eq, if_neg (by decide)] at hfactor
  have hselected : firstGood 0x14 #v[failedTransfer, halfTransfer, halfTransfer, halfTransfer,
      halfTransfer].toList = some 0x400000#24 := by rfl
  rw [selected, hselected] at hfactor
  norm_num at hfactor

end BusMonitor
