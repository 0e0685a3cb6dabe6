import Mathlib.Data.List.Basic
/-!
# Cyclic redundancy checks

A reflected CRC of any width: the register moves down a place for each bit
of the message and takes up the polynomial when a one falls out. The
register is linear in exclusive or, and it forgets nothing when the
polynomial keeps the highest place; **burst detection**, `feed_burst`, is
those two facts.
-/


namespace Crc

variable {w : Nat} {p c d : BitVec w}

/-- The register moves down a place. -/
def shift (p c : BitVec w) : BitVec w :=
  if c.getLsbD 0 then (c >>> 1) ^^^ p else c >>> 1

/-- The register moves down `n` places. -/
def shifts (p : BitVec w) : Nat → BitVec w → BitVec w
  | 0, c => c
  | n + 1, c => shifts p n (shift p c)

/-- A byte of the message is taken in. -/
def byte (p c : BitVec w) (b : UInt8) : BitVec w :=
  shifts p 8 (c ^^^ b.toBitVec.setWidth w)

/-- **The CRC of a message**, from the register `c`. -/
def crc (p c : BitVec w) (msg : Nat → UInt8) (n : Nat) : BitVec w :=
  (List.range n).foldl (fun c i => byte p c (msg i)) c

/-! ## The register is linear -/

theorem getLsbD_shift (i : Nat) :
    (shift p c).getLsbD i = (c.getLsbD (i + 1) ^^ (c.getLsbD 0 && p.getLsbD i)) := by
  unfold shift
  cases h : c.getLsbD 0 with
  | false => simp [Nat.add_comm]
  | true => simp [Nat.add_comm]

theorem shift_xor : shift p (c ^^^ d) = shift p c ^^^ shift p d := by
  apply BitVec.eq_of_getLsbD_eq
  intro i _
  rw [BitVec.getLsbD_xor, getLsbD_shift, getLsbD_shift, getLsbD_shift,
    BitVec.getLsbD_xor, BitVec.getLsbD_xor]
  cases c.getLsbD (i + 1) <;> cases d.getLsbD (i + 1) <;> cases c.getLsbD 0 <;>
    cases d.getLsbD 0 <;> cases p.getLsbD i <;> rfl

theorem shifts_xor (n : Nat) : shifts p n (c ^^^ d) = shifts p n c ^^^ shifts p n d := by
  induction n generalizing c d with
  | zero => rfl
  | succ n ih => rw [shifts, shifts, shifts, shift_xor, ih]

@[simp] theorem shift_zero : shift p 0 = 0 := by
  unfold shift
  simp

@[simp] theorem shifts_zero (n : Nat) : shifts p n 0 = 0 := by
  induction n with
  | zero => rfl
  | succ n ih => rw [shifts, shift_zero, ih]

/-- Where the highest place is clear, a shift up is undone. -/
theorem shift_double (h : c.msb = false) : shift p (c <<< 1) = c := by
  apply BitVec.eq_of_getLsbD_eq
  intro i hi
  have h0 : (c <<< 1).getLsbD 0 = false := by simp
  rw [getLsbD_shift, h0, Bool.false_and, Bool.xor_false, BitVec.getLsbD_shiftLeft]
  by_cases hw : i + 1 < w
  · simp [hw]
  · have he : i = w - 1 := by omega
    rw [BitVec.msb_eq_getLsbD_last, ← he] at h
    simp [hw, h]

/-- Clear places fall out, and the rest moves down as it is. -/
theorem shifts_eq_ushiftRight (n : Nat) (h : ∀ i < n, c.getLsbD i = false) :
    shifts p n c = c >>> n := by
  induction n generalizing c with
  | zero => simp [shifts]
  | succ n ih =>
    have hlow : shift p c = c >>> 1 := by
      rw [shift, h 0 (by omega)]
      rfl
    have hrest : ∀ i < n, (c >>> 1).getLsbD i = false := by
      intro i hi
      rw [BitVec.getLsbD_ushiftRight]
      exact h (1 + i) (by omega)
    rw [shifts, hlow, ih hrest, ← BitVec.shiftRight_add, Nat.add_comm]

/-! ## Nothing is forgotten -/

/-- A polynomial with the highest place shows that a one fell out. -/
theorem shift_eq_zero (hp : p.msb = true) (h : shift p c = 0) : c = 0 := by
  have hw : 0 < w := by
    rcases Nat.eq_zero_or_pos w with rfl | hw
    · rw [BitVec.eq_nil p] at hp
      cases hp
    · exact hw
  have hlow : c.getLsbD 0 = false := by
    have htop := congrArg (BitVec.getLsbD · (w - 1)) h
    simp only [getLsbD_shift] at htop
    rw [BitVec.msb_eq_getLsbD_last] at hp
    rw [BitVec.getLsbD_of_ge c (w - 1 + 1) (by omega), hp] at htop
    simpa using htop
  apply BitVec.eq_of_getLsbD_eq
  intro i hi
  cases i with
  | zero => simpa using hlow
  | succ i =>
    have hbit := congrArg (BitVec.getLsbD · i) h
    simp only [getLsbD_shift, hlow] at hbit
    simpa using hbit

theorem shifts_eq_zero (hp : p.msb = true) (n : Nat) (h : shifts p n c = 0) : c = 0 := by
  induction n generalizing c with
  | zero => exact h
  | succ n ih => exact shift_eq_zero hp (ih h)

/-! ## Bit by bit -/

/-- A bit in the lowest place. -/
def low (b : Bool) : BitVec w := (BitVec.ofBool b).setWidth w

/-- The bits of a message, one shift a bit. -/
def feed (p c : BitVec w) (bits : List Bool) : BitVec w :=
  bits.foldl (fun c b => shift p (c ^^^ low b)) c

/-- Bits as a word, the first one lowest. -/
def word : List Bool → BitVec w
  | [] => 0
  | b :: bits => low b ^^^ (word bits <<< 1)

theorem getLsbD_low (b : Bool) {i : Nat} (hi : i < w) :
    (low b : BitVec w).getLsbD i = (decide (i = 0) && b) := by
  unfold low
  rw [BitVec.getLsbD_setWidth]
  cases i with
  | zero => simp [hi]
  | succ i => simp

theorem getLsbD_word (bits : List Bool) {i : Nat} (hi : i < w) :
    (word bits : BitVec w).getLsbD i = bits.getD i false := by
  induction bits generalizing i with
  | nil => simp [word]
  | cons b bits ih =>
    rw [word, BitVec.getLsbD_xor, getLsbD_low b hi, BitVec.getLsbD_shiftLeft]
    cases i with
    | zero => simp
    | succ i =>
      have := ih (show i < w by omega)
      simp [hi, this]

theorem msb_word {bits : List Bool} (h : bits.length < w) : (word bits : BitVec w).msb = false := by
  have hnone : bits[w - 1]? = none := List.getElem?_eq_none (by omega)
  rw [BitVec.msb_eq_getLsbD_last, getLsbD_word bits (by omega), List.getD_eq_getElem?_getD, hnone]
  rfl

/-- As many bits as the register holds may go in at once. -/
theorem feed_eq {bits : List Bool} (h : bits.length ≤ w) :
    feed p c bits = shifts p bits.length (c ^^^ word bits) := by
  induction bits generalizing c with
  | nil => simp [feed, shifts, word]
  | cons b bits ih =>
    simp only [List.length_cons] at h
    have hd : shift p (word bits <<< 1) = word bits := shift_double (msb_word (by omega))
    calc feed p c (b :: bits) = feed p (shift p (c ^^^ low b)) bits := rfl
      _ = shifts p bits.length (shift p (c ^^^ low b) ^^^ word bits) := ih (by omega)
      _ = shifts p bits.length (shift p (c ^^^ word (b :: bits))) := by
        rw [word, ← BitVec.xor_assoc, shift_xor (c := c ^^^ low b), hd]

theorem feed_append (bits more : List Bool) :
    feed p c (bits ++ more) = feed p (feed p c bits) more :=
  List.foldl_append

theorem feed_false {bits : List Bool} (h : true ∉ bits) :
    feed p c bits = shifts p bits.length c := by
  induction bits generalizing c with
  | nil => rfl
  | cons b bits ih =>
    obtain ⟨hb, hbits⟩ : b = false ∧ true ∉ bits := by
      simpa [eq_comm] using h
    have hlow : c ^^^ low b = c := by
      apply BitVec.eq_of_getLsbD_eq
      intro i hi
      rw [BitVec.getLsbD_xor, getLsbD_low b hi, hb, Bool.and_false, Bool.xor_false]
    calc feed p c (b :: bits) = feed p (shift p (c ^^^ low b)) bits := rfl
      _ = shifts p bits.length (shift p c) := by rw [hlow, ih hbits]

theorem feed_xor {bits more : List Bool} (h : bits.length = more.length) :
    feed p c bits ^^^ feed p d more = feed p (c ^^^ d) (List.zipWith (· ^^ ·) bits more) := by
  induction bits generalizing c d more with
  | nil =>
    obtain rfl : more = [] := List.length_eq_zero_iff.1 h.symm
    rfl
  | cons b bits ih =>
    cases more with
    | nil => simp at h
    | cons b' more =>
      have hlow : (low b ^^^ low b' : BitVec w) = low (b ^^ b') := by
        apply BitVec.eq_of_getLsbD_eq
        intro i hi
        rw [BitVec.getLsbD_xor, getLsbD_low _ hi, getLsbD_low _ hi, getLsbD_low _ hi,
          Bool.and_xor_distrib_left]
      have hreg : c ^^^ low b ^^^ (d ^^^ low b') = c ^^^ d ^^^ low (b ^^ b') := by
        rw [← hlow]
        ac_rfl
      have hlen : bits.length = more.length := by simpa using h
      calc feed p c (b :: bits) ^^^ feed p d (b' :: more)
          = feed p (shift p (c ^^^ low b)) bits ^^^ feed p (shift p (d ^^^ low b')) more := rfl
        _ = feed p (shift p (c ^^^ d ^^^ low (b ^^ b'))) (List.zipWith (· ^^ ·) bits more) := by
          rw [ih hlen, ← shift_xor, hreg]

/-! ## Bursts -/

/-- **A burst no longer than the register does not vanish.** -/
theorem feed_burst (hp : p.msb = true) {bits : List Bool} {s : Nat} (h : true ∈ bits)
    (hs : ∀ i, bits[i]? = some true → s ≤ i ∧ i < s + w) : feed p 0 bits ≠ 0 := by
  set mid := (bits.drop s).take w with hmid
  have hcut : bits = bits.take s ++ (mid ++ bits.drop (s + w)) := by
    have hdrop : bits.drop (s + w) = (bits.drop s).drop w := by rw [List.drop_drop]
    rw [hmid, hdrop, List.take_append_drop, List.take_append_drop]
  have hbefore : true ∉ bits.take s := by
    intro hm
    obtain ⟨i, hi⟩ := List.mem_iff_getElem?.1 hm
    rw [List.getElem?_take] at hi
    split at hi
    · have := hs i hi
      omega
    · cases hi
  have hafter : true ∉ bits.drop (s + w) := by
    intro hm
    obtain ⟨i, hi⟩ := List.mem_iff_getElem?.1 hm
    rw [List.getElem?_drop] at hi
    have := hs _ hi
    omega
  have hin : true ∈ mid := by
    rw [hcut, List.mem_append, List.mem_append] at h
    rcases h with h | h | h
    · exact absurd h hbefore
    · exact h
    · exact absurd h hafter
  have hlen : mid.length ≤ w := by
    rw [hmid]
    exact List.length_take_le _ _
  rw [hcut, feed_append, feed_append, feed_false hbefore, shifts_zero, feed_eq hlen,
    feed_false hafter]
  intro hz
  have hword : word mid = (0 : BitVec w) := by
    have h0 := shifts_eq_zero hp _ (shifts_eq_zero hp _ hz)
    simpa using h0
  obtain ⟨i, hi⟩ := List.mem_iff_getElem?.1 hin
  have hilt : i < mid.length := (List.getElem?_eq_some_iff.1 hi).1
  have hbit := getLsbD_word (w := w) mid (show i < w by omega)
  rw [hword, List.getD_eq_getElem?_getD, hi] at hbit
  simp at hbit

/-! ## Bytes -/

/-- The bits of a message in the order in which they are sent. -/
def bitAt (msg : Nat → UInt8) (i : Nat) : Bool := (msg (i / 8)).toBitVec.getLsbD (i % 8)

def bitsOf (msg : Nat → UInt8) (n : Nat) : List Bool := (List.range (8 * n)).map (bitAt msg)

/-- A byte goes in bit by bit. -/
theorem byte_eq_feed (hw : 8 ≤ w) (b : UInt8) :
    byte p c b = feed p c ((List.range 8).map b.toBitVec.getLsbD) := by
  have hlen : ((List.range 8).map b.toBitVec.getLsbD).length = 8 := by simp
  have hword : word ((List.range 8).map b.toBitVec.getLsbD) = b.toBitVec.setWidth w := by
    apply BitVec.eq_of_getLsbD_eq
    intro i hi
    rw [getLsbD_word _ hi, BitVec.getLsbD_setWidth, List.getD_eq_getElem?_getD,
      List.getElem?_map]
    by_cases h8 : i < 8
    · simp [h8, hi]
    · have hout : b.toBitVec.getLsbD i = false := BitVec.getLsbD_of_ge _ i (by omega)
      simp [h8, hout]
  rw [feed_eq (by omega), hlen, hword, byte]

theorem crc_eq_feed (hw : 8 ≤ w) (msg : Nat → UInt8) (n : Nat) :
    crc p c msg n = feed p c (bitsOf msg n) := by
  induction n with
  | zero => rfl
  | succ n ih =>
    have hbits : bitsOf msg (n + 1) =
        bitsOf msg n ++ (List.range 8).map (msg n).toBitVec.getLsbD := by
      rw [bitsOf, Nat.mul_succ, List.range_add, List.map_append, List.map_map]
      refine congrArg (bitsOf msg n ++ ·) (List.map_congr_left fun i hi => ?_)
      have hi8 := List.mem_range.1 hi
      have hdiv : (8 * n + i) / 8 = n := by omega
      have hmod : (8 * n + i) % 8 = i := by omega
      simp only [Function.comp, bitAt, hdiv, hmod]
    rw [hbits, feed_append, ← ih, ← byte_eq_feed hw, crc, List.range_succ, List.foldl_append]
    rfl

/-- **Burst detection.** Messages that differ, but only within as many bits
as the register holds, have different CRCs. -/
theorem crc_ne (hw : 8 ≤ w) (hp : p.msb = true) {msg msg' : Nat → UInt8} {n s : Nat}
    (hne : ∃ i < n, msg i ≠ msg' i)
    (hs : ∀ i < 8 * n, bitAt msg i ≠ bitAt msg' i → s ≤ i ∧ i < s + w) :
    crc p c msg n ≠ crc p c msg' n := by
  intro heq
  have hlen : (bitsOf msg n).length = (bitsOf msg' n).length := by simp [bitsOf]
  have hbit : ∀ i, (List.zipWith (· ^^ ·) (bitsOf msg n) (bitsOf msg' n))[i]? =
      if i < 8 * n then some (bitAt msg i ^^ bitAt msg' i) else none := by
    intro i
    rw [List.getElem?_zipWith, bitsOf, bitsOf, List.getElem?_map, List.getElem?_map]
    by_cases hi : i < 8 * n
    · simp [hi]
    · simp [hi]
  have hdiff : true ∈ List.zipWith (· ^^ ·) (bitsOf msg n) (bitsOf msg' n) := by
    obtain ⟨k, hk, hbyte⟩ := hne
    obtain ⟨j, hj, hjb⟩ : ∃ j < 8, (msg k).toBitVec.getLsbD j ≠ (msg' k).toBitVec.getLsbD j := by
      by_contra hall
      push Not at hall
      exact hbyte (UInt8.toBitVec_inj.1 (BitVec.eq_of_getLsbD_eq hall))
    have hdiv : (8 * k + j) / 8 = k := by omega
    have hmod : (8 * k + j) % 8 = j := by omega
    refine List.mem_iff_getElem?.2 ⟨8 * k + j, ?_⟩
    rw [hbit, if_pos (by omega), bitAt, bitAt, hdiv, hmod]
    simpa using hjb
  have hwithin : ∀ i, (List.zipWith (· ^^ ·) (bitsOf msg n) (bitsOf msg' n))[i]? = some true →
      s ≤ i ∧ i < s + w := by
    intro i hi
    rw [hbit] at hi
    split at hi
    · next hlt => exact hs i hlt (by simpa using hi)
    · cases hi
  rw [crc_eq_feed hw, crc_eq_feed hw] at heq
  have hx := feed_xor (p := p) (c := c) (d := c) hlen
  rw [heq, BitVec.xor_self, BitVec.xor_self] at hx
  exact feed_burst hp hdiff hwithin hx.symm

end Crc
