import BusMonitor.PC.Grammar
/-!
# One character replaced

What the checksum of a PC frame is worth. `CHKSUM` is compared as a decoded
word with a sum over the characters before it, so a replaced digit shows up
on one side or the other (`not_executed_replace`). It does not where the
handler looks at neither: a character that is left over, and a character of
`CHKSUM` that is no digit (`caught_iff`).
-/


namespace BusMonitor

open HexText Probe MessageType

/-! ## The checks, all passed -/

/-- Command execution is reached, over a heap. -/
def Executed (msg : MessageType) (s : Station) (heap : Int → UInt8) : Prop :=
  ((gPCProtoHandle msg s).eval (msg.ucRxHexBuf heap)).Executes

/-- **Every check of the handler**, read off the decoded buffer `m`. -/
structure Checked (msg : MessageType) (s : Station) (m : Int → UInt8) : Prop where
  framed : msg.Framed
  cid1 : m 2 = framFrmCID1
  noAddress : m 3 ≠ ePutAddress
  addressed : m 1 = s.optimset.ucComAddr
  summed : calCHKsum msg =
    rev16 (m ((msg.usHexLen.toNat : Int) - 2)) (m ((msg.usHexLen.toNat : Int) - 1))
  noVersion : m 3 ≠ ePutVersion
  version : m 0 = framFrmVER
  sized : rev16 (m 4) (m 5) = lchksum ((msg.usHexLen - 8) * 2)

variable {msg : MessageType} {s : Station} {m heap : Int → UInt8}

theorem executes_check {c : Prop} [Decidable c] {p : Decoded Reaction} {r : Reaction}
    (hr : ¬ r.Executes) :
    ((if c then p else pure r).eval m).Executes ↔ c ∧ (p.eval m).Executes := by
  rw [eval_ite]
  by_cases h : c
  · rw [if_pos h, and_iff_right h]
  · rw [if_neg h, eval_pure]
    exact iff_of_false hr fun h' => h h'.1

theorem executes_execute (c : UInt8) : ((execute msg s c).eval m).Executes := by
  unfold execute
  split <;> simp [Reaction.Executes]

theorem executes_atCHKOK {c : UInt8} : ((atCHKOK msg s c).eval m).Executes ↔
    c ≠ ePutVersion ∧ m 0 = framFrmVER ∧
      rev16 (m 4) (m 5) = lchksum ((msg.usHexLen - 8) * 2) := by
  unfold atCHKOK
  by_cases hq : c = ePutVersion
  · rw [if_pos hq, eval_pure]
    exact iff_of_false id fun h => h.1 hq
  · rw [if_neg hq, eval_bind, eval_entry, executes_check id, and_iff_right hq]
    refine and_congr_right fun _ => ?_
    unfold atVEROK
    rw [eval_bind, executes_check id, and_iff_left (executes_execute c)]
    rfl

theorem executes_atCID1OK : ((atCID1OK msg s).eval m).Executes ↔
    m 3 ≠ ePutAddress ∧ m 1 = s.optimset.ucComAddr ∧
      calCHKsum msg =
        rev16 (m ((msg.usHexLen.toNat : Int) - 2)) (m ((msg.usHexLen.toNat : Int) - 1)) ∧
      ((atCHKOK msg s (m 3)).eval m).Executes := by
  unfold atCID1OK
  rw [eval_bind, eval_entry]
  by_cases hq : m 3 = ePutAddress
  · rw [if_pos hq]
    refine iff_of_false ?_ fun h => h.1 hq
    unfold putAddress
    rw [eval_bind, eval_ite]
    split <;> exact id
  · rw [if_neg hq, eval_bind, eval_entry, executes_check id, and_iff_right hq]
    refine and_congr_right fun _ => ?_
    unfold atADROK
    rw [eval_bind, executes_check id]
    rfl

theorem executed_iff : Executed msg s heap ↔ Checked msg s (msg.ucRxHexBuf heap) := by
  unfold Executed gPCProtoHandle
  rw [executes_check id, eval_bind, eval_entry, executes_check id, executes_atCID1OK,
    executes_atCHKOK]
  constructor
  · rintro ⟨h1, h2, h3, h4, h5, h6, h7, h8⟩
    exact ⟨h1, h2, h3, h4, h5, h6, h7, h8⟩
  · rintro ⟨h1, h2, h3, h4, h5, h6, h7, h8⟩
    exact ⟨h1, h2, h3, h4, h5, h6, h7, h8⟩

/-! ## The sum -/

section sum

variable {data data' : Nat → UInt8} {len : UInt16}

/-- The bytes in a range that two arrays agree on. -/
theorem bytes_congr {a n : Nat} (h : ∀ j, a ≤ j → j < a + n → data j = data' j) :
    (List.range' a n).map (fun j => (data j).toNat) =
      (List.range' a n).map fun j => (data' j).toNat := by
  refine List.map_congr_left fun j hj => ?_
  obtain ⟨hlo, hhi⟩ := List.mem_range'_1.1 hj
  rw [h j hlo hhi]

/-- The range of a sum, cut at an index. -/
theorem range_cut {i n : Nat} (hi : 1 ≤ i) (hn : i < n) : List.range' 1 (n - 1) =
    List.range' 1 (i - 1) ++ i :: List.range' (i + 1) (n - 1 - i) := by
  have htail : i :: List.range' (i + 1) (n - 1 - i) =
      List.range' (1 + (i - 1)) (n - 1 - i + 1) := by
    rw [List.range'_succ, show 1 + (i - 1) = i by omega]
  rw [htail, List.range'_append_1]
  congr 1
  omega

theorem chksum_congr (h : ∀ j, 1 ≤ j → j < len.toNat → data j = data' j) :
    chksum data len = chksum data' len := by
  apply UInt16.toNat.inj
  rw [toNat_chksum, toNat_chksum, bytes_congr fun j hlo hhi => h j hlo (by omega)]

/-- **A sum tells one changed byte**: bytes differ by less than the
modulus. -/
theorem chksum_ne {i : Nat} (hi : 1 ≤ i) (hlen : i < len.toNat) (hne : data i ≠ data' i)
    (h : ∀ j ≠ i, data j = data' j) : chksum data len ≠ chksum data' len := by
  have hbefore := bytes_congr (a := 1) (n := i - 1) fun j _ hj => h j (by omega)
  have hafter := bytes_congr (a := i + 1) (n := len.toNat - 1 - i) fun j hj _ => h j (by omega)
  have hbyte : (data i).toNat ≠ (data' i).toNat := fun h => hne (UInt8.toNat.inj h)
  intro heq
  -- the two sums differ by the one byte alone
  have hsum := congrArg UInt16.toNat heq
  rw [toNat_chksum, toNat_chksum, range_cut hi hlen] at hsum
  simp only [List.map_append, List.sum_append, List.map_cons, List.sum_cons, hbefore, hafter]
    at hsum
  have := (data i).toNat_lt
  have := (data' i).toNat_lt
  omega

end sum

/-! ## The digits -/

section digits

variable {a b a' b' : UInt8}

/-- A digit is known by its value. -/
theorem eq_of_value_eq (ha : IsDigit a) (hb : IsDigit b) (h : value a = value b) : a = b := by
  apply UInt8.toNat.inj
  unfold IsDigit at ha hb
  unfold value at h
  split at h <;> split at h <;> omega

theorem ascii2hexByte_inj (ha : IsDigit a) (hb : IsDigit b) (ha' : IsDigit a') (hb' : IsDigit b')
    (h : ascii2hexByte a b = ascii2hexByte a' b') : a = a' ∧ b = b' := by
  rw [ascii2hexByte_eq ha hb, ascii2hexByte_eq ha' hb'] at h
  have hnat := congrArg UInt8.toNat h
  have := value_lt ha
  have := value_lt hb
  have := value_lt ha'
  have := value_lt hb'
  unfold pair at hnat
  rw [UInt8.toNat_ofNat', UInt8.toNat_ofNat'] at hnat
  exact ⟨eq_of_value_eq ha ha' (by omega), eq_of_value_eq hb hb' (by omega)⟩

theorem rev16_inj (h : rev16 a b = rev16 a' b') : a = a' ∧ b = b' := by
  have hnat := congrArg UInt16.toNat h
  rw [toNat_rev16, toNat_rev16] at hnat
  have := b.toNat_lt
  have := b'.toNat_lt
  exact ⟨UInt8.toNat.inj (by omega), UInt8.toNat.inj (by omega)⟩

/-- What is no digit counts for zero. -/
theorem asciiTable_eq_zero (h : ¬ IsDigit a) : asciiTable a = 0 := by
  unfold IsDigit at h
  unfold asciiTable
  simp only [UInt8.le_iff_toNat_le, UInt8.reduceToNat]
  rw [if_neg (by omega), if_neg (by omega)]

/-- A byte with a zero half is not the version. -/
theorem version_ne (h : asciiTable a = 0 ∨ asciiTable b = 0) :
    ascii2hexByte a b ≠ framFrmVER := by
  have hhi : ∀ n < 256, ((UInt8.ofNat n <<< 4) &&& 0xF0) + 0 ≠ framFrmVER := by decide +kernel
  have hlo : ∀ n < 256, (((0 : UInt8) <<< 4) &&& 0xF0) + asciiTable (UInt8.ofNat n) ≠
      framFrmVER := by
    decide +kernel
  unfold ascii2hexByte
  rcases h with h | h
  · have := hlo _ b.toNat_lt
    rw [UInt8.ofNat_toNat] at this
    rwa [h]
  · have := hhi _ (asciiTable a).toNat_lt
    rw [UInt8.ofNat_toNat] at this
    rwa [h]

end digits

/-! ## The frame with a character replaced -/

/-- The string with the character at `i` replaced. -/
def MessageType.replace (msg : MessageType) (i : Nat) (c : UInt8) : MessageType where
  rxBuffer := msg.rxBuffer.set i c
  stale := msg.stale
  fits := by rw [List.length_set]; exact msg.fits

/-- **Single-character corruption is caught**: whatever digit stands in the
place of a character between the markers, and whatever the heap holds when
the changed frame comes, nothing is executed. -/
def Caught (msg : MessageType) (s : Station) : Prop :=
  ∀ i c, 0 < i → i + 1 < msg.rxBuffer.length → IsDigit c → c ≠ msg.byte i →
    ∀ heap, ¬ Executed (msg.replace i c) s heap

/-- The handler looks at every character as what it is: none is left over,
and `CHKSUM` is written in digits. -/
def Proofread (msg : MessageType) : Prop :=
  Even msg.rxBuffer.length ∧ ∀ i, 0 < i → msg.rxBuffer.length ≤ i + 5 →
    i + 1 < msg.rxBuffer.length → IsDigit (msg.byte i)

section replace

variable {i k : Nat} {c : UInt8}

@[simp] theorem length_replace : (msg.replace i c).rxBuffer.length = msg.rxBuffer.length :=
  List.length_set

@[simp] theorem usHexLen_replace : (msg.replace i c).usHexLen = msg.usHexLen := by
  unfold usHexLen
  rw [length_replace]

theorem byte_replace (hi : i < msg.rxBuffer.length) (j : Nat) :
    (msg.replace i c).byte j = if j = i then c else msg.byte j := by
  unfold byte
  rw [length_replace]
  by_cases hj : j < msg.rxBuffer.length
  · rw [if_pos hj, if_pos hj, replace]
    by_cases h : j = i
    · subst h
      rw [if_pos rfl, List.getD_eq_getElem _ _ (by simpa using hj), List.getElem_set_self]
    · rw [if_neg h, List.getD_eq_getElem?_getD, List.getElem?_set_ne (Ne.symm h),
        List.getD_eq_getElem?_getD]
  · rw [if_neg hj, if_neg hj, if_neg (by omega)]
    rfl

theorem framed_replace (h0 : 0 < i) (hi : i + 1 < msg.rxBuffer.length) :
    (msg.replace i c).Framed ↔ msg.Framed := by
  unfold Framed lastByte
  rw [length_replace, byte_replace (by omega), byte_replace (by omega),
    if_neg (show ¬ 0 = i by omega), if_neg (show ¬ msg.rxBuffer.length - 1 = i by omega)]

theorem decoded_eq (hk : k < msg.usHexLen.toNat) :
    msg.decoded k = ascii2hexByte (msg.byte (2 * k + 1)) (msg.byte (2 * k + 2)) := by
  unfold decoded hex
  rw [getD_ascii2hex hk, show 1 + k * 2 = 2 * k + 1 by omega,
    show 1 + (k * 2 + 1) = 2 * k + 2 by omega]

/-- A byte keeps its value when the character is not one of its own, or
counts for the same number. -/
theorem decoded_replace (hk : k < msg.usHexLen.toNat) (hi : i < msg.rxBuffer.length)
    (h : asciiTable c = asciiTable (msg.byte i) ∨ i ≠ 2 * k + 1 ∧ i ≠ 2 * k + 2) :
    (msg.replace i c).decoded k = msg.decoded k := by
  have htable : ∀ j, j = 2 * k + 1 ∨ j = 2 * k + 2 →
      asciiTable ((msg.replace i c).byte j) = asciiTable (msg.byte j) := by
    intro j hj
    rw [byte_replace hi]
    split
    · next hji =>
      rcases h with h | h
      · rw [h, hji]
      · omega
    · rfl
  rw [decoded_eq (by rwa [usHexLen_replace]), decoded_eq hk, ascii2hexByte, ascii2hexByte,
    htable _ (Or.inl rfl), htable _ (Or.inr rfl)]

/-- **A byte tells its digits**: the character is among its two, and all are
digits. -/
theorem eq_of_decoded_replace (hk : k < msg.usHexLen.toNat) (hi : i < msg.rxBuffer.length)
    (hik : i = 2 * k + 1 ∨ i = 2 * k + 2) (hc : IsDigit c)
    (h₁ : IsDigit (msg.byte (2 * k + 1))) (h₂ : IsDigit (msg.byte (2 * k + 2)))
    (h : (msg.replace i c).decoded k = msg.decoded k) : c = msg.byte i := by
  rw [decoded_eq (by rwa [usHexLen_replace]), decoded_eq hk, byte_replace hi, byte_replace hi] at h
  rcases hik with rfl | rfl
  · rw [if_pos rfl, if_neg (by omega)] at h
    exact (ascii2hexByte_inj hc h₂ h₁ h₂ h).1
  · rw [if_neg (by omega), if_pos rfl] at h
    exact (ascii2hexByte_inj h₁ hc h₁ h₂ h).2

/-- Between the markers of a string with room for a `CHKSUM`, the sum is
over the characters up to it. -/
theorem toNat_summed (h : 5 ≤ msg.rxBuffer.length) :
    (msg.rxLen - 5).toNat = msg.rxBuffer.length - 5 := by
  have hfit := msg.fits
  unfold pcRxLen at hfit
  have hrx : msg.rxLen.toNat = msg.rxBuffer.length := by
    rw [rxLen, UInt16.toNat_ofNat']
    omega
  rw [UInt16.toNat_sub, hrx]
  simp only [UInt16.reduceToNat]
  omega

theorem rxLen_replace : (msg.replace i c).rxLen = msg.rxLen := by
  unfold rxLen
  rw [length_replace]

/-- A character from `CHKSUM` on is not in the sum. -/
theorem calCHKsum_replace (h5 : 5 ≤ msg.rxBuffer.length) (hi : i < msg.rxBuffer.length)
    (h : msg.rxBuffer.length ≤ i + 5) : calCHKsum (msg.replace i c) = calCHKsum msg := by
  unfold calCHKsum
  rw [rxLen_replace]
  refine chksum_congr fun j _ hj => ?_
  rw [toNat_summed h5] at hj
  rw [byte_replace hi, if_neg (by omega)]

/-- One before it is. -/
theorem calCHKsum_replace_ne (h0 : 0 < i) (h : i + 5 < msg.rxBuffer.length)
    (hc : c ≠ msg.byte i) : calCHKsum (msg.replace i c) ≠ calCHKsum msg := by
  unfold calCHKsum
  rw [rxLen_replace]
  refine chksum_ne h0 (by rw [toNat_summed (by omega)]; omega) ?_ fun j hj => ?_
  · rwa [byte_replace (by omega), if_pos rfl]
  · rw [byte_replace (by omega), if_neg hj]

end replace

/-! ## What the checksum is worth -/

/-- **On a proofread string** a replaced digit keeps the handler from
execution. -/
theorem not_executed_replace {i : Nat} {c : UInt8} {heap' : Int → UInt8}
    (hx : Executed msg s heap) (hp : Proofread msg) (h0 : 0 < i)
    (hi : i + 1 < msg.rxBuffer.length) (hd : IsDigit c) (hc : c ≠ msg.byte i) :
    ¬ Executed (msg.replace i c) s heap' := by
  intro hx'
  obtain ⟨heven, hdig⟩ := hp
  rw [executed_iff] at hx hx'
  have h2 := hx.framed.two_le
  have hlen := length_of_even h2 heven
  set n := msg.usHexLen.toNat with hn
  -- the heap does not matter where the buffer reaches
  have hin : ∀ k < n, msg.ucRxHexBuf heap k = msg.decoded k := fun k hk => ucRxHexBuf_of_lt hk
  have hin' : ∀ k < n, (msg.replace i c).ucRxHexBuf heap' k = (msg.replace i c).decoded k :=
    fun k hk => ucRxHexBuf_of_lt (by rwa [usHexLen_replace])
  by_cases h1 : n = 1
  · -- four characters: both texts are the version
    have hver : (msg.replace i c).decoded 0 = msg.decoded 0 := by
      rw [← hin 0 (by omega), ← hin' 0 (by omega)]
      exact hx'.version.trans hx.version.symm
    refine hc (eq_of_decoded_replace (k := 0) (by omega) (by omega) (by omega) hd ?_ ?_ hver)
    · exact hdig 1 (by omega) (by omega) (by omega)
    · exact hdig 2 (by omega) (by omega) (by omega)
  · have hsum := hx.summed
    have hsum' := hx'.summed
    rw [usHexLen_replace] at hsum'
    have hi₁ : ((n : Int) - 2) = ((n - 2 : Nat) : Int) := by omega
    have hi₂ : ((n : Int) - 1) = ((n - 1 : Nat) : Int) := by omega
    rw [← hn, hi₁, hi₂, hin _ (by omega), hin _ (by omega)] at hsum
    rw [← hn, hi₁, hi₂, hin' _ (by omega), hin' _ (by omega)] at hsum'
    rcases Nat.lt_or_ge (i + 5) msg.rxBuffer.length with hlt | hge
    · -- a summed character: the sum changes, `CHKSUM` does not
      rw [decoded_replace (by omega) (by omega) (Or.inr (by omega)),
        decoded_replace (by omega) (by omega) (Or.inr (by omega)), ← hsum] at hsum'
      exact calCHKsum_replace_ne h0 hlt hc hsum'
    · -- a character of `CHKSUM`: it changes, the sum does not
      rw [calCHKsum_replace (by omega) (by omega) hge, hsum] at hsum'
      obtain ⟨hhi, hlo⟩ := rev16_inj hsum'
      have hall : ∀ k, n ≤ k + 2 → k < n → i = 2 * k + 1 ∨ i = 2 * k + 2 →
          (msg.replace i c).decoded k = msg.decoded k → False := by
        intro k hk hkn hik heq
        refine hc (eq_of_decoded_replace (by omega) (by omega) hik hd ?_ ?_ heq)
        · exact hdig _ (by omega) (by omega) (by omega)
        · exact hdig _ (by omega) (by omega) (by omega)
      rcases Nat.lt_or_ge i (2 * n - 1) with hi' | hi'
      · exact hall (n - 2) (by omega) (by omega) (by omega) hhi.symm
      · exact hall (n - 1) (by omega) (by omega) (by omega) hlo.symm

/-- A replacement that no check sees. -/
theorem executed_replace {i : Nat} {c : UInt8} (hx : Executed msg s heap) (h0 : 0 < i)
    (hi : i + 1 < msg.rxBuffer.length) (hsum : calCHKsum (msg.replace i c) = calCHKsum msg)
    (hdec : ∀ k < msg.usHexLen.toNat, (msg.replace i c).decoded k = msg.decoded k) :
    Executed (msg.replace i c) s (msg.ucRxHexBuf heap) := by
  have hbuf : (msg.replace i c).ucRxHexBuf (msg.ucRxHexBuf heap) = msg.ucRxHexBuf heap := by
    funext j
    unfold ucRxHexBuf
    rw [usHexLen_replace]
    split
    · next hj =>
      have := hdec j.toNat (by omega)
      unfold decoded at this
      rw [this]
    · rfl
  rw [executed_iff] at hx ⊢
  rw [hbuf]
  obtain ⟨h1, h2, h3, h4, h5, h6, h7, h8⟩ := hx
  exact ⟨(framed_replace h0 hi).2 h1, h2, h3, h4, by rw [usHexLen_replace, hsum, h5], h6, h7,
    by rw [usHexLen_replace, h8]⟩

/-- With one character and no byte of its own, the heap decides. -/
theorem executed_replace_three {c : UInt8} (hx : Executed msg s heap)
    (h3 : msg.rxBuffer.length = 3) : ∃ heap', Executed (msg.replace 1 c) s heap' := by
  have hn : msg.usHexLen.toNat = 0 := by
    rw [toNat_usHexLen (by omega), h3]
  have hbuf : ∀ heap, msg.ucRxHexBuf heap = heap ∧ (msg.replace 1 c).ucRxHexBuf heap = heap := by
    intro heap
    constructor
    · funext j
      unfold ucRxHexBuf
      rw [if_neg (by omega)]
    · funext j
      unfold ucRxHexBuf
      rw [usHexLen_replace, if_neg (by omega)]
  obtain ⟨hi, lo, hchk⟩ : ∃ hi lo, rev16 hi lo = calCHKsum (msg.replace 1 c) :=
    ⟨_, _, rev16_eq_iff.2 rfl⟩
  refine ⟨fun j => if j = -2 then hi else if j = -1 then lo else heap j, ?_⟩
  rw [executed_iff, (hbuf _).1] at hx
  rw [executed_iff, (hbuf _).2]
  obtain ⟨h1, h2, h3', h4, h5, h6, h7, h8⟩ := hx
  refine ⟨(framed_replace (by omega) (by omega)).2 h1, h2, h3', h4, ?_, h6, h7, ?_⟩
  · rw [usHexLen_replace, hn]
    exact hchk.symm
  · rw [usHexLen_replace]
    exact h8

/-- **Where a replaced digit is caught.** A frame that is executed is
protected exactly when no character is left over and `CHKSUM` is written in
digits. -/
theorem caught_iff (msg : MessageType) (s : Station) (heap : Int → UInt8)
    (hx : Executed msg s heap) : Caught msg s ↔ Proofread msg := by
  constructor
  · intro hcaught
    have hframed := (executed_iff.1 hx).framed
    have h2 := hframed.two_le
    have hn := toNat_usHexLen h2
    have heven : Even msg.rxBuffer.length := by
      rcases Nat.mod_two_eq_zero_or_one msg.rxBuffer.length with he | hodd
      · exact ⟨msg.rxBuffer.length / 2, by omega⟩
      · exfalso
        -- the last character before EOI is left over
        obtain ⟨c, hd, hc⟩ : ∃ c, IsDigit c ∧ c ≠ msg.byte (msg.rxBuffer.length - 2) := by
          by_cases h : msg.byte (msg.rxBuffer.length - 2) = 0x30
          · exact ⟨0x31, by decide, by rw [h]; decide⟩
          · exact ⟨0x30, by decide, Ne.symm h⟩
        have hno := hcaught _ c (by omega) (by omega) hd hc
        by_cases h3 : msg.rxBuffer.length = 3
        · obtain ⟨heap', hx'⟩ := executed_replace_three (c := c) hx h3
          rw [h3] at hno
          exact hno heap' hx'
        · refine hno _ (executed_replace hx (by omega) (by omega) ?_ fun k hk => ?_)
          · exact calCHKsum_replace (by omega) (by omega) (by omega)
          · exact decoded_replace hk (by omega) (Or.inr (by omega))
    refine ⟨heven, fun i h0 hge hi => ?_⟩
    by_contra hdig
    have hlen := length_of_even h2 heven
    have hzero : asciiTable (msg.byte i) = 0 := asciiTable_eq_zero hdig
    have hc : (0x30 : UInt8) ≠ msg.byte i := by
      intro h
      rw [← h] at hdig
      exact hdig (by decide)
    by_cases h4 : msg.rxBuffer.length = 4
    · -- the two characters of the version are no zeros
      have hver := (executed_iff.1 hx).version
      have h0' : msg.ucRxHexBuf heap ((0 : Nat) : Int) = msg.decoded 0 :=
        ucRxHexBuf_of_lt (by omega)
      rw [show (0 : Int) = ((0 : Nat) : Int) from rfl, h0', decoded_eq (by omega)] at hver
      rcases (show i = 1 ∨ i = 2 by omega) with rfl | rfl
      · exact version_ne (Or.inl hzero) hver
      · exact version_ne (Or.inr hzero) hver
    · refine hcaught i 0x30 h0 hi (by decide) hc _ (executed_replace hx h0 hi ?_ fun k hk => ?_)
      · exact calCHKsum_replace (by omega) (by omega) (by omega)
      · exact decoded_replace hk (by omega) (Or.inl (by rw [hzero]; decide))
  · intro hp i c h0 hi hd hc heap'
    exact not_executed_replace hx hp h0 hi hd hc

/-- A query for the time, at the address 1. -/
def timeQuery : MessageType where
  rxBuffer := [0x7E, 0x33, 0x31, 0x30, 0x31, 0x32, 0x43, 0x34, 0x44, 0x30, 0x30, 0x30, 0x30,
    0x46, 0x44, 0x38, 0x45, 0x0D]
  stale := fun _ => 0
  fits := by decide

theorem caught_timeQuery : Caught timeQuery factory ↔ Proofread timeQuery :=
  caught_iff timeQuery factory (fun _ => 0) (by
    have h : (gPCProtoHandle timeQuery factory).eval (timeQuery.ucRxHexBuf fun _ => 0) =
        .put framFrmVER 1 .time := by rfl
    rw [Executed, h]
    trivial)

/-- The query with a character too many before EOI. -/
def longQuery : MessageType where
  rxBuffer := [0x7E, 0x33, 0x31, 0x30, 0x31, 0x32, 0x43, 0x34, 0x44, 0x30, 0x30, 0x30, 0x30,
    0x46, 0x44, 0x34, 0x38, 0x30, 0x0D]
  stale := fun _ => 0
  fits := by decide

/-- The character too many may be any digit: the query is executed all the
same. -/
theorem longQuery_not_caught :
    Executed longQuery factory (fun _ => 0) ∧ ¬ Caught longQuery factory := by
  constructor
  · have h : (gPCProtoHandle longQuery factory).eval (longQuery.ucRxHexBuf fun _ => 0) =
        .put framFrmVER 1 .time := by rfl
    rw [Executed, h]
    trivial
  · intro hcaught
    have h : (gPCProtoHandle (longQuery.replace 17 0x31) factory).eval
        ((longQuery.replace 17 0x31).ucRxHexBuf fun _ => 0) = .put framFrmVER 1 .time := by rfl
    refine hcaught 17 0x31 (by decide) (by decide) (by decide) (by decide) (fun _ => 0) ?_
    rw [Executed, h]
    trivial

end BusMonitor
