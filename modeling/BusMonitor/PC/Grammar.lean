import BusMonitor.PC.Handle
import Mathlib.Algebra.Group.Even
/-!
# The grammar of the PC frames

`Sentence` says which strings are commands, in the terms of the protocol
and without reference to the handler. The handler checks markers, CID1,
address, checksum, version and length one after another and stops at the
first that fails, but it never asks whether the string was long enough
for the byte it looks at, nor whether its characters are digits.
`sentence_iff` reads the grammar off those checks, and `keepsGrammar_iff`
says on which strings the handler keeps to it.
-/


namespace BusMonitor

open HexText Probe

/-- The two's complement of a sum of characters, in 16 bits. -/
def checksum (text : List UInt8) : UInt16 :=
  UInt16.ofNat (65536 - (text.map UInt8.toNat).sum % 65536)

/-- **A command.** Between the markers stand `8 + n` bytes of text: version,
address, CID1, a CID2 that is no query for address or version, the length
word, `n` bytes of INFO and the checksum of all characters before it. -/
def Sentence (adr : UInt8) (bs : List UInt8) : Prop :=
  ∃ (text info : List UInt8) (n : Nat) (cid2 : UInt8),
    bs = framFrmSOI :: text ++ [framFrmEOI] ∧ text.length = 2 * (8 + n) ∧
    (∀ c ∈ text, IsDigit c) ∧ cid2 ≠ ePutAddress ∧ cid2 ≠ ePutVersion ∧ info.length = n ∧
    decode text = [framFrmVER, adr, framFrmCID1, cid2] ++
      bigEndian (lchksum (UInt16.ofNat (2 * n))) ++ info ++
      bigEndian (checksum (text.take (2 * (6 + n))))

/-- `CHKsum` is the checksum of the characters after the first one. -/
theorem chksum_eq_checksum {data : Nat → UInt8} {len : UInt16} {text : List UInt8}
    (hlen : len.toNat - 1 = text.length) (h : ∀ i < text.length, data (1 + i) = text.getD i 0) :
    chksum data len = checksum text := by
  have hchars : (List.range' 1 text.length).map (fun i => (data i).toNat) =
      text.map UInt8.toNat := by
    refine List.ext_getElem (by simp) fun i h₁ h₂ => ?_
    rw [List.length_map] at h₂
    simp only [List.getElem_map, List.getElem_range', Nat.one_mul]
    rw [h i h₂, List.getD_eq_getElem _ _ h₂]
  apply UInt16.toNat.inj
  rw [toNat_chksum, hlen, hchars, checksum, UInt16.toNat_ofNat']

/-! ## The checks of the handler -/

namespace MessageType

variable (msg : MessageType) (adr : UInt8)

/-- A decoded byte, for the indices `ASCII2HEX` writes. -/
def decoded (i : Nat) : UInt8 := msg.hex.getD i 0

/-- The characters the decoded bytes come from. -/
def text : List UInt8 := (msg.rxBuffer.drop 1).take (2 * msg.usHexLen.toNat)

def Framed : Prop := msg.byte 0 = framFrmSOI ∧ msg.lastByte = framFrmEOI

def Cid1 : Prop := msg.decoded 2 = framFrmCID1

def Addressed : Prop := msg.decoded 3 ≠ ePutAddress ∧ msg.decoded 1 = adr

def Summed : Prop :=
  calCHKsum msg =
    rev16 (msg.decoded (msg.usHexLen.toNat - 2)) (msg.decoded (msg.usHexLen.toNat - 1))

def Versioned : Prop := msg.decoded 3 ≠ ePutVersion ∧ msg.decoded 0 = framFrmVER

def Sized : Prop := rev16 (msg.decoded 4) (msg.decoded 5) = lchksum ((msg.usHexLen - 8) * 2)

/-- What the handler does not check: room for the eight bytes every frame
has, no character left over, and digits only. -/
def Textual : Prop :=
  8 ≤ msg.usHexLen.toNat ∧ Even msg.rxBuffer.length ∧ ∀ c ∈ msg.text, IsDigit c

variable {msg adr}

/-- The length of the decoded buffer, once there is room for two
markers. -/
theorem toNat_usHexLen (h : 2 ≤ msg.rxBuffer.length) :
    msg.usHexLen.toNat = (msg.rxBuffer.length - 2) / 2 := by
  have hfit := msg.fits
  unfold pcRxLen at hfit
  have hdiv : ((msg.rxBuffer.length : Int) - 2).tdiv 2 = ((msg.rxBuffer.length - 2) / 2 : Nat) := by
    rw [Int.tdiv_eq_ediv_of_nonneg (by omega)]
    omega
  unfold usHexLen
  rw [hdiv, UInt16.toNat_ofNat']
  omega

/-- A framed string holds its two markers. -/
theorem Framed.two_le (h : msg.Framed) : 2 ≤ msg.rxBuffer.length := by
  obtain ⟨h₁, h₂⟩ := h
  by_contra hlt
  unfold lastByte at h₂
  -- with one character the first would be the last; with none the last is 0
  split at h₂
  · exact absurd h₂ (by decide)
  · rw [show msg.rxBuffer.length - 1 = 0 by omega, h₁] at h₂
    exact absurd h₂ (by decide)

theorem byte_of_lt {i : Nat} (h : i < msg.rxBuffer.length) :
    msg.byte i = msg.rxBuffer.getD i 0 := by
  unfold byte
  rw [if_pos h]

theorem length_hex : msg.hex.length = msg.usHexLen.toNat := length_ascii2hex _ _

theorem length_text (h : 2 ≤ msg.rxBuffer.length) : msg.text.length = 2 * msg.usHexLen.toNat := by
  have := toNat_usHexLen h
  simp only [text, List.length_take, List.length_drop]
  omega

theorem getD_text {i : Nat} (h : 2 ≤ msg.rxBuffer.length) (hi : i < 2 * msg.usHexLen.toNat) :
    msg.byte (1 + i) = msg.text.getD i 0 := by
  have := toNat_usHexLen h
  rw [byte_of_lt (by omega)]
  simp only [text, List.getD_eq_getElem?_getD, List.getElem?_take, List.getElem?_drop, if_pos hi]

/-- On text the decoded bytes are those the text stands for. -/
theorem hex_eq_decode (h : 2 ≤ msg.rxBuffer.length) (ht : ∀ c ∈ msg.text, IsDigit c) :
    msg.hex = decode msg.text :=
  ascii2hex_eq_decode (length_text h) (fun _ hi => getD_text h hi) ht

theorem length_of_even (h : 2 ≤ msg.rxBuffer.length) (he : Even msg.rxBuffer.length) :
    msg.rxBuffer.length = 2 * msg.usHexLen.toNat + 2 := by
  obtain ⟨k, hk⟩ := he
  have := toNat_usHexLen h
  omega

/-- `CHKsum` adds up the characters between SOI and CHKSUM. -/
theorem calCHKsum_eq (h : 2 ≤ msg.rxBuffer.length) (h8 : 8 ≤ msg.usHexLen.toNat)
    (he : Even msg.rxBuffer.length) :
    calCHKsum msg = checksum (msg.text.take (2 * (msg.usHexLen.toNat - 2))) := by
  have hlen := length_of_even h he
  have hfit := msg.fits
  have htext := length_text h
  unfold pcRxLen at hfit
  -- the sum stops five characters before the end, at the last one before `CHKSUM`
  have hcount : (msg.rxLen - 5).toNat - 1 = 2 * (msg.usHexLen.toNat - 2) := by
    have hrx : msg.rxLen.toNat = msg.rxBuffer.length := by
      rw [rxLen, UInt16.toNat_ofNat']
      omega
    rw [UInt16.toNat_sub, hrx]
    simp only [UInt16.reduceToNat]
    omega
  refine chksum_eq_checksum ?_ fun i hi => ?_
  · rw [hcount, List.length_take]
    omega
  · rw [List.length_take] at hi
    rw [getD_text h (by omega)]
    simp only [List.getD_eq_getElem?_getD, List.getElem?_take, if_pos (Nat.lt_min.1 hi).1]

/-- The string between its markers. -/
theorem rxBuffer_eq (h : msg.Framed) (he : Even msg.rxBuffer.length) :
    msg.rxBuffer = framFrmSOI :: msg.text ++ [framFrmEOI] := by
  have h2 := h.two_le
  have hlen := length_of_even h2 he
  have htext := length_text h2
  obtain ⟨hfirst, hlast⟩ := h
  rw [lastByte, if_neg (by omega), byte_of_lt (by omega), List.getD_eq_getElem _ _ (by omega)]
    at hlast
  rw [byte_of_lt (by omega), List.getD_eq_getElem _ _ (by omega)] at hfirst
  refine List.ext_getElem (by simp; omega) fun i h₁ h₂ => ?_
  rcases Nat.eq_zero_or_pos i with rfl | hpos
  · exact hfirst
  · obtain ⟨j, rfl⟩ : ∃ j, i = j + 1 := ⟨i - 1, by omega⟩
    simp only [List.cons_append, List.getElem_cons_succ]
    rcases Nat.lt_or_ge j msg.text.length with hj | hj
    · have hchar := getD_text (i := j) h2 (by omega)
      rw [byte_of_lt (by omega), List.getD_eq_getElem _ _ (by omega),
        List.getD_eq_getElem _ _ hj] at hchar
      rw [List.getElem_append_left hj, ← hchar]
      simp only [Nat.add_comm]
    · -- past the text there is the last character alone
      have hj' : j + 1 = msg.rxBuffer.length - 1 := by omega
      rw [List.getElem_append_right hj, List.getElem_singleton, ← hlast]
      simp only [hj']

end MessageType

/-- A list of at least eight bytes, cut the way a frame is. -/
theorem exists_frame {l : List UInt8} {n : Nat} (h : l.length = 8 + n) :
    ∃ (a b c d e f x y : UInt8) (info : List UInt8), info.length = n ∧
      l = [a, b, c, d] ++ [e, f] ++ info ++ [x, y] := by
  rcases l with _ | ⟨a, _ | ⟨b, _ | ⟨c, _ | ⟨d, _ | ⟨e, _ | ⟨f, rest⟩⟩⟩⟩⟩⟩ <;>
    simp only [List.length_cons, List.length_nil] at h <;> try omega
  have hdrop : (rest.drop n).length = 2 := by
    rw [List.length_drop]
    omega
  obtain ⟨x, y, hxy⟩ := List.length_eq_two.1 hdrop
  refine ⟨a, b, c, d, e, f, x, y, rest.take n, by rw [List.length_take]; omega, ?_⟩
  rw [← hxy]
  simp

namespace MessageType

variable {msg : MessageType} {adr : UInt8}

/-- Where the decoded bytes of a frame stand. -/
theorem decoded_frame {a b c d e f x y : UInt8} {info : List UInt8}
    (h : msg.hex = [a, b, c, d] ++ [e, f] ++ info ++ [x, y]) :
    msg.decoded 0 = a ∧ msg.decoded 1 = b ∧ msg.decoded 2 = c ∧ msg.decoded 3 = d ∧
    msg.decoded 4 = e ∧ msg.decoded 5 = f ∧ msg.decoded (msg.usHexLen.toNat - 2) = x ∧
    msg.decoded (msg.usHexLen.toNat - 1) = y := by
  have hlen : msg.usHexLen.toNat = info.length + 8 := by
    rw [← length_hex, h]
    simp
  unfold decoded
  rw [h, hlen]
  refine ⟨rfl, rfl, rfl, rfl, rfl, rfl, ?_, ?_⟩ <;> simp

/-- The length the handler computes its `LENGTH` from. -/
theorem lengthWord {n : Nat} (h : msg.usHexLen.toNat = 8 + n) :
    (msg.usHexLen - 8) * 2 = UInt16.ofNat (2 * n) := by
  have := msg.usHexLen.toNat_lt
  apply UInt16.toNat.inj
  rw [UInt16.toNat_mul, UInt16.toNat_sub, UInt16.toNat_ofNat', h]
  simp only [UInt16.reduceToNat]
  omega

/-- A string between the two markers, measured. -/
theorem of_rxBuffer {text : List UInt8} {k : Nat}
    (hb : msg.rxBuffer = framFrmSOI :: text ++ [framFrmEOI]) (hl : text.length = 2 * k) :
    msg.Framed ∧ Even msg.rxBuffer.length ∧ msg.usHexLen.toNat = k ∧ msg.text = text := by
  have hlen : msg.rxBuffer.length = 2 * k + 2 := by
    rw [hb]
    simp [hl]
  have hk : msg.usHexLen.toNat = k := by
    have := toNat_usHexLen (show 2 ≤ msg.rxBuffer.length by omega)
    omega
  refine ⟨⟨?_, ?_⟩, ⟨k + 1, by omega⟩, hk, ?_⟩
  · rw [byte_of_lt (by omega), hb]
    rfl
  · rw [lastByte, if_neg (by omega), byte_of_lt (by omega), hlen, hb, ← hl]
    simp
  · rw [MessageType.text, hk, hb, ← hl]
    simp

end MessageType

open MessageType

variable {msg : MessageType} {adr : UInt8}

/-- **The grammar is the checks on top of text.** -/
theorem sentence_iff : Sentence adr msg.rxBuffer ↔
    msg.Framed ∧ msg.Textual ∧ msg.Cid1 ∧ msg.Addressed adr ∧ msg.Summed ∧ msg.Versioned ∧
      msg.Sized := by
  constructor
  · rintro ⟨text, info, n, cid2, hb, hl, hd, hadr, hver, rfl, hdec⟩
    obtain ⟨hf, he, hk, rfl⟩ := of_rxBuffer hb hl
    have hhex := hex_eq_decode hf.two_le hd
    rw [hdec] at hhex
    obtain ⟨h0, h1, h2, h3, h4, h5, hx, hy⟩ := decoded_frame hhex
    have h8 : 8 ≤ msg.usHexLen.toNat := by omega
    refine ⟨hf, ⟨h8, he, hd⟩, h2, ⟨by rwa [h3], h1⟩, ?_, ⟨by rwa [h3], h0⟩, ?_⟩
    · rw [Summed, hx, hy, calCHKsum_eq hf.two_le h8 he, eq_comm, rev16_eq_iff,
        show msg.usHexLen.toNat - 2 = 6 + info.length by omega]
      rfl
    · rw [Sized, h4, h5, rev16_eq_iff, lengthWord hk]
      rfl
  · rintro ⟨hf, ⟨h8, he, hd⟩, hcid, ⟨hadr, haddr⟩, hsum, ⟨hver, hv⟩, hsize⟩
    obtain ⟨n, hn⟩ := Nat.exists_eq_add_of_le h8
    obtain ⟨a, b, c, d, e, f, x, y, info, hinfo, hhex⟩ := exists_frame (length_hex.trans hn)
    obtain ⟨h0, h1, h2, h3, h4, h5, hx, hy⟩ := decoded_frame hhex
    rw [Summed, hx, hy, calCHKsum_eq hf.two_le h8 he, eq_comm, rev16_eq_iff,
      show msg.usHexLen.toNat - 2 = 6 + n by omega] at hsum
    rw [Sized, h4, h5, rev16_eq_iff, lengthWord hn] at hsize
    refine ⟨msg.text, info, n, d, rxBuffer_eq hf he, (length_text hf.two_le).trans (by omega), hd,
      h3 ▸ hadr, h3 ▸ hver, hinfo, ?_⟩
    rw [← hex_eq_decode hf.two_le hd, hhex, hsum, hsize, ← h0, ← h1, ← h2, hv, haddr, hcid]

/-! ## Which strings the handler treats by the grammar -/

/-- An index `ASCII2HEX` wrote. -/
def InBuffer (msg : MessageType) (i : Int) : Prop := 0 ≤ i ∧ i < msg.usHexLen.toNat

/-- The handler executes the commands and nothing else, and looks at
decoded bytes only. -/
def KeepsGrammar (msg : MessageType) (s : Station) (heap : Int → UInt8) : Prop :=
  (((gPCProtoHandle msg s).eval (msg.ucRxHexBuf heap)).Executes ↔
    Sentence s.optimset.ucComAddr msg.rxBuffer) ∧
  ∀ i ∈ (gPCProtoHandle msg s).reads (msg.ucRxHexBuf heap), InBuffer msg i

/-- The strings with room for every byte a check looks at, and with
nothing but text once all checks have passed. -/
def Sufficient (adr : UInt8) (msg : MessageType) : Prop :=
  msg.Framed → 3 ≤ msg.usHexLen.toNat ∧ (msg.Cid1 → 4 ≤ msg.usHexLen.toNat ∧
    (msg.Addressed adr → msg.Summed → msg.Versioned → 6 ≤ msg.usHexLen.toNat ∧
      (msg.Sized → msg.Textual)))

variable {s : Station} {heap : Int → UInt8} {S : Prop}

/-- Within its bounds the buffer holds the decoded bytes. -/
theorem ucRxHexBuf_of_lt {i : Nat} (h : i < msg.usHexLen.toNat) :
    msg.ucRxHexBuf heap i = msg.decoded i := by
  unfold MessageType.ucRxHexBuf
  rw [if_pos (by omega)]
  rfl

/-- **Reads within the decoded bytes** make the reaction the same over
every heap. -/
theorem eval_heap_eq {heap' : Int → UInt8}
    (h : ∀ i ∈ (gPCProtoHandle msg s).reads (msg.ucRxHexBuf heap), InBuffer msg i) :
    (gPCProtoHandle msg s).eval (msg.ucRxHexBuf heap) =
      (gPCProtoHandle msg s).eval (msg.ucRxHexBuf heap') := by
  refine eval_congr fun i hi => ?_
  obtain ⟨h0, hlt⟩ := h i hi
  obtain ⟨k, rfl⟩ := Int.eq_ofNat_of_zero_le h0
  rw [ucRxHexBuf_of_lt (by omega), ucRxHexBuf_of_lt (by omega)]

section reads

variable {m : Int → UInt8} {len : UInt16} {i : Int}

theorem reads_setByte {tested : Bool} {put : Optimset → UInt8 → Optimset}
    (h : i ∈ (setByte tested put len s).reads m) : len = 1 ∧ (i = 0 ∨ i = 7) := by
  unfold setByte at h
  by_cases hl : len = 1
  · refine ⟨hl, ?_⟩
    cases tested
    · simp [hl] at h
      omega
    · simp only [hl, if_true, reads_ite, reads_bind] at h
      split at h <;> simp at h <;> omega
  · simp [hl] at h

theorem reads_revWord {k : Int} (h : i ∈ (revWord k).reads m) : i = k ∨ i = k + 1 := by
  simpa [revWord] using h

theorem reads_setWord {put : Optimset → UInt16 → Optimset}
    (h : i ∈ (setWord put len s).reads m) : len = 2 ∧ (i = 7 ∨ i = 8) := by
  unfold setWord at h
  by_cases hl : len = 2
  · simp only [hl, if_true, reads_bind, reads_pure, List.append_nil] at h
    exact ⟨hl, reads_revWord h⟩
  · simp [hl] at h

theorem reads_setBaud (h : i ∈ (setBaud len s).reads m) : len = 2 ∧ (i = 7 ∨ i = 8) := by
  unfold setBaud at h
  by_cases hl : len = 2
  · simp only [hl, if_true, reads_bind, reads_ite, reads_pure, ite_self, List.append_nil] at h
    exact ⟨hl, reads_revWord h⟩
  · simp [hl] at h

theorem reads_setClock (h : i ∈ (setClock len s).reads m) : len = 7 ∧ 6 ≤ i ∧ i ≤ 12 := by
  unfold setClock at h
  by_cases hl : len = 7
  · simp only [hl, if_true, reads_bind, reads_ite, List.mem_append] at h
    rcases h with h | h
    · have := reads_revWord h
      exact ⟨hl, by omega, by omega⟩
    · split at h
      · simp at h
        exact ⟨hl, by omega, by omega⟩
      · simp at h
  · simp [hl] at h

/-- A set request reads past the command type only when its payload has
the length of the setting. -/
theorem reads_nSetSwitch {c : Option Setting} (h : i ∈ (nSetSwitch len s c).reads m) :
    0 ≤ i ∧ len.toNat < 8 ∧ i < len.toNat + 9 := by
  have h1 : (1 : UInt16).toNat = 1 := rfl
  have h2 : (2 : UInt16).toNat = 2 := rfl
  have h7 : (7 : UInt16).toNat = 7 := rfl
  rcases c with _ | c
  · simp [nSetSwitch] at h
  -- each setting tells the length it reads
  cases c <;> simp only [nSetSwitch] at h
  case clock => obtain ⟨rfl, h⟩ := reads_setClock h; omega
  case comBaud => obtain ⟨rfl, h⟩ := reads_setBaud h; omega
  case comAddr | ocThrFst | ocThrSec => obtain ⟨rfl, h⟩ := reads_setByte h; omega
  all_goals
    obtain ⟨rfl, h⟩ := reads_setWord h
    omega

theorem toNat_payload (h8 : 8 ≤ msg.usHexLen.toNat) (hp : (msg.usHexLen - 9).toNat < 8) :
    (msg.usHexLen - 9).toNat + 9 = msg.usHexLen.toNat := by
  -- eight bytes give the length 65535, which is no payload
  have := msg.usHexLen.toNat_lt
  rw [UInt16.toNat_sub] at hp ⊢
  simp only [UInt16.reduceToNat] at hp ⊢
  omega

/-- With eight bytes in the buffer, a set request stays within it. -/
theorem reads_nSetDataInfo {c : UInt8} (h8 : 8 ≤ msg.usHexLen.toNat)
    (h : i ∈ (nSetDataInfo c (msg.usHexLen - 9) s).reads m) : InBuffer msg i := by
  have hswitch : ∀ {c : Option Setting}, i ∈ (nSetSwitch (msg.usHexLen - 9) s c).reads m →
      InBuffer msg i := by
    intro c hc
    obtain ⟨h0, hlt, hi⟩ := reads_nSetSwitch hc
    have := toNat_payload h8 hlt
    exact ⟨h0, by omega⟩
  unfold nSetDataInfo at h
  rw [reads_ite] at h
  split at h
  · exact hswitch h
  · simp only [reads_bind, reads_entry, List.cons_append, List.nil_append, List.mem_cons] at h
    rcases h with rfl | h
    · exact ⟨by omega, by omega⟩
    · exact hswitch h

theorem mem_reads_ite {α : Type} {P c : Prop} [Decidable c] {p q : Decoded α}
    (hp : i ∈ p.reads m → P) (hq : i ∈ q.reads m → P)
    (h : i ∈ (if c then p else q).reads m) : P := by
  split at h
  · exact hp h
  · exact hq h

/-- A put request looks at one byte at most. -/
theorem reads_nTxDataInfo {c : UInt8} : i ∈ (nTxDataInfo c).reads m → i = 6 := by
  have hnone (r : Request) : i ∈ (pure r : Decoded Request).reads m → i = 6 := by simp
  have hentry (f : UInt8 → Request) :
      i ∈ (entry 6 >>= fun b => pure (f b)).reads m → i = 6 := by simp
  unfold nTxDataInfo
  refine mem_reads_ite (hnone _) (mem_reads_ite (hentry _) (mem_reads_ite (hentry _) ?_))
  refine mem_reads_ite (hnone _) (mem_reads_ite (hentry _) (mem_reads_ite (hentry _) ?_))
  refine mem_reads_ite (hentry _) (mem_reads_ite (hentry _) (mem_reads_ite (hnone _) ?_))
  exact mem_reads_ite (hnone _) (hnone _)

end reads

section stages

/-- What a stage of the handler owes: to execute exactly when `S` holds,
and to look at decoded bytes only. -/
def Conforms (msg : MessageType) (heap : Int → UInt8) (S : Prop) (p : Decoded Reaction) : Prop :=
  Obeys (InBuffer msg) (fun r => r.Executes ↔ S) (msg.ucRxHexBuf heap) p

theorem conforms_pure {r : Reaction} :
    Conforms msg heap S (pure r) ↔ (r.Executes ↔ S) := obeys_pure r

/-- A byte the stage looks at is one `ASCII2HEX` wrote. -/
theorem conforms_entry (i : Int) (k : Nat) (hi : i = k) {f : UInt8 → Decoded Reaction} :
    Conforms msg heap S (entry i >>= f) ↔
      k < msg.usHexLen.toNat ∧ Conforms msg heap S (f (msg.decoded k)) := by
  subst hi
  unfold Conforms
  rw [obeys_entry]
  by_cases hk : k < msg.usHexLen.toNat
  · rw [ucRxHexBuf_of_lt hk]
    exact and_congr_left' ⟨fun _ => hk, fun _ => ⟨by omega, by omega⟩⟩
  · exact iff_of_false (fun h => hk (by have := h.1.2; omega)) fun h => hk h.1

/-- A check the grammar makes too: a frame that fails it is no command, and
one that passes is left to the next stage. -/
theorem conforms_check {c P R : Prop} [Decidable c] {p : Decoded Reaction} {r : Reaction}
    (hc : c ↔ P) (hr : ¬ r.Executes) (hS : ¬ P → ¬ S) (hp : P → (Conforms msg heap S p ↔ R)) :
    Conforms msg heap S (if c then p else pure r) ↔ (P → R) := by
  by_cases h : c
  · rw [if_pos h, hp (hc.1 h)]
    exact ⟨fun h' _ => h', fun h' => h' (hc.1 h)⟩
  · have hP : ¬ P := fun h' => h (hc.2 h')
    rw [if_neg h, conforms_pure]
    exact iff_of_true (iff_of_false hr (hS hP)) fun h' => absurd h' hP

theorem conforms_revWord (i : Int) (k : Nat) (hi : i = k) {f : UInt16 → Decoded Reaction} :
    Conforms msg heap S (revWord i >>= f) ↔ k + 1 < msg.usHexLen.toNat ∧
      Conforms msg heap S (f (rev16 (msg.decoded k) (msg.decoded (k + 1)))) := by
  subst hi
  unfold Conforms
  rw [obeys_bind]
  by_cases hk : k + 1 < msg.usHexLen.toNat
  · have heval : (revWord (k : Int)).eval (msg.ucRxHexBuf heap) =
        rev16 (msg.decoded k) (msg.decoded (k + 1)) := by
      rw [← ucRxHexBuf_of_lt hk, ← ucRxHexBuf_of_lt (show k < _ by omega)]
      rfl
    rw [heval]
    refine and_congr_left' ⟨fun _ => hk, fun _ i hi => ?_⟩
    have := reads_revWord hi
    exact ⟨by omega, by omega⟩
  · refine iff_of_false (fun h => hk ?_) fun h => hk h.1
    have := (h.1 ((k : Int) + 1) (by simp [revWord])).2
    omega

/-- With two bytes there is a `CHKSUM` to compare. -/
theorem conforms_rxCHKsum {f : UInt16 → Decoded Reaction} (h2 : 2 ≤ msg.usHexLen.toNat) :
    Conforms msg heap S (rxCHKsum msg >>= f) ↔
      Conforms msg heap S (f (rev16 (msg.decoded (msg.usHexLen.toNat - 2))
        (msg.decoded (msg.usHexLen.toNat - 1)))) := by
  obtain ⟨k, hk⟩ : ∃ k, msg.usHexLen.toNat = k + 2 := ⟨msg.usHexLen.toNat - 2, by omega⟩
  have hrx : rxCHKsum msg = revWord (k : Int) := by
    unfold rxCHKsum revWord
    rw [hk, show ((k + 2 : Nat) : Int) - 2 = k by omega,
      show ((k + 2 : Nat) : Int) - 1 = k + 1 by omega]
  rw [hrx, conforms_revWord k k rfl, hk]
  exact and_iff_right (by omega)

/-- Execution, where the grammar asks for text and nothing else. -/
theorem conforms_execute {c : UInt8} (hS : S ↔ msg.Textual) :
    Conforms msg heap S (execute msg s c) ↔ msg.Textual := by
  have hex : ((execute msg s c).eval (msg.ucRxHexBuf heap)).Executes := by
    unfold execute
    split <;> simp [Reaction.Executes]
  constructor
  · intro h
    exact hS.1 (h.1.1 hex)
  · intro h
    refine ⟨iff_of_true hex (hS.2 h), fun i hi => ?_⟩
    unfold execute at hi
    split at hi
    · simp only [reads_bind, reads_pure, List.append_nil] at hi
      exact reads_nSetDataInfo h.1 hi
    · simp only [reads_bind, reads_pure, List.append_nil] at hi
      have h6 := reads_nTxDataInfo hi
      have h8 := h.1
      exact ⟨by omega, by omega⟩

/-- `eVEROK`: the length word. -/
theorem conforms_atVEROK {c : UInt8} (hS : S ↔ msg.Textual ∧ msg.Sized) :
    Conforms msg heap S (atVEROK msg s c) ↔
      6 ≤ msg.usHexLen.toNat ∧ (msg.Sized → msg.Textual) := by
  unfold atVEROK
  rw [conforms_revWord 4 4 rfl]
  refine and_congr_right fun _ => conforms_check Iff.rfl id (fun h hs => h (hS.1 hs).2) fun hz => ?_
  exact conforms_execute (hS.trans (and_iff_left hz))

/-- `eCHKOK`: the query for the version and the version itself. -/
theorem conforms_atCHKOK (h4 : 4 ≤ msg.usHexLen.toNat)
    (hS : S ↔ msg.Textual ∧ msg.Versioned ∧ msg.Sized) :
    Conforms msg heap S (atCHKOK msg s (msg.decoded 3)) ↔
      (msg.Versioned → 6 ≤ msg.usHexLen.toNat ∧ (msg.Sized → msg.Textual)) := by
  have hfail : ¬ msg.Versioned → ¬ S := fun hv h => hv (hS.1 h).2.1
  unfold atCHKOK
  by_cases hq : msg.decoded 3 = ePutVersion
  · -- the query is answered here, and is no command
    have hv : ¬ msg.Versioned := fun h => h.1 hq
    rw [if_pos hq, conforms_pure]
    exact iff_of_true (iff_of_false id (hfail hv)) fun h => absurd h hv
  · rw [if_neg hq, conforms_entry 0 0 rfl, and_iff_right (by omega)]
    refine conforms_check (iff_and_self.2 fun _ => hq) id hfail fun hv => ?_
    exact conforms_atVEROK (hS.trans (by rw [and_iff_right hv]))

/-- `eADROK`: the checksum. -/
theorem conforms_atADROK (h4 : 4 ≤ msg.usHexLen.toNat)
    (hS : S ↔ msg.Textual ∧ msg.Summed ∧ msg.Versioned ∧ msg.Sized) :
    Conforms msg heap S (atADROK msg s (msg.decoded 3)) ↔
      (msg.Summed → msg.Versioned → 6 ≤ msg.usHexLen.toNat ∧ (msg.Sized → msg.Textual)) := by
  unfold atADROK
  rw [conforms_rxCHKsum (by omega)]
  refine conforms_check Iff.rfl id (fun h hs => h (hS.1 hs).2.1) fun hsum => ?_
  exact conforms_atCHKOK h4 (hS.trans (by rw [and_iff_right hsum]))

/-- The query for the address is answered from decoded bytes. -/
theorem conforms_putAddress (h4 : 4 ≤ msg.usHexLen.toNat) (hS : ¬ S) :
    Conforms msg heap S (putAddress msg s) := by
  have hquiet : ∀ {ver adr : UInt8} {rtn : RTN},
      Conforms msg heap S (pure (.answered ver adr rtn)) :=
    conforms_pure.2 (iff_of_false id hS)
  unfold putAddress
  rw [conforms_rxCHKsum (by omega)]
  split
  · exact (conforms_entry 0 0 rfl).2 ⟨by omega, hquiet⟩
  · exact (conforms_entry 0 0 rfl).2 ⟨by omega, (conforms_entry 1 1 rfl).2 ⟨by omega, hquiet⟩⟩

/-- `eCID1OK`: the query for the address and the address itself. -/
theorem conforms_atCID1OK
    (hS : S ↔ msg.Textual ∧ msg.Addressed s.optimset.ucComAddr ∧ msg.Summed ∧ msg.Versioned ∧
      msg.Sized) :
    Conforms msg heap S (atCID1OK msg s) ↔ 4 ≤ msg.usHexLen.toNat ∧
      (msg.Addressed s.optimset.ucComAddr → msg.Summed → msg.Versioned →
        6 ≤ msg.usHexLen.toNat ∧ (msg.Sized → msg.Textual)) := by
  have hfail : ¬ msg.Addressed s.optimset.ucComAddr → ¬ S := fun h hs => h (hS.1 hs).2.1
  unfold atCID1OK
  rw [conforms_entry 3 3 rfl]
  refine and_congr_right fun h4 => ?_
  by_cases hq : msg.decoded 3 = ePutAddress
  · -- the query is answered here, and is no command
    have ha : ¬ msg.Addressed s.optimset.ucComAddr := fun h => h.1 hq
    rw [if_pos hq]
    exact iff_of_true (conforms_putAddress h4 (hfail ha)) fun h => absurd h ha
  · rw [if_neg hq, conforms_entry 1 1 rfl, and_iff_right (by omega)]
    refine conforms_check (iff_and_self.2 fun _ => hq) id hfail fun ha => ?_
    exact conforms_atADROK h4 (hS.trans (by rw [and_iff_right ha]))

end stages

/-- **The handler against the grammar.** On every string and over every
heap, it executes exactly the commands and stays within the decoded bytes
if and only if the string is sufficient. -/
theorem keepsGrammar_iff (msg : MessageType) (s : Station) (heap : Int → UInt8) :
    KeepsGrammar msg s heap ↔ Sufficient s.optimset.ucComAddr msg := by
  have hS : Sentence s.optimset.ucComAddr msg.rxBuffer ↔ _ := sentence_iff
  change Conforms msg heap _ (gPCProtoHandle msg s) ↔ _
  unfold gPCProtoHandle Sufficient
  refine conforms_check Iff.rfl id (fun hf h => hf (hS.1 h).1) fun hf => ?_
  rw [conforms_entry 2 2 rfl]
  refine and_congr_right fun _ => ?_
  refine conforms_check Iff.rfl id (fun hc h => hc (hS.1 h).2.2.1) fun hc => ?_
  refine conforms_atCID1OK ?_
  rw [hS, and_iff_right hf, and_iff_right hc]

/-- The two markers alone. -/
def markersOnly : MessageType where
  rxBuffer := [0x7E, 0x0D]
  stale := fun _ => 0
  fits := by decide

/-- A query for the time, its address written `:1`. -/
def colonAddress : MessageType where
  rxBuffer := [0x7E, 0x33, 0x31, 0x3A, 0x31, 0x32, 0x43, 0x34, 0x44, 0x30, 0x30, 0x30, 0x30,
    0x46, 0x44, 0x38, 0x34, 0x0D]
  stale := fun _ => 0
  fits := by decide

/-- The markers alone are looked at past an empty buffer, and a colon
stands for the digit 0: its frame is executed and is no command. -/
theorem stray_frames :
    ¬ KeepsGrammar markersOnly factory (fun _ => 0) ∧
    ¬ KeepsGrammar colonAddress factory (fun _ => 0) := by
  constructor
  · intro h
    have h2 : (2 : Int) ∈ (gPCProtoHandle markersOnly factory).reads
        (markersOnly.ucRxHexBuf fun _ => 0) := by decide +kernel
    exact absurd (h.2 2 h2).2 (by decide +kernel)
  · intro h
    have hput : (gPCProtoHandle colonAddress factory).eval (colonAddress.ucRxHexBuf fun _ => 0) =
        .put framFrmVER 1 .time := by rfl
    have hcmd := sentence_iff.1 (h.1.1 (by rw [hput]; trivial))
    exact absurd (hcmd.2.1.2.2 0x3A (by decide +kernel)) (by decide)

end BusMonitor
