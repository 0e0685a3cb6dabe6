import BusMonitor.PC.Grammar
/-!
# The reply frames

`nTxFramHandle` of `app_PCProto.c`. It fills a buffer of its own at
offsets counted from the start, out of a packed structure in the byte
order of the processor; the handler reads frames at offsets counted from
the end. `reply_decodes` says that the two agree on every reply.
-/


namespace BusMonitor

open HexText

/-! ## The frame structure -/

/-- `FrameFormatTypeDef`. `INFO` is what its pointer points at. -/
structure FrameFormat where
  soi : UInt8
  ver : UInt8
  adr : UInt8
  cid1 : UInt8
  cid2 : UInt8
  length : UInt16
  info : Nat → UInt8
  chksum : UInt16
  eoi : UInt8

/-- `__REV16` of a word. -/
def swap16 (w : UInt16) : UInt16 := rev16 w.toUInt8 (w >>> 8).toUInt8

/-- A word in memory, low byte first. -/
def littleEndian (w : UInt16) : List UInt8 := [w.toUInt8, (w >>> 8).toUInt8]

namespace FrameFormat

variable (f : FrameFormat)

/-- The six bytes behind `SOI`: the structure is packed. -/
def header : List UInt8 := [f.ver, f.adr, f.cid1, f.cid2] ++ littleEndian f.length

/-- What `gPCProtoHandle` stores before it replies. -/
def answer (ver adr cid1 : UInt8) : FrameFormat :=
  { f with soi := framFrmSOI, ver := ver, adr := adr, cid1 := cid1, eoi := framFrmEOI }

/-- `DATA_INFO`, of `n` bytes. -/
def dataInfo (n : Nat) : List UInt8 := (List.range n).map f.info

end FrameFormat

/-- `nTxFramHandle`: the characters it sends. `TxAsciiBuf` comes from the
heap. -/
def nTxFramHandle (f : FrameFormat) (heap : Mem) (len : UInt16) (rtn : UInt8) : List UInt8 :=
  let lenid := 2 * len
  let txAsciiBuf := heap.write 0 [f.soi]
  let txAsciiBuf := txAsciiBuf.write (17 + lenid.toNat) [framFrmEOI]
  let f := { f with cid2 := rtn, length := swap16 (lchksum lenid) }
  let txAsciiBuf := txAsciiBuf.write 1 (hex2ascii (fun i => f.header.getD i 0) 6)
  let txAsciiBuf := txAsciiBuf.write (1 + 12) (hex2ascii f.info len.toNat)
  let f := { f with chksum := swap16 (chksum txAsciiBuf (13 + lenid)) }
  let txAsciiBuf := txAsciiBuf.write (13 + lenid.toNat)
    (hex2ascii (fun i => (littleEndian f.chksum).getD i 0) 2)
  txAsciiBuf.read 0 (18 + lenid.toNat)

/-! ## The checks on a string -/

/-- `usHexLen`, for a string with room for the markers. -/
def rxHexLen (len : UInt16) : UInt16 := UInt16.ofNat ((len.toNat - 2) / 2)

/-- `ucRxHexBuf`, as `ASCII2HEX` fills it. -/
def rxHexBuf (pRxData : Nat → UInt8) (len : UInt16) : List UInt8 :=
  ascii2hex (fun i => pRxData (1 + i)) (rxHexLen len).toNat

/-- What `gPCProtoHandle` checks of any string it is given, whatever the
address and the command: the markers, `CHKSUM` and `LENGTH`. -/
structure Passes (pRxData : Nat → UInt8) (len : UInt16) : Prop where
  soi : pRxData 0 = framFrmSOI
  eoi : pRxData (len.toNat - 1) = framFrmEOI
  chksum : BusMonitor.chksum pRxData (len - 5) =
    rev16 ((rxHexBuf pRxData len).getD ((rxHexLen len).toNat - 2) 0)
      ((rxHexBuf pRxData len).getD ((rxHexLen len).toNat - 1) 0)
  length : rev16 ((rxHexBuf pRxData len).getD 4 0) ((rxHexBuf pRxData len).getD 5 0) =
    lchksum ((rxHexLen len - 8) * 2)

/-- On a message these are the checks of the handler. -/
theorem passes_iff {msg : MessageType} (h : 2 ≤ msg.rxBuffer.length) :
    Passes msg.byte msg.rxLen ↔ msg.Framed ∧ msg.Summed ∧ msg.Sized := by
  have hfit := msg.fits
  unfold pcRxLen at hfit
  have hlen : msg.rxLen.toNat = msg.rxBuffer.length := by
    rw [MessageType.rxLen, UInt16.toNat_ofNat']
    omega
  have hhex : rxHexLen msg.rxLen = msg.usHexLen := by
    apply UInt16.toNat.inj
    rw [MessageType.toNat_usHexLen h, rxHexLen, UInt16.toNat_ofNat', hlen]
    omega
  have hbuf : rxHexBuf msg.byte msg.rxLen = msg.hex := by
    rw [rxHexBuf, hhex]
    rfl
  have hlast : msg.lastByte = msg.byte (msg.rxLen.toNat - 1) := by
    rw [MessageType.lastByte, if_neg (by omega), hlen]
  constructor
  · rintro ⟨hsoi, heoi, hsum, hsize⟩
    rw [hbuf, hhex] at hsum hsize
    exact ⟨⟨hsoi, hlast.trans heoi⟩, hsum, hsize⟩
  · rintro ⟨⟨hsoi, heoi⟩, hsum, hsize⟩
    refine ⟨hsoi, hlast.symm.trans heoi, ?_, ?_⟩
    · rw [hbuf, hhex]
      exact hsum
    · rw [hbuf, hhex]
      exact hsize

/-! ## The frame as text -/

/-- `__REV16` turns the order in memory into that of the frame. -/
theorem littleEndian_swap16 (w : UInt16) : littleEndian (swap16 w) = bigEndian w := by
  have h : [w.toUInt8, (w >>> 8).toUInt8] = bigEndian (swap16 w) := rev16_eq_iff.1 rfl
  simp only [bigEndian, littleEndian, List.cons.injEq, and_true] at h ⊢
  exact ⟨h.2.symm, h.1.symm⟩

section Layout

variable {m : Mem} {header info sum : List UInt8} {soi eoi : UInt8}

/-- The buffer before `CHKSUM` is put in. -/
def beforeSum (m : Mem) (soi eoi : UInt8) (header info : List UInt8) : Mem :=
  (((m.write 0 [soi]).write (17 + info.length) [eoi]).write 1 header).write (1 + 12) info

/-- The characters `CHKsum` runs over. -/
theorem read_beforeSum (h : header.length = 12) :
    (beforeSum m soi eoi header info).read 1 (12 + info.length) = header ++ info := by
  unfold beforeSum
  rw [Mem.read_add, Mem.read_write_self, ← h, Mem.read_write_disjoint (by omega),
    Mem.read_write_self]

/-- Every character of the buffer is put in once. -/
theorem read_afterSum (h : header.length = 12) (hsum : sum.length = 4) :
    ((beforeSum m soi eoi header info).write (13 + info.length) sum).read 0 (18 + info.length) =
      soi :: (header ++ info ++ sum) ++ [eoi] := by
  have hcut : 18 + info.length = 1 + ((12 + info.length) + (sum.length + 1)) := by omega
  have hstart : ∀ n, 0 + 1 + (12 + n) = 13 + n := by omega
  have hfirst : ((beforeSum m soi eoi header info).write (13 + info.length) sum).read 0 1 =
      [soi] := by
    unfold beforeSum
    rw [Mem.read_write_disjoint (by omega), Mem.read_write_disjoint (by omega),
      Mem.read_write_disjoint (by omega), Mem.read_write_disjoint (by omega)]
    exact Mem.read_write_self
  have hlast : ((beforeSum m soi eoi header info).write (13 + info.length) sum).read
      (13 + info.length + sum.length) 1 = [eoi] := by
    have hat : 13 + info.length + sum.length = 17 + info.length := by omega
    unfold beforeSum
    rw [hat, Mem.read_write_disjoint (by omega), Mem.read_write_disjoint (by omega),
      Mem.read_write_disjoint (by omega)]
    exact Mem.read_write_self
  rw [hcut, Mem.read_add _ 0 1, Mem.read_add _ (0 + 1) (12 + info.length), hstart,
    Mem.read_add _ (13 + info.length) sum.length 1, hfirst, hlast, Mem.read_write_self,
    Mem.read_write_disjoint (by omega), read_beforeSum h]
  simp

end Layout

/-- The bytes between the markers, without `CHKSUM`. -/
def summed (ver adr cid1 rtn : UInt8) (info : List UInt8) : List UInt8 :=
  [ver, adr, cid1, rtn] ++ bigEndian (lchksum (UInt16.ofNat (2 * info.length))) ++ info

variable (f : FrameFormat) (heap : Mem) (ver adr cid1 rtn : UInt8) {n : Nat}

/-- **The frame.** What is sent is the text of the bytes and of their
checksum between the two markers. -/
theorem nTxFramHandle_eq (hn : 2 * n ≤ 0xFFF) :
    nTxFramHandle (f.answer ver adr cid1) heap (UInt16.ofNat n) rtn =
      framFrmSOI :: encode (summed ver adr cid1 rtn (f.dataInfo n) ++
        bigEndian (checksum (encode (summed ver adr cid1 rtn (f.dataInfo n))))) ++
        [framFrmEOI] := by
  have hlenid : 2 * UInt16.ofNat n = UInt16.ofNat (2 * n) := by
    apply UInt16.toNat.inj
    rw [UInt16.toNat_mul, UInt16.toNat_ofNat', UInt16.toNat_ofNat']
    simp only [UInt16.reduceToNat]
    omega
  have hL : (UInt16.ofNat (2 * n)).toNat = 2 * n := by
    rw [UInt16.toNat_ofNat']
    omega
  have hlen : (UInt16.ofNat n).toNat = n := by
    rw [UInt16.toNat_ofNat']
    omega
  have hinfo : (f.dataInfo n).length = n := by simp [FrameFormat.dataInfo]
  have hheader : ∀ w : UInt16,
      hex2ascii (fun i => ([ver, adr, cid1, rtn] ++ bigEndian w).getD i 0) 6 =
        encode ([ver, adr, cid1, rtn] ++ bigEndian w) := fun w => hex2ascii_eq_encode _ _
  have hdata : hex2ascii f.info n = encode (f.dataInfo n) := hex2ascii_eq_encode _ _
  have hsum : ∀ w : UInt16, hex2ascii (fun i => (bigEndian w).getD i 0) 2 =
      encode (bigEndian w) := fun w => hex2ascii_eq_encode _ _
  unfold nTxFramHandle
  simp only [FrameFormat.answer, FrameFormat.header, hlenid, hL, hlen, littleEndian_swap16,
    hheader, hdata, hsum]
  generalize hH : encode ([ver, adr, cid1, rtn] ++ bigEndian (lchksum (UInt16.ofNat (2 * n)))) =
    header
  generalize hD : encode (f.dataInfo n) = info
  have hHlen : header.length = 12 := by simp [← hH, bigEndian]
  have hDlen : info.length = 2 * n := by rw [← hD, length_encode, hinfo]
  have htext : encode (summed ver adr cid1 rtn (f.dataInfo n)) = header ++ info := by
    rw [summed, hinfo, encode_append, hH, hD]
  have hbefore : (((heap.write 0 [framFrmSOI]).write (17 + 2 * n) [framFrmEOI]).write 1
      header).write (1 + 12) info = beforeSum heap framFrmSOI framFrmEOI header info := by
    rw [beforeSum, hDlen]
  -- `CHKsum` runs over the header and the data
  have hchk : chksum (beforeSum heap framFrmSOI framFrmEOI header info)
      (13 + UInt16.ofNat (2 * n)) = checksum (header ++ info) := by
    refine chksum_eq_checksum ?_ fun i hi => ?_
    · rw [UInt16.toNat_add, hL, List.length_append, hHlen, hDlen]
      simp only [UInt16.reduceToNat]
      omega
    · have hread : (beforeSum heap framFrmSOI framFrmEOI header info).read 1 (12 + info.length) =
          header ++ info := read_beforeSum hHlen
      rw [← hread, Mem.getD_read (by simp only [List.length_append] at hi; omega)]
  rw [hbefore, hchk, encode_append, htext, ← hDlen]
  exact read_afterSum hHlen (by simp [bigEndian])

/-! ## Replies decode to what was sent -/

/-- `LENGTH`: the low 12 bits are the length of the text, and its three
digits and the top one add up to a multiple of sixteen. -/
def LengthField (w : UInt16) (lenid : Nat) : Prop :=
  w.toNat % 4096 = lenid ∧
    (w.toNat / 4096 + lenid / 256 % 16 + lenid / 16 % 16 + lenid % 16) % 16 = 0

/-- **What a reply has to be.** `frame` carries `info` under the four bytes
of its header. -/
structure Carries (frame : List UInt8) (ver adr cid1 rtn : UInt8) (info : List UInt8) : Prop where
  length : frame.length = 18 + 2 * info.length
  soi : frame.head? = some 0x7E
  eoi : frame.getLast? = some 0x0D
  passes : Passes (fun i => frame.getD i 0) (UInt16.ofNat frame.length)
  decodes : ∃ lengthWord : UInt16, LengthField lengthWord (2 * info.length) ∧
    ascii2hex (fun i => frame.getD (1 + i) 0) (8 + info.length) =
      [ver, adr, cid1, rtn] ++ bigEndian lengthWord ++ info ++
        bigEndian (checksum ((frame.drop 1).take (12 + 2 * info.length)))

theorem lengthField_lchksum {lenid : Nat} (h : lenid ≤ 0xFFF) :
    LengthField (lchksum (UInt16.ofNat lenid)) lenid := by
  unfold LengthField
  rw [toNat_lchksum h]
  have hneg : ∀ s, ((16 - s % 16) % 16 + s) % 16 = 0 := by omega
  have htop := hneg (lenid % 16 + lenid / 16 % 16 + lenid / 256 % 16)
  generalize (16 - (lenid % 16 + lenid / 16 % 16 + lenid / 256 % 16) % 16) % 16 = top at htop ⊢
  have hdiv : (top * 4096 + lenid) / 4096 = top := by omega
  rw [hdiv]
  omega

/-- The string the handler reads, character by character. -/
theorem getD_frame {text : List UInt8} {a b : UInt8} {i : Nat} (h : i < text.length) :
    (a :: text ++ [b]).getD (1 + i) 0 = text.getD i 0 := by
  rw [List.cons_append, Nat.add_comm, List.getD_cons_succ, List.getD_append _ _ _ _ h]

/-- The handler decodes the text between the markers to its bytes. -/
theorem ascii2hex_frame {bs : List UInt8} {n : Nat} (h : bs.length = n) :
    ascii2hex (fun i => (framFrmSOI :: encode bs ++ [framFrmEOI]).getD (1 + i) 0) n = bs := by
  have htext : (encode bs).length = 2 * n := by rw [length_encode, h]
  rw [ascii2hex_eq_decode htext (fun i hi => getD_frame (by omega)) isDigit_encode]
  exact decode_encode bs

/-- Text between the markers passes the checks when its bytes do. -/
theorem passes_text {a b c d e g x y : UInt8} {info bs : List UInt8}
    (hn : 2 * info.length ≤ 0xFFF)
    (hbs : bs = [a, b, c, d] ++ [e, g] ++ info ++ [x, y])
    (hlen : [e, g] = bigEndian (lchksum (UInt16.ofNat (2 * info.length))))
    (hsum : [x, y] = bigEndian (checksum (encode ([a, b, c, d] ++ [e, g] ++ info)))) :
    Passes (fun i => (framFrmSOI :: encode bs ++ [framFrmEOI]).getD i 0)
      (UInt16.ofNat (18 + 2 * info.length)) := by
  have hbslen : bs.length = 8 + info.length := by
    simp only [hbs, List.length_append, List.length_cons, List.length_nil]
    omega
  have htext : (encode bs).length = 2 * (8 + info.length) := by rw [length_encode, hbslen]
  have hrx : (UInt16.ofNat (18 + 2 * info.length)).toNat = 18 + 2 * info.length := by
    rw [UInt16.toNat_ofNat']
    omega
  have hhex : (rxHexLen (UInt16.ofNat (18 + 2 * info.length))).toNat = 8 + info.length := by
    rw [rxHexLen, UInt16.toNat_ofNat', hrx]
    omega
  have hbuf : rxHexBuf (fun i => (framFrmSOI :: encode bs ++ [framFrmEOI]).getD i 0)
      (UInt16.ofNat (18 + 2 * info.length)) = bs := by
    rw [rxHexBuf, hhex]
    exact ascii2hex_frame hbslen
  -- `CHKsum` stops where the characters of `CHKSUM` begin
  have hchk : chksum (fun i => (framFrmSOI :: encode bs ++ [framFrmEOI]).getD i 0)
      (UInt16.ofNat (18 + 2 * info.length) - 5) =
        checksum (encode ([a, b, c, d] ++ [e, g] ++ info)) := by
    have hpre : (encode ([a, b, c, d] ++ [e, g] ++ info)).length = 2 * (6 + info.length) := by
      rw [length_encode]
      simp only [List.length_append, List.length_cons, List.length_nil]
    refine chksum_eq_checksum ?_ fun i hi => ?_
    · rw [UInt16.toNat_sub, hrx, hpre]
      simp only [UInt16.reduceToNat]
      omega
    · rw [getD_frame (by omega), hbs, encode_append _ [x, y], List.getD_append _ _ _ _ hi]
  have hlast : 18 + 2 * info.length - 1 - (framFrmSOI :: encode bs).length = 0 := by
    rw [List.length_cons, htext]
    omega
  refine ⟨rfl, ?_, ?_, ?_⟩
  · rw [hrx, List.getD_append_right _ _ _ _ (by rw [List.length_cons, htext]; omega), hlast]
    rfl
  · have hxy := rev16_eq_iff.2 hsum
    rw [hbuf, hchk, hhex, ← hxy, hbs, Nat.add_comm 8]
    simp
  · have hword : (rxHexLen (UInt16.ofNat (18 + 2 * info.length)) - 8) * 2 =
        UInt16.ofNat (2 * info.length) := by
      apply UInt16.toNat.inj
      rw [UInt16.toNat_mul, UInt16.toNat_sub, hhex, UInt16.toNat_ofNat']
      simp only [UInt16.reduceToNat]
      omega
    rw [hbuf, hword, ← rev16_eq_iff.2 hlen, hbs]
    rfl

variable (f : FrameFormat) (heap : Mem) (ver adr cid1 rtn : UInt8) {n : Nat}

/-- **Replies decode to what was sent.** -/
theorem reply_decodes (hn : 2 * n ≤ 0xFFF) :
    Carries (nTxFramHandle (f.answer ver adr cid1) heap (UInt16.ofNat n) rtn) ver adr cid1 rtn
      (f.dataInfo n) := by
  have hinfo : (f.dataInfo n).length = n := by simp [FrameFormat.dataInfo]
  rw [nTxFramHandle_eq f heap ver adr cid1 rtn hn]
  generalize f.dataInfo n = info at hinfo ⊢
  subst hinfo
  have hlen : (summed ver adr cid1 rtn info).length = 6 + info.length := by
    simp only [summed, bigEndian, List.length_append, List.length_cons, List.length_nil]
  generalize hsum : checksum (encode (summed ver adr cid1 rtn info)) = sum
  have htext : (encode (summed ver adr cid1 rtn info ++ bigEndian sum)).length =
      2 * (8 + info.length) := by
    rw [length_encode, List.length_append, hlen]
    simp only [bigEndian, List.length_cons, List.length_nil]
    omega
  have hframe : (framFrmSOI :: encode (summed ver adr cid1 rtn info ++ bigEndian sum) ++
      [framFrmEOI]).length = 18 + 2 * info.length := by
    simp only [List.length_append, List.length_cons, List.length_nil, htext]
    omega
  refine ⟨hframe, rfl, List.getLast?_concat, ?_, _, lengthField_lchksum hn, ?_⟩
  · rw [hframe]
    exact passes_text hn rfl rfl (congrArg bigEndian hsum.symm)
  · -- the summed characters are those of everything before `CHKSUM`
    have hchars : ((framFrmSOI :: encode (summed ver adr cid1 rtn info ++ bigEndian sum) ++
        [framFrmEOI]).drop 1).take (12 + 2 * info.length) =
          encode (summed ver adr cid1 rtn info) := by
      have hcut : (encode (summed ver adr cid1 rtn info)).length = 12 + 2 * info.length := by
        rw [length_encode, hlen]
        omega
      rw [encode_append, ← hcut]
      simp
    rw [hchars, hsum]
    refine ascii2hex_frame ?_
    rw [List.length_append, hlen]
    simp only [bigEndian, List.length_cons, List.length_nil]
    omega

/-- A reply is a sentence of the grammar its requests are written in: a
station would take it for a command with the reply code as CID2. -/
theorem reply_sentence (hn : 2 * n ≤ 0xFFF) (haddr : rtn ≠ ePutAddress)
    (hver : rtn ≠ ePutVersion) :
    Sentence adr
      (nTxFramHandle (f.answer framFrmVER adr framFrmCID1) heap (UInt16.ofNat n) rtn) := by
  have hinfo : (f.dataInfo n).length = n := by simp [FrameFormat.dataInfo]
  refine ⟨_, f.dataInfo n, n, rtn, nTxFramHandle_eq f heap _ adr _ rtn hn, ?_, isDigit_encode,
    haddr, hver, hinfo, ?_⟩
  · rw [length_encode]
    simp only [summed, bigEndian, List.length_append, List.length_cons, List.length_nil, hinfo]
    omega
  · have hcut : (encode (summed framFrmVER adr framFrmCID1 rtn (f.dataInfo n))).length =
        2 * (6 + n) := by
      rw [length_encode]
      simp only [summed, bigEndian, List.length_append, List.length_cons, List.length_nil, hinfo]
    rw [decode_encode, encode_append, ← hcut, List.take_left, summed, hinfo]

/-- A frame over data of one value. -/
def sampleFormat : FrameFormat := ⟨0, 0, 0, 0, 0, 0, fun _ => 0xA5, 0, 0⟩

/-- The shortest reply and the longest one. -/
theorem reply_decodes_ends :
    Carries (nTxFramHandle (sampleFormat.answer 0x31 1 0x2C) (fun _ => 0) (UInt16.ofNat 0) 0)
      0x31 1 0x2C 0 (sampleFormat.dataInfo 0) ∧
    Carries (nTxFramHandle (sampleFormat.answer 0x31 1 0x2C) (fun _ => 0) (UInt16.ofNat 2047) 0)
      0x31 1 0x2C 0 (sampleFormat.dataInfo 2047) :=
  ⟨reply_decodes _ _ _ _ _ _ (by decide), reply_decodes _ _ _ _ _ _ (by decide)⟩

end BusMonitor
