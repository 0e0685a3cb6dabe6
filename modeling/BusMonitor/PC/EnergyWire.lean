import BusMonitor.PC.DataInfo
import BusMonitor.PC.Settings
/-!
# The energies on the wire

The reply of `nPTEnergy_DataInfo`, from the record `gPTE_Query` returns to
the bytes a reader decodes. Integers travel high byte first. `__REV16` is
the way to that order for a word of 16 bits; the counters have 32, and it
leaves their two halves where they are in memory. `counts_survive_iff` says
which counts a reader gets back.
-/


namespace BusMonitor

open LittleEndian Mem

/-! ## A reader -/

/-- The four bytes of a counter, in a frame decoded to bytes. -/
def counterField (bytes : List UInt8) (i : Nat) : List UInt8 := (bytes.drop (13 + 4 * i)).take 4

/-- **The counts survive.** The first `sent` fields are the counters, high
byte first, and the others are blanks. -/
structure CountsSurvive (bytes : List UInt8) (sent : Nat) (ep : Vector UInt32 8) : Prop where
  counts : ∀ i : Fin 8, i.val < sent → highFirst (counterField bytes i) = (ep.get i).toNat
  blanks : ∀ i : Fin 8, sent ≤ i.val → counterField bytes i = List.replicate 4 0x20

/-- How many counters a bus mode sends. -/
def Setup.sentCounters (c : Setup) : Nat :=
  if c.bBusMode = busModeS ∨ c.bBusMode = busModeY then 8 else 4

/-- The upper half of the count is the lower one. -/
def EqualHalves (e : UInt32) : Prop := e.toNat / 65536 = e.toNat % 65536

instance (e : UInt32) : Decidable (EqualHalves e) := inferInstanceAs (Decidable (_ = _))

namespace Panel

variable (p : Panel)

/-- The record `nPTEnergy_DataInfo` queries. -/
def queriedEnergy : PTEnergy :=
  let base := p.store.usPTEBaseTime
  if base < p.ptEnergyIndex then gPTEQuery p.store p.now base p.ptEnergyIndex
  else gPTEQuery p.store p.now base ((base + 1) % 65536)

/-- The reply as it is sent. `dataInfo` is what the heap holds where
`DataInfo` is allocated. -/
def energyFrame (command : UInt8) (dataInfo heap : Mem) (f : FrameFormat)
    (ver adr cid1 rtn : UInt8) : List UInt8 :=
  let reply := (p.nPTEnergyDataInfo command).2
  nTxFramHandle ({ f with info := dataInfo.writeAll reply.stores }.answer ver adr cid1) heap
    reply.halfLenid rtn

/-- The reply as a reader decodes it. -/
def energyBytes (command : UInt8) (dataInfo heap : Mem) (f : FrameFormat)
    (ver adr cid1 rtn : UInt8) : List UInt8 :=
  let frame := p.energyFrame command dataInfo heap f ver adr cid1 rtn
  rxHexBuf (fun i => frame.getD i 0) (UInt16.ofNat frame.length)

end Panel

/-! ## The order of the bytes -/

/-- A reader takes the lower half for the upper one. -/
theorem highFirst_rev16Bytes (e : UInt32) :
    highFirst (rev16Bytes e) = e.toNat % 65536 * 65536 + e.toNat / 65536 := by
  have he := e.toNat_lt
  simp only [highFirst, rev16Bytes, encode, List.getD_cons_zero, List.getD_cons_succ,
    List.foldl_cons, List.foldl_nil, UInt8.toNat_ofNat', Nat.div_div_eq_div_mul]
  omega

theorem highFirst_rev16Bytes_iff {e : UInt32} :
    highFirst (rev16Bytes e) = e.toNat ↔ EqualHalves e := by
  have hcut := Nat.div_add_mod e.toNat 65536
  rw [highFirst_rev16Bytes, EqualHalves]
  omega

/-! ## The fields -/

section fields

variable {p : Panel} {command : UInt8}

/-- A field as it is stored: a counter, or blanks. -/
def Setup.storedField (c : Setup) (ep : Vector UInt32 8) (i : Fin 8) : List UInt8 :=
  if i.val < c.sentCounters then rev16Bytes (ep.get i) else List.replicate 4 0x20

theorem length_storedField (c : Setup) (ep : Vector UInt32 8) (i : Fin 8) :
    (c.storedField ep i).length = 4 := by
  unfold Setup.storedField
  split <;> rfl

/-- In the four modes the counters and the blanks are eight fields. -/
theorem bytes_counterStores (hmode : p.optimset.setup.KnownMode) (ep : Vector UInt32 8) :
    (p.counterStores ep).flatMap (·.bytes) =
      (List.finRange 8).flatMap (p.optimset.setup.storedField ep) := by
  unfold Panel.counterStores Setup.storedField Setup.sentCounters
  rcases hmode with hm | hm | hm | hm <;> rw [hm] <;> rfl

/-- Fields of one length follow one another. -/
theorem take_drop_flatMap {α : Type} {f : α → List UInt8} {k : Nat} {as : List α} {i : Nat}
    (hf : ∀ a ∈ as, (f a).length = k) (hi : i < as.length) (rest : List UInt8) :
    ((as.flatMap f ++ rest).drop (k * i)).take k = f as[i] := by
  induction as generalizing i with
  | nil => exact absurd hi (Nat.not_lt_zero _)
  | cons a as ih =>
    obtain ⟨ha, has⟩ := List.forall_mem_cons.1 hf
    rw [List.flatMap_cons, List.append_assoc]
    cases i with
    | zero => rw [Nat.mul_zero, List.drop_zero, ← ha, List.take_left, List.getElem_cons_zero]
    | succ i =>
      have hcut : k * (i + 1) = (f a).length + k * i := by rw [ha, Nat.mul_succ, Nat.add_comm]
      rw [hcut, ← List.drop_drop, List.drop_left, ih has (by simpa using hi),
        List.getElem_cons_succ]

/-- What the builder stores, in the four modes and of any allocation. -/
theorem read_energyStores (hmode : p.optimset.setup.KnownMode) (dataInfo : Mem) :
    ∃ head : List UInt8, head.length = 7 ∧ (dataInfo.writeAll p.energyStores).read 0 39 =
      head ++ (List.finRange 8).flatMap (p.optimset.setup.storedField p.queriedEnergy.ep) := by
  have hread : (dataInfo.writeAll p.energyStores).read 0 39 =
      p.energyStores.flatMap (·.bytes) := (Panel.fills_energyStores hmode).read
  rw [hread, Panel.energyStores, List.flatMap_append, ← bytes_counterStores hmode]
  exact ⟨_, rfl, rfl⟩

/-- **The fields of a reply** are the fields that were stored. -/
theorem counterField_energyBytes (hmode : p.optimset.setup.KnownMode)
    (hc : command ∈ [0x00, 0x01, 0x02]) (dataInfo heap : Mem) (f : FrameFormat)
    (ver adr cid1 rtn : UInt8) (i : Fin 8) :
    counterField (p.energyBytes command dataInfo heap f ver adr cid1 rtn) i =
      p.optimset.setup.storedField (p.seekMonth command).queriedEnergy.ep i := by
  simp only [List.mem_cons, List.not_mem_nil, or_false] at hc
  have hbuild : (p.nPTEnergyDataInfo command).2 =
      .filled 39 (p.seekMonth command).energyStores := congrArg Prod.snd (if_pos hc)
  have hopt : (p.seekMonth command).optimset = p.optimset := Panel.seekMonth_optimset
  rw [← hopt] at hmode ⊢
  unfold Panel.energyBytes Panel.energyFrame
  rw [hbuild]
  generalize p.seekMonth command = q at hmode ⊢
  obtain ⟨head, hhead, hread⟩ := read_energyStores hmode dataInfo
  have hinfo : ({ f with info := dataInfo.writeAll q.energyStores } : FrameFormat).dataInfo 39 =
      head ++ (List.finRange 8).flatMap (q.optimset.setup.storedField q.queriedEnergy.ep) := by
    rw [← hread]
    simp only [FrameFormat.dataInfo, Mem.read, Nat.zero_add]
  have hcarries := reply_decodes { f with info := dataInfo.writeAll q.energyStores } heap ver adr
    cid1 rtn (n := 39) (by decide)
  obtain ⟨word, -, hdecodes⟩ := hcarries.decodes
  have hlen : (head ++ (List.finRange 8).flatMap
      (q.optimset.setup.storedField q.queriedEnergy.ep)).length = 39 := by
    rw [← hread, Mem.length_read]
  have hframe := hcarries.length
  rw [hinfo, hlen] at hdecodes hframe
  have hbytes : rxHexBuf (fun i => (nTxFramHandle
      ({ f with info := dataInfo.writeAll q.energyStores }.answer ver adr cid1) heap
        (UInt16.ofNat 39) rtn).getD i 0) (UInt16.ofNat (18 + 2 * 39)) = _ := hdecodes
  simp only [DataInfo.filled, hframe, hbytes]
  -- the header of the frame and of the reply are 13 bytes
  have hcut : ∀ header fields sum : List UInt8, header.length = 6 →
      (header ++ (head ++ fields) ++ sum).drop (13 + 4 * i) = (fields ++ sum).drop (4 * i) := by
    intro header fields sum hheader
    have h13 : 13 = (header ++ head).length := by rw [List.length_append, hheader, hhead]
    rw [← List.append_assoc, List.append_assoc, h13, ← List.drop_drop, List.drop_left]
  rw [counterField, hcut _ _ _ rfl, take_drop_flatMap (fun j _ => length_storedField _ _ j)
    (by simp), List.getElem_finRange]
  rfl

end fields

/-! ## Which counts survive -/

variable {p : Panel} {command : UInt8} {dataInfo heap : Mem} {f : FrameFormat}
  {ver adr cid1 rtn : UInt8}

/-- **Energy counts survive the wire** exactly when none of those that are
sent has two different halves. -/
theorem counts_survive_iff (hmode : p.optimset.setup.KnownMode)
    (hc : command ∈ [0x00, 0x01, 0x02]) :
    CountsSurvive (p.energyBytes command dataInfo heap f ver adr cid1 rtn)
        p.optimset.setup.sentCounters (p.seekMonth command).queriedEnergy.ep ↔
      ∀ i : Fin 8, i.val < p.optimset.setup.sentCounters →
        EqualHalves ((p.seekMonth command).queriedEnergy.ep.get i) := by
  have hfield := counterField_energyBytes hmode hc dataInfo heap f ver adr cid1 rtn
  constructor
  · rintro ⟨hcounts, -⟩ i hi
    have hsurvives := hcounts i hi
    rw [hfield, Setup.storedField, if_pos hi] at hsurvives
    exact highFirst_rev16Bytes_iff.1 hsurvives
  · intro hequal
    refine ⟨fun i hi => ?_, fun i hi => ?_⟩
    · rw [hfield, Setup.storedField, if_pos hi]
      exact highFirst_rev16Bytes_iff.2 (hequal i hi)
    · rw [hfield, Setup.storedField, if_neg (Nat.not_lt.2 hi)]

/-- A panel of mode S that has stored January 2024, every counter at `e`. -/
def januaryPanel (e : UInt32) : Panel :=
  { blankPanel 0x31 with
    store := store ⟨fun _ => 0, 0x170C, 0⟩ (january 0) (.replicate 8 e)
    now := january 1 }

theorem counts_survive_halves :
    CountsSurvive ((januaryPanel 0x00070007).energyBytes 0x00 (fun _ => 0) (fun _ => 0)
        sampleFormat 0x31 1 0x2C 0) 8
      ((januaryPanel 0x00070007).seekMonth 0x00).queriedEnergy.ep :=
  (counts_survive_iff (by decide) (by decide)).2 (by decide +kernel)

/-- A count of 1 arrives as 65536. -/
theorem one_arrives_as_65536 :
    ¬ CountsSurvive ((januaryPanel 1).energyBytes 0x00 (fun _ => 0) (fun _ => 0)
        sampleFormat 0x31 1 0x2C 0) 8 ((januaryPanel 1).seekMonth 0x00).queriedEnergy.ep := by
  intro h
  have hcount := h.counts 0 (by decide)
  have hfield : counterField ((januaryPanel 1).energyBytes 0x00 (fun _ => 0) (fun _ => 0)
      sampleFormat 0x31 1 0x2C 0) (0 : Fin 8) = _ :=
    counterField_energyBytes (by decide) (by decide) _ _ _ _ _ _ _ 0
  rw [hfield] at hcount
  exact absurd hcount (by decide +kernel)

end BusMonitor
