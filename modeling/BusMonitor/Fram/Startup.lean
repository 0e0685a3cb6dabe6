import BusMonitor.Fram.Regions
import BusMonitor.Lib.Boot
/-!
# The initialisers at the start

`Opt_Init`, `AlmRelate_Init` and `gPTE_Init`, in the order of `sys_Init`.
Each reads a marker into a local variable it does not set beforehand, and
goes by what the variable holds, whether the read came through or not. The
marker is the first of the writes of a first start, not the last. Both are
read off the three regions of `initRegions`.
-/


namespace BusMonitor

open LittleEndian Mem Boot

/-! ## Variables read from memory -/

/-- The word at an address. -/
def wordAt (m : Mem) (a : Nat) : UInt16 := UInt16.ofNat (readWord m a)

/-- The `n` bytes from an address on. -/
def bytesAt (m : Mem) (a n : Nat) : Vector UInt8 n := .ofFn fun i => m (a + i)

/-- The settings record at an address. -/
def readOptimset (m : Mem) (a : Nat) : Optimset where
  ucComAddr := m a
  usComBaud := wordAt m (a + 1)
  ucDHCPEn := m (a + 3)
  ucIPAddr := bytesAt m (a + 4) 4
  ucIPGateway := bytesAt m (a + 8) 4
  ucIPMask := bytesAt m (a + 12) 4
  usDstIPAddr := bytesAt m (a + 16) 4
  usDstIPPort := wordAt m (a + 20)
  setup := ⟨m (a + 22)⟩
  usRateI := #v[wordAt m (a + 23), wordAt m (a + 25)]
  usCTR := #v[wordAt m (a + 27), wordAt m (a + 29)]
  ucBranchN := bytesAt m (a + 31) 2
  usOVThr := wordAt m (a + 33)
  usUVThr := wordAt m (a + 35)
  ucOCThrFst := m (a + 37)
  ucOCThrSec := m (a + 38)
  usOPThr := #v[wordAt m (a + 39), wordAt m (a + 41)]
  usOFThr := wordAt m (a + 43)
  usUFThr := wordAt m (a + 45)

section readBack

variable {m : Mem} {a n : Nat}

theorem wordAt_of_holds {w : UInt16} (h : m.Holds a (wordBytes w)) : wordAt m a = w := by
  have hread : m.read a 2 = wordBytes w := h
  rw [wordAt, readWord, hread, wordBytes, decode_encode w.toNat_lt]
  exact UInt16.ofNat_toNat

/-- The bytes of a word stand where it is read. -/
theorem holds_readWord : m.Holds a (encode 2 (readWord m a)) := by
  have hback : encode (m.read a 2).length (decode (m.read a 2)) = m.read a 2 := encode_decode _
  rw [length_read] at hback
  unfold Holds
  rw [length_encode]
  exact hback.symm

theorem holds_wordAt : m.Holds a (wordBytes (wordAt m a)) := by
  have hlt : readWord m a < 256 ^ (m.read a 2).length := decode_lt _
  rw [length_read] at hlt
  have hword : (wordAt m a).toNat = readWord m a := by
    rw [wordAt, UInt16.toNat_ofNat']
    exact Nat.mod_eq_of_lt hlt
  rw [wordBytes, hword]
  exact holds_readWord

theorem bytesAt_of_holds {v : Vector UInt8 n} (h : m.Holds a v.toList) : bytesAt m a n = v := by
  have hread : m.read a n = v.toList := by
    have hlen : v.toList.length = n := Vector.length_toList
    rwa [Holds, hlen] at h
  refine Vector.ext fun i hi => ?_
  have hi' : i < v.toList.length := by rw [Vector.length_toList]; exact hi
  calc (bytesAt m a n)[i] = m (a + i) := by simp [bytesAt]
    _ = v.toList.getD i 0 := by rw [← hread, getD_read hi]
    _ = v[i] := by rw [List.getD_eq_getElem _ _ hi', Vector.getElem_toList]

theorem holds_bytesAt : m.Holds a (bytesAt m a n).toList := by
  have hlist : (bytesAt m a n).toList = m.read a n := by
    refine List.ext_getElem (by simp) fun i hi hi' => ?_
    simp [bytesAt, Mem.read]
  rw [Holds, hlist, length_read]

theorem pair_eq {α : Type} {x y : α} {v : Vector α 2} (hx : x = v.get 0) (hy : y = v.get 1) :
    #v[x, y] = v := by
  subst hx hy
  refine Vector.ext fun i hi => ?_
  match i, hi with
  | 0, _ => rfl
  | 1, _ => rfl

/-- **The record read back** is the one that was stored. -/
theorem readOptimset_of_holds {o : Optimset} (h : m.Holds a o.toBytes) : readOptimset m a = o := by
  have hword (w : UInt16) : (wordBytes w).length = 2 := length_encode 2 w.toNat
  unfold Optimset.toBytes at h
  simp only [holds_append, and_assoc] at h
  simp only [List.length_append, hword, List.length_cons, List.length_nil,
    Vector.length_toList] at h
  simp only [Nat.reduceAdd] at h
  obtain ⟨hadr, hbaud, hdhcp, hip, hgate, hmask, hdst, hport, hsetup, hrate0, hrate1, hctr0, hctr1,
    hbranch, hov, huv, hoc, hop0, hop1, hof, huf⟩ := h
  have hocs : m.Holds (a + 37) ([o.ucOCThrFst] ++ [o.ucOCThrSec]) := hoc
  obtain ⟨hoc1, hoc2⟩ := holds_append.1 hocs
  rw [holds_singleton] at hadr hdhcp hsetup hoc1 hoc2
  have hrate : #v[wordAt m (a + 23), wordAt m (a + 25)] = o.usRateI :=
    pair_eq (wordAt_of_holds hrate0) (wordAt_of_holds hrate1)
  have hctr : #v[wordAt m (a + 27), wordAt m (a + 29)] = o.usCTR :=
    pair_eq (wordAt_of_holds hctr0) (wordAt_of_holds hctr1)
  have hop : #v[wordAt m (a + 39), wordAt m (a + 41)] = o.usOPThr :=
    pair_eq (wordAt_of_holds hop0) (wordAt_of_holds hop1)
  unfold readOptimset
  rw [wordAt_of_holds hbaud, bytesAt_of_holds hip, bytesAt_of_holds hgate, bytesAt_of_holds hmask,
    bytesAt_of_holds hdst, wordAt_of_holds hport, hrate, hctr, bytesAt_of_holds hbranch,
    wordAt_of_holds hov, wordAt_of_holds huv, hop, wordAt_of_holds hof, wordAt_of_holds huf, hadr,
    hdhcp, hsetup, hoc1, show m (a + 38) = o.ucOCThrSec from hoc2]

/-- The record stands where it is read. -/
theorem holds_readOptimset : m.Holds a (readOptimset m a).toBytes := by
  have hword (w : UInt16) : (wordBytes w).length = 2 := length_encode 2 w.toNat
  have hoc : m.Holds (a + 37) ([m (a + 37)] ++ [m (a + 38)]) :=
    holds_append.2 ⟨holds_singleton.2 rfl, holds_singleton.2 rfl⟩
  unfold Optimset.toBytes
  simp only [holds_append, and_assoc]
  simp only [List.length_append, hword, List.length_cons, List.length_nil,
    Vector.length_toList]
  simp only [Nat.reduceAdd]
  exact ⟨holds_singleton.2 rfl, holds_wordAt, holds_singleton.2 rfl, holds_bytesAt, holds_bytesAt,
    holds_bytesAt, holds_bytesAt, holds_wordAt, holds_singleton.2 rfl, holds_wordAt, holds_wordAt,
    holds_wordAt, holds_wordAt, holds_bytesAt, holds_wordAt, holds_wordAt, hoc, holds_wordAt,
    holds_wordAt, holds_wordAt, holds_wordAt⟩

end readBack

/-! ## The initialisers -/

/-- The variables the initialisers set. -/
structure Ram where
  optimset : Optimset
  ucBranchSet : Vector UInt8 maxBranchNum
  usrPassword : UInt16
  gPTAlmRelate : PTAlmRelate
  usPTEBaseTime : Nat
  ucPTESaveFlag : UInt8

/-- The variables of a new device. -/
def Ram.factory : Ram := ⟨optDefault, .replicate _ 0, 1234, ⟨0, 0⟩, 0, 0⟩

/-- The variables when power comes on. -/
def Ram.zero : Ram where
  optimset := readOptimset (fun _ => 0) 0
  ucBranchSet := .replicate _ 0
  usrPassword := 0
  gPTAlmRelate := ⟨0, 0⟩
  usPTEBaseTime := 0
  ucPTESaveFlag := 0

/-- How the reads of an initialiser end, in their order, and what its local
variable holds before the first. -/
structure Reads where
  ok : Nat → Bool
  stack : UInt16

/-- Every read comes through. -/
def Reads.fine : Reads := ⟨fun _ => true, 0⟩

/-- `Fram_I2C_Read` into a variable: a read that fails stores nothing. -/
def framRead {α : Type} (ok : Bool) (stored var : α) : α := if ok then stored else var

namespace Ram

variable (e : Reads) (m : Mem) (r : Ram)

/-- The marker, as the local variable of an initialiser has it. -/
def initFlag (addr : Nat) : Nat := framRead (e.ok 0) (readWord m addr) e.stack.toNat

/-- `Opt_Init`: its writes, and the variables after it. -/
def optInit : List Store × Ram :=
  if initFlag e m fmAddrOptimSet = initMark then
    ([], { r with
      optimset := framRead (e.ok 1) (readOptimset m (fmAddrOptimSet + fmOptDevInfo)) r.optimset
      ucBranchSet := framRead (e.ok 2) (bytesAt m (fmAddrOptimSet + fmOptSwitchSet) _) r.ucBranchSet
      usrPassword := framRead (e.ok 3) (wordAt m (fmAddrOptimSet + fmOptUsrPW)) r.usrPassword })
  else
    ([⟨fmAddrOptimSet, encode 2 initMark⟩, ⟨fmAddrOptimSet + fmOptDevInfo, optDefault.toBytes⟩,
      ⟨fmAddrOptimSet + fmOptSwitchSet, r.ucBranchSet.toList⟩,
      ⟨fmAddrOptimSet + fmOptUsrPW, wordBytes 1234⟩],
    { r with optimset := optDefault, usrPassword := 1234 })

/-- `AlmRelate_Init`. -/
def almRelateInit : List Store × Ram :=
  if initFlag e m fmAddrPastAlm = initMark then
    ([], { r with gPTAlmRelate := framRead (e.ok 1) (readHeader m) r.gPTAlmRelate })
  else
    ([⟨fmAddrPastAlm, encode 2 initMark⟩, ⟨headerAddr, (PTAlmRelate.mk 0 0).toBytes⟩],
    { r with gPTAlmRelate := ⟨0, 0⟩ })

/-- `gPTE_Init`. -/
def gPTEInit : List Store × Ram :=
  if initFlag e m (fmAddrEPPastTime + fmOffsetPTEInit) = initMark then
    ([], { r with
      usPTEBaseTime := framRead (e.ok 1) (readWord m (fmAddrEPPastTime + fmOffsetBaseTime))
        r.usPTEBaseTime
      ucPTESaveFlag := framRead (e.ok 2) (m (fmAddrEPPastTime + fmOffsetSaveFlag))
        r.ucPTESaveFlag })
  else
    ([⟨fmAddrEPPastTime + fmOffsetPTEInit, encode 2 initMark⟩,
      ⟨fmAddrEPPastTime + fmOffsetBaseTime, encode 2 0⟩,
      ⟨fmAddrEPPastTime + fmOffsetSaveFlag, [0]⟩],
    { r with usPTEBaseTime := 0, ucPTESaveFlag := 0 })

end Ram

/-! ## The regions -/

/-- The settings, the branch sets and the password. -/
def optRegion : Region where
  mark := ⟨fmAddrOptimSet, encode 2 initMark⟩
  initial := [⟨fmAddrOptimSet + fmOptDevInfo, optDefault.toBytes⟩,
    ⟨fmAddrOptimSet + fmOptSwitchSet, List.replicate maxBranchNum 0⟩,
    ⟨fmAddrOptimSet + fmOptUsrPW, wordBytes 1234⟩]

/-- The header of the alarm history. -/
def almRegion : Region where
  mark := ⟨fmAddrPastAlm, encode 2 initMark⟩
  initial := [⟨headerAddr, (PTAlmRelate.mk 0 0).toBytes⟩]

/-- The base and the flag of the monthly energies. -/
def pteRegion : Region where
  mark := ⟨fmAddrEPPastTime + fmOffsetPTEInit, encode 2 initMark⟩
  initial := [⟨fmAddrEPPastTime + fmOffsetBaseTime, encode 2 0⟩,
    ⟨fmAddrEPPastTime + fmOffsetSaveFlag, [0]⟩]

def initRegions : List Region := [optRegion, almRegion, pteRegion]

theorem layout_initRegions : Layout initRegions where
  apart := by decide +kernel
  nonempty := by decide +kernel

/-- A start of `sys_Init`, given how the reads for each region end: its
writes, and the variables after it. -/
def startUp (e : Region → Reads) (m : Mem) : List Store × Ram :=
  let opt := Ram.zero.optInit (e optRegion) m
  let m := m.writeAll opt.1
  let alm := opt.2.almRelateInit (e almRegion) m
  let m := m.writeAll alm.1
  let pte := alm.2.gPTEInit (e pteRegion) m
  (opt.1 ++ alm.1 ++ pte.1, pte.2)

/-- What an initialiser takes for a marker that stands there. -/
def FindsMark (e : Region → Reads) (m : Mem) (g : Region) : Prop :=
  Ram.initFlag (e g) m g.mark.addr = initMark

instance (e : Region → Reads) (m : Mem) : DecidablePred (FindsMark e m) :=
  fun _ => inferInstanceAs (Decidable (_ = _))

/-! ## The writes of a start -/

section writes

variable {e : Region → Reads} {m : Mem} {g : Region} {ws : List Store}

/-- A marker is in place when it is read. -/
theorem mark_in_iff {a : Nat} : Store.In ⟨a, encode 2 initMark⟩ m ↔ readWord m a = initMark := by
  constructor
  · intro h
    have hread : m.read a 2 = encode 2 initMark := h
    rw [readWord, hread, decode_encode (by decide)]
  · intro h
    rw [← h]
    exact holds_readWord

theorem marked_iff (hg : g ∈ initRegions) : g.Marked m ↔ readWord m g.mark.addr = initMark := by
  simp only [initRegions, List.mem_cons, List.not_mem_nil, or_false] at hg
  rcases hg with rfl | rfl | rfl <;> exact mark_in_iff

/-- A marker the writes stay away from is taken for what it was. -/
theorem findsMark_writeAll (h : ∀ v ∈ ws, v.Apart ⟨g.mark.addr, [0, 0]⟩) :
    FindsMark e (m.writeAll ws) g ↔ FindsMark e m g := by
  have hread : (m.writeAll ws).read g.mark.addr 2 = m.read g.mark.addr 2 :=
    read_writeAll_of_apart h
  unfold FindsMark Ram.initFlag readWord
  rw [hread]

theorem optInit_writes (e : Region → Reads) (m : Mem) :
    (Ram.zero.optInit (e optRegion) m).1 =
      if FindsMark e m optRegion then [] else optRegion.all := by
  unfold Ram.optInit FindsMark
  have hsets : Ram.zero.ucBranchSet.toList = List.replicate maxBranchNum 0 := by
    simp [Ram.zero]
  rw [apply_ite Prod.fst, hsets]
  rfl

theorem almRelateInit_writes (e : Region → Reads) (m : Mem) (r : Ram) :
    (r.almRelateInit (e almRegion) m).1 =
      if FindsMark e m almRegion then [] else almRegion.all := by
  unfold Ram.almRelateInit
  rw [apply_ite Prod.fst]
  rfl

theorem gPTEInit_writes (e : Region → Reads) (m : Mem) (r : Ram) :
    (r.gPTEInit (e pteRegion) m).1 = if FindsMark e m pteRegion then [] else pteRegion.all := by
  unfold Ram.gPTEInit
  rw [apply_ite Prod.fst]
  rfl

/-- An initialiser writes nothing but the writes of its region. -/
theorem forall_ite_all {c : Prop} [Decidable c] {P : Store → Prop} (h : ∀ v ∈ g.all, P v) :
    ∀ v ∈ (if c then [] else g.all), P v := by
  split
  · exact fun v hv => absurd hv List.not_mem_nil
  · exact h

/-- **The writes of a start** are those of the regions not taken for
initialised: no initialiser reads what another one writes. -/
theorem startUp_writes (e : Region → Reads) (m : Mem) :
    (startUp e m).1 = writesBut (FindsMark e m) initRegions := by
  have hopt {g : Region} (h : ∀ v ∈ optRegion.all, v.Apart ⟨g.mark.addr, [0, 0]⟩) (m : Mem) :
      FindsMark e (m.writeAll (if FindsMark e m optRegion then [] else optRegion.all)) g ↔
        FindsMark e m g :=
    findsMark_writeAll (forall_ite_all h)
  have halm (m : Mem) : FindsMark e (m.writeAll (if FindsMark e m almRegion then [] else almRegion.all))
      pteRegion ↔ FindsMark e m pteRegion := findsMark_writeAll (forall_ite_all (by decide))
  unfold startUp
  simp only [optInit_writes, almRelateInit_writes, gPTEInit_writes, halm]
  have hapart : ∀ v ∈ optRegion.all, v.Apart ⟨almRegion.mark.addr, [0, 0]⟩ ∧
      v.Apart ⟨pteRegion.mark.addr, [0, 0]⟩ := by decide +kernel
  simp only [hopt fun v hv => (hapart v hv).1, hopt fun v hv => (hapart v hv).2]
  simp [writesBut, initRegions]

/-- The marker each initialiser finds where its read comes through. -/
theorem findsMark_fine :
    FindsMark (fun _ => .fine) m g ↔ readWord m g.mark.addr = initMark := Iff.rfl

theorem startUp_fine (m : Mem) : (startUp (fun _ => .fine) m).1 = pending initRegions m := by
  rw [startUp_writes, pending, writesBut, writesBut]
  refine List.flatMap_congr fun g hg => ?_
  simp only [marked_iff hg, findsMark_fine]

/-- **The same start** as that of the areas, where every read comes
through. -/
theorem powerOnWrites_eq (m : Mem) :
    (Device.powerOnWrites m).map Prod.snd = (startUp (fun _ => .fine) m).1 := by
  have htag (a : Area) (ws : List Store) : (Device.tag a ws).map Prod.snd = ws := by
    simp [Device.tag]
  have hopt : Ram.zero.optInit .fine m = (optInitWrites m, (Ram.zero.optInit .fine m).2) :=
    Prod.ext (optInit_writes (fun _ => .fine) m) rfl
  have halm (m : Mem) (r : Ram) : (r.almRelateInit .fine m).1 =
      History.writes ⟨⟨0, 0⟩, m⟩ .restart := almRelateInit_writes (fun _ => .fine) m r
  have hpte (m : Mem) (r : Ram) : (r.gPTEInit .fine m).1 = gPTEInitWrites m :=
    gPTEInit_writes (fun _ => .fine) m r
  unfold Device.powerOnWrites startUp
  rw [hopt]
  simp only [List.map_append, htag, halm, hpte, powerUp_fram]
  rfl

end writes

/-! ## A read that fails -/

/-- The data the initialisers read, as they stand in the FRAM: settings,
branch sets, password, history header, base and flag. -/
def stored (m : Mem) : List (List UInt8) :=
  [m.read (fmAddrOptimSet + fmOptDevInfo) 47, m.read (fmAddrOptimSet + fmOptSwitchSet) maxBranchNum,
    m.read (fmAddrOptimSet + fmOptUsrPW) 2, m.read headerAddr 3,
    m.read (fmAddrEPPastTime + fmOffsetBaseTime) 2, m.read (fmAddrEPPastTime + fmOffsetSaveFlag) 1]

section stored

variable {m m' : Mem}

theorem stored_eq_iff : stored m' = stored m ↔ ∀ g ∈ initRegions, ∀ w ∈ g.initial,
    m'.read w.addr w.bytes.length = m.read w.addr w.bytes.length := by
  have hopt : optDefault.toBytes.length = 47 := length_optimset _
  have hpw : (wordBytes 1234).length = 2 := rfl
  have hhead : (PTAlmRelate.mk 0 0).toBytes.length = 3 := rfl
  simp [stored, initRegions, optRegion, almRegion, pteRegion, hopt, hpw, hhead, and_assoc]

/-- The stored data stay when what is written stands there already. -/
theorem stored_startUp_iff (e : Region → Reads) (hm : ∀ g ∈ initRegions, g.Marked m) :
    stored (m.writeAll (startUp e m).1) = stored m ↔
      ∀ g ∈ initRegions, FindsMark e m g ∨ g.Filled m := by
  rw [startUp_writes, ← layout_initRegions.writesBut_eq_self hm]
  constructor
  · intro h
    have happart : (writesBut (FindsMark e m) initRegions).Pairwise Store.Apart :=
      layout_initRegions.apart.sublist writesBut_sublist
    refine (writeAll_eq_self happart).2 fun w hw => ?_
    obtain ⟨g, hg, -, hmem⟩ := mem_writesBut.1 hw
    rcases List.mem_cons.1 hmem with rfl | hinit
    · exact hm g hg
    · -- what is written is what was read there before
      have hin : w.In (m.writeAll _) := in_writeAll_of_mem happart hw
      exact (stored_eq_iff.1 h g hg w hinit).symm.trans hin
  · intro h
    rw [h]

/-- **Failing reads.** A start over an initialised FRAM keeps the stored data
exactly when each initialiser reads its marker, or finds the marker on the
stack, or finds the defaults in the FRAM. -/
theorem startUp_keeps_iff (e : Region → Reads) (hm : ∀ g ∈ initRegions, g.Marked m) :
    stored (m.writeAll (startUp e m).1) = stored m ↔
      ∀ g ∈ initRegions, (e g).ok 0 = true ∨ (e g).stack.toNat = initMark ∨ g.Filled m := by
  rw [stored_startUp_iff e hm]
  refine forall_congr' fun g => forall_congr' fun hg => ?_
  have hmark : readWord m g.mark.addr = initMark := (marked_iff hg).1 (hm g hg)
  unfold FindsMark Ram.initFlag framRead
  cases (e g).ok 0 <;> simp [hmark]

/-- A FRAM with its markers and zeros. -/
def markedZeros : Mem := Mem.writeAll (fun _ => 0) (initRegions.map (·.mark))

theorem markedZeros_marked : ∀ g ∈ initRegions, g.Marked markedZeros := by
  decide +kernel

/-- The marker of the settings is read, and no read comes through after it:
the alarm history has its defaults, and for the monthly energies the marker
is on the stack. -/
def failing (g : Region) : Reads where
  ok n := n = 0 ∧ g.mark.addr = fmAddrOptimSet
  stack := if g.mark.addr = fmAddrPastAlm then 0 else 0x55AA

theorem startUp_keeps : stored (markedZeros.writeAll (startUp failing markedZeros).1) =
    stored markedZeros := by
  refine (startUp_keeps_iff failing markedZeros_marked).2 fun g hg => ?_
  simp only [initRegions, List.mem_cons, List.not_mem_nil, or_false] at hg
  rcases hg with rfl | rfl | rfl
  · exact .inl (by decide)
  · have hzero : ∀ w ∈ almRegion.initial, w.In markedZeros := by decide +kernel
    exact .inr (.inr hzero)
  · exact .inr (.inl (by decide))

/-- When no read comes through, the password 0 is set back to 1234. -/
theorem startUp_destroys : ¬ ∀ (e : Region → Reads) (m : Mem), (∀ g ∈ initRegions, g.Marked m) →
    stored (m.writeAll (startUp e m).1) = stored m := by
  intro h
  have hkept := h (fun _ => ⟨fun _ => false, 0⟩) markedZeros markedZeros_marked
  have hopt := (stored_startUp_iff _ markedZeros_marked).1 hkept optRegion List.mem_cons_self
  rcases hopt with hfinds | hfilled
  · exact absurd hfinds (by decide)
  · have hpw : Store.In ⟨fmAddrOptimSet + fmOptUsrPW, wordBytes 1234⟩ markedZeros :=
      hfilled _ (by simp [optRegion])
    exact absurd hpw (by decide +kernel)

end stored

/-! ## Power lost in the first start -/

/-- A start that loses power after `n` writes. -/
def cutStart (m : Mem) (n : Nat) : Mem := m.writeAll ((startUp (fun _ => .fine) m).1.take n)

/-- The variables are the defaults, and the FRAM holds the same. -/
structure Complete (r : Ram) (m : Mem) : Prop where
  defaults : r = Ram.factory
  optimset : m.Holds (fmAddrOptimSet + fmOptDevInfo) r.optimset.toBytes
  ucBranchSet : m.Holds (fmAddrOptimSet + fmOptSwitchSet) r.ucBranchSet.toList
  usrPassword : m.Holds (fmAddrOptimSet + fmOptUsrPW) (wordBytes r.usrPassword)
  gPTAlmRelate : m.Holds headerAddr r.gPTAlmRelate.toBytes
  usPTEBaseTime : m.Holds (fmAddrEPPastTime + fmOffsetBaseTime) (encode 2 r.usPTEBaseTime)
  ucPTESaveFlag : m.Holds (fmAddrEPPastTime + fmOffsetSaveFlag) [r.ucPTESaveFlag]

section cutStart

variable {m : Mem}

theorem cutStart_eq : cutStart = cut initRegions := by
  funext m n
  rw [cutStart, startUp_fine, cut]

theorem forall_initRegions {P : Region → Prop} :
    (∀ g ∈ initRegions, P g) ↔ P optRegion ∧ P almRegion ∧ P pteRegion := by
  simp [initRegions]

/-- The regions are filled when the FRAM holds the defaults. -/
theorem complete_iff {r : Ram} :
    Complete r m ↔ r = Ram.factory ∧ ∀ g ∈ initRegions, g.Filled m := by
  have hsets : Ram.factory.ucBranchSet.toList = List.replicate maxBranchNum 0 := by
    simp [Ram.factory]
  have hfilled : (∀ g ∈ initRegions, g.Filled m) ↔
      (m.Holds (fmAddrOptimSet + fmOptDevInfo) optDefault.toBytes ∧
        m.Holds (fmAddrOptimSet + fmOptSwitchSet) (List.replicate maxBranchNum 0) ∧
        m.Holds (fmAddrOptimSet + fmOptUsrPW) (wordBytes 1234)) ∧
      m.Holds headerAddr (PTAlmRelate.mk 0 0).toBytes ∧
      m.Holds (fmAddrEPPastTime + fmOffsetBaseTime) (encode 2 0) ∧
      m.Holds (fmAddrEPPastTime + fmOffsetSaveFlag) [0] := by
    rw [forall_initRegions]
    simp [Region.Filled, optRegion, almRegion, pteRegion, Store.In]
  rw [hfilled]
  constructor
  · rintro ⟨rfl, ho, hb, hp, ha, ht, hf⟩
    rw [hsets] at hb
    exact ⟨rfl, ⟨ho, hb, hp⟩, ha, ht, hf⟩
  · rintro ⟨rfl, ⟨ho, hb, hp⟩, ha, ht, hf⟩
    rw [← hsets] at hb
    exact ⟨rfl, ho, hb, hp, ha, ht, hf⟩

theorem optInit_ram (h : optRegion.Marked m → optRegion.Filled m) :
    (Ram.zero.optInit .fine m).2 = { Ram.zero with
      optimset := optDefault, ucBranchSet := .replicate _ 0, usrPassword := 1234 } := by
  unfold Ram.optInit
  by_cases hm : Ram.initFlag .fine m fmAddrOptimSet = initMark
  · have hfilled := h (mark_in_iff.2 hm)
    have ho : readOptimset m (fmAddrOptimSet + fmOptDevInfo) = optDefault :=
      readOptimset_of_holds (hfilled ⟨_, optDefault.toBytes⟩ (by simp [optRegion]))
    have hb : bytesAt m (fmAddrOptimSet + fmOptSwitchSet) maxBranchNum = .replicate _ 0 := by
      refine bytesAt_of_holds ?_
      rw [Vector.toList_replicate]
      exact hfilled ⟨_, List.replicate maxBranchNum 0⟩ (by simp [optRegion])
    have hp : wordAt m (fmAddrOptimSet + fmOptUsrPW) = 1234 :=
      wordAt_of_holds (hfilled ⟨_, wordBytes 1234⟩ (by simp [optRegion]))
    rw [if_pos hm, ho, hb, hp]
    rfl
  · rw [if_neg hm]
    rfl

theorem almRelateInit_ram (r : Ram) (h : almRegion.Marked m → almRegion.Filled m) :
    (r.almRelateInit .fine m).2 = { r with gPTAlmRelate := ⟨0, 0⟩ } := by
  unfold Ram.almRelateInit
  by_cases hm : Ram.initFlag .fine m fmAddrPastAlm = initMark
  · have hfilled := h (mark_in_iff.2 hm)
    have hheld : m.Holds headerAddr ([0] ++ encode 2 0) :=
      hfilled ⟨headerAddr, (PTAlmRelate.mk 0 0).toBytes⟩ (by simp [almRegion])
    obtain ⟨hflag, hindex⟩ := holds_append.1 hheld
    have hread : m.read (headerAddr + 1) 2 = encode 2 0 := hindex
    have hhead : readHeader m = ⟨0, 0⟩ := by
      rw [readHeader, readWord, hread, holds_singleton.1 hflag, decode_encode (by decide)]
    rw [if_pos hm, hhead]
    rfl
  · rw [if_neg hm]

theorem gPTEInit_ram (r : Ram) (h : pteRegion.Marked m → pteRegion.Filled m) :
    (r.gPTEInit .fine m).2 = { r with usPTEBaseTime := 0, ucPTESaveFlag := 0 } := by
  unfold Ram.gPTEInit
  by_cases hm : Ram.initFlag .fine m (fmAddrEPPastTime + fmOffsetPTEInit) = initMark
  · have hfilled := h (mark_in_iff.2 hm)
    have hread : m.read (fmAddrEPPastTime + fmOffsetBaseTime) 2 = encode 2 0 :=
      hfilled ⟨fmAddrEPPastTime + fmOffsetBaseTime, encode 2 0⟩ (by simp [pteRegion])
    have hbase : readWord m (fmAddrEPPastTime + fmOffsetBaseTime) = 0 := by
      rw [readWord, hread, decode_encode (by decide)]
    have hflag : m (fmAddrEPPastTime + fmOffsetSaveFlag) = 0 := holds_singleton.1
      (hfilled ⟨fmAddrEPPastTime + fmOffsetSaveFlag, [0]⟩ (by simp [pteRegion]))
    rw [if_pos hm, hbase, hflag]
    rfl
  · rw [if_neg hm]

/-- **What a sound FRAM gives.** The variables after a complete start are the
defaults when every marked region is filled with them. -/
theorem startUp_ram (h : Sound initRegions m) : (startUp (fun _ => .fine) m).2 = Ram.factory := by
  have halm : almRegion.Marked m → almRegion.Filled m := h _ (by simp [initRegions])
  have hpte : pteRegion.Marked m → pteRegion.Filled m := h _ (by simp [initRegions])
  -- each initialiser leaves the regions of the later ones as they were
  have hpart {c : Prop} [Decidable c] {g g' : Region} (hall : ∀ v ∈ g.all, ∀ w ∈ g'.all, v.Apart w)
      {m : Mem} (hs : g'.Marked m → g'.Filled m) :
      g'.Marked (m.writeAll (if c then [] else g.all)) →
        g'.Filled (m.writeAll (if c then [] else g.all)) :=
    Region.sound_writeAll (forall_ite_all hall) hs
  unfold startUp
  simp only [optInit_writes (fun _ => .fine), almRelateInit_writes (fun _ => .fine)]
  rw [optInit_ram (h _ List.mem_cons_self), almRelateInit_ram _ (hpart (by decide +kernel) halm),
    gPTEInit_ram _ (hpart (by decide) (hpart (by decide +kernel) hpte))]
  rfl

/-- A complete start gives the defaults over a sound FRAM, and only there. -/
theorem complete_startUp_iff : Complete (startUp (fun _ => .fine) m).2
    (m.writeAll (startUp (fun _ => .fine) m).1) ↔ Sound initRegions m := by
  rw [complete_iff, startUp_fine]
  change _ ∧ (∀ g ∈ initRegions, g.Filled (finish initRegions m)) ↔ _
  rw [layout_initRegions.filled_finish_iff]
  exact and_iff_right_of_imp startUp_ram

/-- **The first start.** Whatever the uninitialised FRAM holds, and however
often power is lost, the next complete start gives the defaults exactly
when each loss falls where it may: no marker is written ahead of a default
that is not in place. -/
theorem first_start_iff (hm : ∀ g ∈ initRegions, ¬ g.Marked m) (ns : List Nat) :
    let m' := Stepwise.run cutStart m ns
    Complete (startUp (fun _ => .fine) m').2 (m'.writeAll (startUp (fun _ => .fine) m').1) ↔
      Stepwise.Meets cutStart (CutSafe initRegions) m ns := by
  have hsound : Sound initRegions m := fun g hg hmarked => absurd hmarked (hm g hg)
  intro m'
  rw [complete_startUp_iff, cutStart_eq, ← layout_initRegions.sound_run_iff hsound ns,
    ← cutStart_eq]

/-- A blank FRAM, and power lost between two of the initialisers. -/
theorem first_start_between :
    let m' := Stepwise.run cutStart (fun _ => 0) [4, 2]
    Complete (startUp (fun _ => .fine) m').2 (m'.writeAll (startUp (fun _ => .fine) m').1) := by
  refine (first_start_iff (by decide +kernel) [4, 2]).2 ?_
  decide +kernel

/-- Power lost behind the marker of the settings: the next start takes the
zeros of the FRAM for settings. -/
theorem first_start_lost : ¬ ∀ (m : Mem) (ns : List Nat), (∀ g ∈ initRegions, ¬ g.Marked m) →
    let m' := Stepwise.run cutStart m ns
    Complete (startUp (fun _ => .fine) m').2 (m'.writeAll (startUp (fun _ => .fine) m').1) := by
  intro h
  have hsound : Sound initRegions (cutStart (fun _ => 0) 1) :=
    complete_startUp_iff.1 (h (fun _ => 0) [1] (by decide +kernel))
  rw [cutStart_eq, layout_initRegions.sound_cut_iff] at hsound
  exact absurd hsound.2 (by decide +kernel)

end cutStart

end BusMonitor
