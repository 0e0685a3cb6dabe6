import BusMonitor.Fram.Startup
import BusMonitor.PC.DataInfo
import BusMonitor.PC.SetRequest
/-!
# Settings survive

The settings as the PC sets them, the FRAM keeps them and the PC gets them
back: the decoder of the set requests, the record in memory, its image in
the FRAM and the encoder of the get replies. A run is any sequence of
strings received and restarts; `settings_survive` says that the get replies
decode to the last value accepted for each setting, or to its default.
-/


namespace BusMonitor

open Mem LittleEndian Probe Stepwise

/-! ## A run of the station -/

/-- `Opt_Init`, over a FRAM that is read without a failure. -/
def Station.optInit (s : Station) : Station :=
  let start := Ram.zero.optInit .fine s.fram
  { s with optimset := start.2.optimset, fram := s.fram.writeAll start.1 }

/-- A string is received, or the monitor restarts. -/
inductive SettingOp where
  | receive (msg : MessageType) (heap : Int → UInt8)
  | restart

/-- The station after a reaction. -/
def Reaction.after (s : Station) : Reaction → Station
  | set _ _ _ s' => s'
  | _ => s

/-- The request, when it is answered `eNormal`. -/
def Reaction.accepts (req : Option Assignment) : Reaction → Option Assignment
  | set _ _ rtn _ => if rtn = .eNormal then req else none
  | _ => none

namespace Station

def step (s : Station) : SettingOp → Station
  | .receive msg heap => ((gPCProtoHandle msg s).eval (msg.ucRxHexBuf heap)).after s
  | .restart => s.optInit

/-- What a step sets. -/
def accepted (s : Station) : SettingOp → Option Assignment
  | .receive msg heap =>
    let m := msg.ucRxHexBuf heap
    ((gPCProtoHandle msg s).eval m).accepts (requested m msg.infoLen (m 3))
  | .restart => none

/-- What the steps of a run set, in their order. -/
def acceptedAll : Station → List SettingOp → List Assignment
  | _, [] => []
  | s, op :: ops => (s.accepted op).toList ++ acceptedAll (s.step op) ops

end Station

/-! ## The values of the settings -/

/-- The value sent for a setting. -/
def Assignment.value : Assignment → Setting → Option Nat
  | comAddr v, .comAddr => some v.toNat
  | comBaud v, .comBaud => some v.toNat
  | ovThr v, .ovThr => some v.toNat
  | uvThr v, .uvThr => some v.toNat
  | ocThrFst v, .ocThrFst => some v.toNat
  | ocThrSec v, .ocThrSec => some v.toNat
  | opThrA v, .opThrA => some v.toNat
  | opThrB v, .opThrB => some v.toNat
  | ofThr v, .ofThr => some v.toNat
  | ufThr v, .ufThr => some v.toNat
  | _, _ => none

/-- The value of a setting. The clock is none of the record. -/
def Optimset.value (o : Optimset) : Setting → Nat
  | .clock => 0
  | .comAddr => o.ucComAddr.toNat
  | .comBaud => o.usComBaud.toNat
  | .ovThr => o.usOVThr.toNat
  | .uvThr => o.usUVThr.toNat
  | .ocThrFst => o.ucOCThrFst.toNat
  | .ocThrSec => o.ucOCThrSec.toNat
  | .opThrA => (o.usOPThr.get 0).toNat
  | .opThrB => (o.usOPThr.get 1).toNat
  | .ofThr => o.usOFThr.toNat
  | .ufThr => o.usUFThr.toNat

/-- The last value of a setting, or its default. -/
def lastValue (as : List Assignment) (k : Setting) : Nat :=
  (as.reverse.findSome? (·.value k)).getD (optDefault.value k)

/-- The record after one assignment and another. -/
def setAll (o : Optimset) (as : List Assignment) : Optimset :=
  as.foldl (fun o a => a.set o) o

section values

variable {o : Optimset} {as : List Assignment} {k : Setting}

theorem get_setOPThr (num i : Fin 2) (v : UInt16) :
    (o.setOPThr num v).usOPThr.get i = if i = num then v else o.usOPThr.get i := by
  have hset : (o.setOPThr num v).usOPThr.get i = if num.val = i.val then v else o.usOPThr.get i :=
    Vector.getElem_set num.isLt i.isLt
  rw [hset]
  exact if_congr (by rw [← Fin.ext_iff, eq_comm]) rfl rfl

theorem value_set (a : Assignment) : (a.set o).value k = (a.value k).getD (o.value k) := by
  cases a <;> cases k <;> simp [Assignment.set, Assignment.value, Optimset.value, get_setOPThr] <;>
    rfl

theorem value_setAll :
    (setAll o as).value k = (as.reverse.findSome? (·.value k)).getD (o.value k) := by
  induction as generalizing o with
  | nil => rfl
  | cons a as ih =>
    have hcons : setAll o (a :: as) = setAll (a.set o) as := rfl
    rw [hcons, ih, value_set, List.reverse_cons, List.findSome?_append]
    cases as.reverse.findSome? (·.value k) <;> simp

end values

/-! ## What a step does -/

/-- The step of `s` to `s'` sets what `a` asks for, if anything. The record
and its copy in the FRAM move together. -/
structure Reached (s : Station) (a : Option Assignment) (s' : Station) : Prop where
  optimset : s'.optimset = setAll s.optimset a.toList
  fram : s'.optimset = s.optimset ∧ s'.fram = s.fram ∨
    s'.fram = s.fram.write optAddr s'.optimset.toBytes

section reached

variable {s s' : Station} {m : Int → UInt8} {n : Nat} {len : UInt16} {req : Option Assignment}

/-- The request, when the reply is `eNormal`. -/
def accept (req : Option Assignment) (r : RTN × Station) : Option Assignment :=
  if r.1 = .eNormal then req else none

theorem reached_none : Reached s none s := ⟨rfl, .inl ⟨rfl, rfl⟩⟩

theorem reached_refused {rtn : RTN} (h : rtn ≠ .eNormal) :
    Reached s (accept req (rtn, s)) s := by
  rw [accept, if_neg h]
  exact reached_none

theorem reached_stored {k : UInt16} {a : Assignment} {o : Optimset} (hlen : LenFor len n)
    (hk : k.toNat < 8) (hreq : req = if n = k.toNat + 1 then some a else none)
    (ho : o = a.set s.optimset) :
    let r := if len = k then (RTN.eNormal, optSave { s with optimset := o }) else (.eOFError, s)
    Reached s (accept req r) r.2 := by
  subst hreq ho
  by_cases hn : n = k.toNat + 1
  · simp only [(hlen k hk).2 hn, hn, if_true]
    exact ⟨rfl, .inr rfl⟩
  · simp only [mt (hlen k hk).1 hn, hn, if_false]
    exact reached_refused (by decide)

theorem reached_setClock (hreq : ∀ a, req = some a → a.set s.optimset = s.optimset) :
    Reached s (accept req ((setClock len s).eval m)) ((setClock len s).eval m).2 := by
  have hsame : setAll s.optimset req.toList = s.optimset := by
    cases req with
    | none => rfl
    | some a => exact hreq a rfl
  rw [eval_setClock]
  split
  · split
    · exact ⟨hsame.symm, .inl ⟨rfl, rfl⟩⟩
    · exact reached_refused (by decide)
  · exact reached_refused (by decide)

theorem set_sentTime {c : Prop} [Decidable c] {i : Int} {o : Optimset} (a : Assignment)
    (h : (if c then some (sentTime m i) else none) = some a) : a.set o = o := by
  split at h <;> cases h
  rfl

/-- `nSet_DataInfo`, one case of its `switch` after the other. -/
theorem reached_nSetDataInfo {command : UInt8} (hlen : LenFor len n) (hver : m 0 = framFrmVER) :
    Reached s (accept (requested m n command) ((nSetDataInfo command len s).eval m))
      ((nSetDataInfo command len s).eval m).2 := by
  unfold nSetDataInfo requested
  by_cases ht : command = eSetTime
  · rw [if_pos ht, if_pos ht]
    exact reached_setClock set_sentTime
  rw [if_neg ht, if_neg ht, eval_bind, eval_entry]
  cases hk : commandType (m 6) with
  | none =>
    -- the `default` branch asks for nothing and does nothing
    exact reached_none
  | some k =>
    cases k with
    | clock => exact reached_setClock set_sentTime
    | comBaud =>
      simp only [Option.bind_some, sentFor, nSetSwitch, eval_setBaud]
      by_cases hbaud : IsBaud (rev16 (m 7) (m 8))
      · rw [if_pos hbaud]
        exact reached_stored (k := 2) hlen (by decide) rfl rfl
      · rw [if_neg hbaud]
        split <;> exact reached_refused (by decide)
    | comAddr | ocThrFst | ocThrSec =>
      simp only [Option.bind_some, sentFor, nSetSwitch, eval_setByte hver]
      exact reached_stored (k := 1) hlen (by decide) rfl rfl
    | ovThr | uvThr | opThrA | opThrB | ofThr | ufThr =>
      simp only [Option.bind_some, sentFor, nSetSwitch, eval_setWord]
      exact reached_stored (k := 2) hlen (by decide) rfl rfl

/-- **What a string does.** -/
theorem reached_receive (msg : MessageType) (heap : Int → UInt8) :
    Reached s (s.accepted (.receive msg heap)) (s.step (.receive msg heap)) := by
  simp only [Station.accepted, Station.step]
  cases hr : (gPCProtoHandle msg s).eval (msg.ucRxHexBuf heap) with
  | ignored => exact reached_none
  | answered ver adr rtn => exact reached_none
  | put ver adr request => exact reached_none
  | set ver adr rtn s' =>
    obtain ⟨hver, -, heval⟩ := handed_of_set hr
    have h : Reached s (accept _ ((nSetDataInfo (msg.ucRxHexBuf heap 3) _ s).eval _)) _ :=
      reached_nSetDataInfo (lenFor_usHexLen msg) hver
    rwa [heval] at h

end reached

/-! ## The record and its copy -/

/-- The FRAM is initialised and holds the record. -/
structure Station.Copied (s : Station) : Prop where
  mark : readWord s.fram fmAddrOptimSet = initMark
  record : s.fram.Holds optAddr s.optimset.toBytes

/-- The writes stay away from the mark and the record. -/
def SparesOptimset (ws : List Store) : Prop :=
  ∀ w ∈ ws, w.addr + w.bytes.length ≤ fmAddrOptimSet ∨ optAddr + 47 ≤ w.addr

instance (ws : List Store) : Decidable (SparesOptimset ws) :=
  inferInstanceAs (Decidable (∀ w ∈ ws, _))

section copied

variable {s s' : Station} {a : Option Assignment}

/-- The first start of a new device. -/
theorem optInit_fresh (h : readWord s.fram fmAddrOptimSet ≠ initMark) :
    s.optInit.optimset = optDefault ∧ s.optInit.Copied := by
  have hwrites : (Ram.zero.optInit .fine s.fram).1 = optRegion.all :=
    (optInit_writes (fun _ => .fine) s.fram).trans (if_neg h)
  have hrecord : (Ram.zero.optInit .fine s.fram).2.optimset = optDefault := by
    unfold Ram.optInit
    rw [if_neg (show ¬ Ram.initFlag .fine s.fram fmAddrOptimSet = initMark from h)]
  have hin {w : Store} (hw : w ∈ optRegion.all) : w.In s.optInit.fram := by
    change w.In (s.fram.writeAll (Ram.zero.optInit .fine s.fram).1)
    rw [hwrites]
    exact in_writeAll_of_mem (by decide +kernel) hw
  refine ⟨hrecord, mark_in_iff.1 (hin List.mem_cons_self), ?_⟩
  rw [show s.optInit.optimset = optDefault from hrecord]
  exact hin (w := ⟨optAddr, optDefault.toBytes⟩) (List.mem_cons_of_mem _ List.mem_cons_self)

/-- **A restart** changes nothing that is copied. -/
theorem optInit_of_copied (h : s.Copied) : s.optInit = s := by
  have hflag : Ram.initFlag .fine s.fram fmAddrOptimSet = initMark := h.mark
  have hrecord : readOptimset s.fram optAddr = s.optimset := readOptimset_of_holds h.record
  unfold Station.optInit Ram.optInit
  rw [if_pos hflag]
  exact congrArg (fun o => { s with optimset := o }) hrecord

/-- Every start ends with the copy. -/
theorem Station.copied_optInit (s : Station) : s.optInit.Copied := by
  by_cases hm : readWord s.fram fmAddrOptimSet = initMark
  · have hinit : s.optInit = { s with optimset := readOptimset s.fram optAddr } := by
      unfold Station.optInit Ram.optInit
      rw [if_pos (show Ram.initFlag .fine s.fram fmAddrOptimSet = initMark from hm)]
      rfl
    rw [hinit]
    exact ⟨hm, holds_readOptimset⟩
  · exact (optInit_fresh hm).2

/-- Storing a record makes its copy. -/
theorem Station.Copied.optSave (h : s.Copied) (o : Optimset) :
    (BusMonitor.optSave { s with optimset := o }).Copied := by
  have hfram : (BusMonitor.optSave { s with optimset := o }).fram =
      s.fram.write optAddr o.toBytes := rfl
  constructor
  · rw [hfram, readWord, read_write_disjoint (.inl (by decide))]
    exact h.mark
  · rw [hfram]
    exact holds_write

/-- Storing the record that is copied already writes nothing new. -/
theorem Station.Copied.optSave_eq_self_iff (h : s.Copied) (o : Optimset) :
    BusMonitor.optSave { s with optimset := o } = s ↔ o = s.optimset := by
  constructor
  · intro heq
    exact congrArg Station.optimset heq
  · rintro rfl
    have hfram : s.fram.write optAddr s.optimset.toBytes = s.fram := write_eq_self.2 h.record
    exact congrArg (fun fram => { s with fram := fram }) hfram

theorem Station.Copied.writeAll (h : s.Copied) {ws : List Store} (hws : SparesOptimset ws) :
    Station.Copied { s with fram := s.fram.writeAll ws } := by
  have hlen : s.optimset.toBytes.length = 47 := length_optimset _
  have hmark : (s.fram.writeAll ws).read fmAddrOptimSet 2 = s.fram.read fmAddrOptimSet 2 := by
    refine read_writeAll_outside fun w hw => ?_
    rcases hws w hw with hw | hw
    · exact .inr hw
    · exact .inl ((Nat.le_of_ble_eq_true rfl).trans hw)
  have hrecord : (s.fram.writeAll ws).read optAddr 47 = s.fram.read optAddr 47 := by
    refine read_writeAll_outside fun w hw => ?_
    rcases hws w hw with hw | hw
    · exact .inr (hw.trans (Nat.le_of_ble_eq_true rfl))
    · exact .inl hw
  have hheld := h.record
  unfold Holds at hheld
  rw [hlen] at hheld
  refine ⟨(congrArg decode hmark).trans h.mark, ?_⟩
  unfold Holds
  rw [hlen]
  exact hrecord.trans hheld

/-- The start of the monitor makes the copy, and its other writes keep it. -/
theorem Station.copied_startUp (m : Mem) (rtc : Rtc) :
    Station.Copied ⟨(startUp (fun _ => .fine) m).2.optimset,
      m.writeAll (startUp (fun _ => .fine) m).1, rtc⟩ := by
  have hopt : Station.Copied ⟨(Ram.zero.optInit .fine m).2.optimset,
    m.writeAll (Ram.zero.optInit .fine m).1, rtc⟩ := Station.copied_optInit ⟨optDefault, m, rtc⟩
  have halm (m : Mem) (r : Ram) : SparesOptimset (r.almRelateInit .fine m).1 := by
    rw [almRelateInit_writes (fun _ => .fine)]
    exact forall_ite_all (by decide)
  have hpte (m : Mem) (r : Ram) : SparesOptimset (r.gPTEInit .fine m).1 := by
    rw [gPTEInit_writes (fun _ => .fine)]
    exact forall_ite_all (by decide)
  have hkept (m : Mem) (r : Ram) : (r.almRelateInit .fine m).2.optimset = r.optimset := by
    unfold Ram.almRelateInit
    split <;> rfl
  have hkept' (m : Mem) (r : Ram) : (r.gPTEInit .fine m).2.optimset = r.optimset := by
    unfold Ram.gPTEInit
    split <;> rfl
  unfold startUp
  simp only [hkept, hkept', Mem.writeAll_append]
  exact (hopt.writeAll (halm _ _)).writeAll (hpte _ _)

/-- A step that keeps record and copy together keeps the mark. -/
theorem Reached.copied (h : Reached s a s') (hs : s.Copied) : s'.Copied := by
  rcases h.fram with ⟨hsame, hfram⟩ | hfram
  · exact ⟨by rw [hfram]; exact hs.mark, by rw [hsame, hfram]; exact hs.record⟩
  · constructor
    · rw [hfram, readWord, read_write_disjoint (.inl (by decide))]
      exact hs.mark
    · rw [hfram]
      exact holds_write

theorem reached_step (hs : s.Copied) (op : SettingOp) : Reached s (s.accepted op) (s.step op) := by
  cases op with
  | receive msg heap => exact reached_receive msg heap
  | restart =>
    rw [show s.step .restart = s from optInit_of_copied hs]
    exact reached_none

/-- **A run** leaves the record with all that was accepted, in its order. -/
theorem run_optimset (hs : s.Copied) (ops : List SettingOp) :
    (run Station.step s ops).optimset = setAll s.optimset (s.acceptedAll ops) := by
  induction ops generalizing s with
  | nil => rfl
  | cons op ops ih =>
    have hstep : Reached s (s.accepted op) (s.step op) := reached_step hs op
    rw [run_cons, ih (hstep.copied hs), hstep.optimset, Station.acceptedAll, setAll, setAll,
      setAll, List.foldl_append]

end copied

/-! ## The get replies -/

/-- The bytes of a setting in the frames. -/
def Setting.size : Setting → Nat
  | .clock => 7
  | .comAddr | .ocThrFst | .ocThrSec => 1
  | _ => 2

/-- The settings in the INFO of a get reply, in their order. -/
def infoFields (command : UInt8) : List Setting :=
  if command = 0xD0 then [.comAddr, .comBaud]
  else if command = 0xE0 then
    [.ovThr, .uvThr, .ocThrFst, .ocThrSec, .opThrA, .opThrB, .ofThr, .ufThr]
  else []

/-- A number, high byte first. -/
def highFirst (bs : List UInt8) : Nat := bs.foldl (fun n b => 256 * n + b.toNat) 0

/-- INFO decoded, field by field. -/
def decodeInfo : List Setting → List UInt8 → List (Setting × Nat)
  | [], _ => []
  | k :: ks, bs => (k, highFirst (bs.take k.size)) :: decodeInfo ks (bs.drop k.size)

section replies

variable {p : Panel} {heap : Mem} {command : UInt8}

/-- Fields put one after the other are decoded one after the other. -/
theorem decodeInfo_flatMap {f : Setting → List UInt8} (ks : List Setting)
    (hf : ∀ k ∈ ks, (f k).length = k.size) :
    decodeInfo ks (ks.flatMap f) = ks.map fun k => (k, highFirst (f k)) := by
  induction ks with
  | nil => rfl
  | cons k ks ih =>
    obtain ⟨hk, hks⟩ := List.forall_mem_cons.1 hf
    rw [List.flatMap_cons, decodeInfo, ← hk, List.take_left, List.drop_left, ih hks, List.map_cons]

/-- The bytes of a setting in a get reply. -/
def Optimset.infoBytes (o : Optimset) : Setting → List UInt8
  | .clock => []
  | .comAddr => [o.ucComAddr]
  | .comBaud => revBytes o.usComBaud
  | .ovThr => revBytes o.usOVThr
  | .uvThr => revBytes o.usUVThr
  | .ocThrFst => [o.ucOCThrFst]
  | .ocThrSec => [o.ucOCThrSec]
  | .opThrA => revBytes (o.usOPThr.get 0)
  | .opThrB => revBytes (o.usOPThr.get 1)
  | .ofThr => revBytes o.usOFThr
  | .ufThr => revBytes o.usUFThr

theorem highFirst_revBytes (w : UInt16) : highFirst (revBytes w) = w.toNat := by
  have hw : rev16 (w >>> 8).toUInt8 w.toUInt8 = w := rev16_eq_iff.2 rfl
  have hnat : (rev16 (w >>> 8).toUInt8 w.toUInt8).toNat = _ := toNat_rev16
  rw [revBytes, littleEndian_swap16, ← hw, hnat, hw]
  simp [highFirst, bigEndian]

theorem highFirst_infoBytes {o : Optimset} (k : Setting) :
    highFirst (o.infoBytes k) = o.value k := by
  cases k with
  | clock => rfl
  | comAddr | ocThrFst | ocThrSec => simp [Optimset.infoBytes, Optimset.value, highFirst]
  | comBaud | ovThr | uvThr | opThrA | opThrB | ofThr | ufThr => exact highFirst_revBytes _

theorem bytes_optInfo (hc : command = 0xD0 ∨ command = 0xE0) :
    (p.nPutOptDataInfo command).bytes heap = (infoFields command).flatMap p.optimset.infoBytes := by
  rcases hc with rfl | rfl
  · have hfill : Fills 0 3 [⟨0, [p.optimset.ucComAddr]⟩, ⟨1, revBytes p.optimset.usComBaud⟩] :=
      ⟨rfl, rfl, rfl⟩
    exact hfill.read
  · have hfill : Fills 0 14 [⟨0, revBytes p.optimset.usOVThr⟩, ⟨2, revBytes p.optimset.usUVThr⟩,
        ⟨4, [p.optimset.ucOCThrFst]⟩, ⟨5, [p.optimset.ucOCThrSec]⟩,
        ⟨6, revBytes (p.optimset.usOPThr.get 0)⟩, ⟨8, revBytes (p.optimset.usOPThr.get 1)⟩,
        ⟨10, revBytes p.optimset.usOFThr⟩, ⟨12, revBytes p.optimset.usUFThr⟩] :=
      ⟨rfl, rfl, rfl, rfl, rfl, rfl, rfl, rfl, rfl⟩
    exact hfill.read

theorem length_infoBytes {o : Optimset} (hc : command = 0xD0 ∨ command = 0xE0) :
    ∀ k ∈ infoFields command, (o.infoBytes k).length = k.size := by
  rcases hc with rfl | rfl
  · simp [infoFields, Optimset.infoBytes, Setting.size, revBytes, littleEndian]
  · simp [infoFields, Optimset.infoBytes, Setting.size, revBytes, littleEndian]

/-- **The get replies** carry the record. -/
theorem decodeInfo_reply (pRxData : Int → UInt8) (p : Panel) (stack : UInt16) (heap : Mem)
    (hc : pRxData 6 = 0xD0 ∨ pRxData 6 = 0xE0) :
    let reply := (nTxReply ePutOptimset pRxData p stack).2
    reply.rtn = .eNormal ∧
      reply.halfLenid.toNat = ((infoFields (pRxData 6)).map Setting.size).sum ∧
      decodeInfo (infoFields (pRxData 6)) (reply.bytes heap) =
        (infoFields (pRxData 6)).map fun k => (k, p.optimset.value k) := by
  have hreply : (nTxReply ePutOptimset pRxData p stack).2 = p.nPutOptDataInfo (pRxData 6) := rfl
  rw [hreply]
  refine ⟨?_, ?_, ?_⟩
  · unfold Panel.nPutOptDataInfo
    rcases hc with h | h <;> rw [h] <;> rfl
  · unfold Panel.nPutOptDataInfo
    rcases hc with h | h <;> rw [h] <;> rfl
  · rw [bytes_optInfo hc, decodeInfo_flatMap _ (length_infoBytes hc)]
    simp only [highFirst_infoBytes]

/-- **Settings survive.** Whatever strings a new device receives, and however
often it restarts in between, the get replies decode to the last value
accepted for each setting, or to its default. -/
theorem settings_survive {fram : Mem} (hfresh : readWord fram fmAddrOptimSet ≠ initMark)
    (o : Optimset) (rtc : Rtc) (ops : List SettingOp) (p : Panel) (pRxData : Int → UInt8)
    (stack : UInt16) (heap : Mem) (hc : pRxData 6 = 0xD0 ∨ pRxData 6 = 0xE0) :
    let start := Station.optInit ⟨o, fram, rtc⟩
    let s := run Station.step start ops
    let reply := (nTxReply ePutOptimset pRxData { p with optimset := s.optimset } stack).2
    reply.rtn = .eNormal ∧
      reply.halfLenid.toNat = ((infoFields (pRxData 6)).map Setting.size).sum ∧
      decodeInfo (infoFields (pRxData 6)) (reply.bytes heap) =
        (infoFields (pRxData 6)).map fun k => (k, lastValue (start.acceptedAll ops) k) := by
  intro start s reply
  obtain ⟨hdefault, hcopied⟩ : start.optimset = optDefault ∧ start.Copied := optInit_fresh hfresh
  have hvalue (k : Setting) : s.optimset.value k = lastValue (start.acceptedAll ops) k := by
    rw [show s.optimset = _ from run_optimset hcopied ops, value_setAll, hdefault]
    rfl
  obtain ⟨hrtn, hlen, hinfo⟩ :=
    decodeInfo_reply pRxData { p with optimset := s.optimset } stack heap hc
  simp only [hvalue] at hinfo
  exact ⟨hrtn, hlen, hinfo⟩

/-- A new device that is given the address 5 and restarted. -/
theorem settings_survive_address :
    let start := Station.optInit ⟨optDefault, fun _ => 0, default⟩
    let s := run Station.step start [.receive addressFive fun _ => 0, .restart]
    let p := { blankPanel 0x31 with optimset := s.optimset }
    let reply := (nTxReply ePutOptimset (fun _ => 0xD0) p 0).2
    decodeInfo [.comAddr, .comBaud] (reply.bytes fun _ => 0) =
      [(.comAddr, 5), (.comBaud, 0x9600)] := by
  intro start s p reply
  have hfresh : readWord (fun _ => 0) fmAddrOptimSet ≠ initMark := by decide
  have hinfo := (settings_survive hfresh optDefault default
    [.receive addressFive fun _ => 0, .restart] (blankPanel 0x31) (fun _ => 0xD0) 0 (fun _ => 0)
    (.inl rfl)).2.2
  refine hinfo.trans ?_
  decide +kernel

end replies

end BusMonitor
