import BusMonitor.Alarm.Effect
import BusMonitor.Lib.Run
/-!
# The history ring

The history keeps the last 500 alarm records. The log is that statement:
a count of the alarms since the last clear and the list of their records,
newest first, cut to 500, in which a termination closes the newest record
of its event. `Represents` says that the header, its copy in the FRAM and
the slots hold a log, and each operation of the component carries one log
to the next.

A termination on a full ring searches slot 500 between slot 0 and slot
499, and there is no such slot. `InRing` is the condition that it does not
stop there.
-/


namespace BusMonitor

open Recent Stepwise LittleEndian History

/-! ## The log -/

/-- The alarms since the last clear: how many there were, and the records
of the last 500, newest first. -/
structure Log where
  count : Nat
  recs : List AlmRecord

/-- An operation on the history. -/
inductive HistOp
  | generate (r : AlmRecord) (now : Stamp)
  | terminate (e : UInt8) (now : Stamp)
  | clear
  | restart

/-- The list with the newest record of an event closed. -/
def closeNewest (e : UInt8) (now : Stamp) (rs : List AlmRecord) : List AlmRecord :=
  rs.lookmap fun r => if r.almEvent = e then some (r.close now) else none

theorem closeNewest_cons_self {e : UInt8} {now : Stamp} {r : AlmRecord} {rs : List AlmRecord}
    (h : r.almEvent = e) : closeNewest e now (r :: rs) = r.close now :: rs :=
  List.lookmap_cons_some _ _ (if_pos h)

theorem closeNewest_cons_of_ne {e : UInt8} {now : Stamp} {r : AlmRecord} {rs : List AlmRecord}
    (h : r.almEvent ≠ e) : closeNewest e now (r :: rs) = r :: closeNewest e now rs :=
  List.lookmap_cons_none _ _ (if_neg h)

/-- What an operation does to the log. -/
def Log.step (l : Log) : HistOp → Log
  | .generate r now =>
    ⟨l.count + 1, remember ptAlmItem { r with flag := generateFlag, generate := now } l.recs⟩
  | .terminate e now => ⟨l.count, closeNewest e now l.recs⟩
  | .clear => ⟨0, []⟩
  | .restart => l

/-- What an operation does to the component. An alarm is generated from
the record the evaluation has prepared. -/
def AlmState.histStep (s : AlmState) : HistOp → AlmState
  | .generate r now => almGenerate (s.setPTRecord fun _ => r) now
  | .terminate e now => almTerminate s e now
  | .clear => almRecordClear s
  | .restart => .powerUp s.fram

/-! ## The ring holds a log -/

/-- The addresses that are neither in the header, its marker included, nor
in the slots 0 to 499. -/
def OutsideHistory (a : Nat) : Prop := a < 0x500 ∨ a = 0x505 ∨ 0x506 + 21 * 500 ≤ a

/-- A write inside the header, behind the marker, or inside the slots. -/
def WithinHistory (a n : Nat) : Prop :=
  (0x502 ≤ a ∧ a + n ≤ 0x505) ∨ (0x506 ≤ a ∧ a + n ≤ 0x506 + 21 * 500)

theorem write_outside {m : Mem} {a x : Nat} {bs : List UInt8} (hw : WithinHistory a bs.length)
    (hx : OutsideHistory x) : m.write a bs x = m x := by
  unfold WithinHistory at hw
  unfold OutsideHistory at hx
  exact Mem.write_of_disjoint (by omega)

theorem write_marker {m : Mem} {a : Nat} {bs : List UInt8} (hw : WithinHistory a bs.length) :
    readWord (m.write a bs) fmAddrPastAlm = readWord m fmAddrPastAlm := by
  unfold WithinHistory at hw
  have hmarker : fmAddrPastAlm = 0x500 := rfl
  exact congrArg decode (Mem.read_write_disjoint (.inl (by omega)))

theorem within_header (r : PTAlmRelate) : WithinHistory headerAddr r.toBytes.length :=
  .inl (by rw [PTAlmRelate.length_toBytes]; decide)

theorem within_slot {i : Nat} (hi : i < 500) (r : AlmRecord) :
    WithinHistory (slotAddr i) r.toBytes.length := by
  refine .inr ?_
  rw [slotAddr_eq (by omega), AlmRecord.length_toBytes]
  omega

theorem closingAddr_eq {i : Nat} (hi : i < 500) : closingAddr i = slotAddr i + 6 := by
  rw [closingAddr, slotAddr_eq (by omega), fmOffsetAlmRecord]
  omega

theorem within_closing {i : Nat} (hi : i < 500) (r : AlmRecord) :
    WithinHistory (closingAddr i) r.closingBytes.length := by
  refine .inr ?_
  rw [closingAddr_eq hi, slotAddr_eq (by omega), AlmRecord.length_closingBytes]
  omega

/-- **The header and the FRAM hold a log.** `base` is the FRAM the component
started from. -/
structure History.Represents (base : Mem) (h : History) (l : Log) : Prop where
  fullFlag : h.relate.fullFlag = if ptAlmItem ≤ l.count then 1 else 0
  almIndex : h.relate.almIndex = l.count % ptAlmItem
  records : view ptAlmItem (slot h.fram) l.count = l.recs
  header : readHeader h.fram = h.relate
  marker : readWord h.fram fmAddrPastAlm = initMark
  outside : ∀ a, OutsideHistory a → h.fram a = base a

namespace History.Represents

variable {base : Mem} {h : History} {l : Log}

theorem almIndex_lt (hr : Represents base h l) : h.relate.almIndex < 500 := by
  rw [hr.almIndex]
  exact Nat.mod_lt _ (by decide)

/-- The ring keeps as many records as there were alarms, up to 500. -/
theorem length_recs (hr : Represents base h l) : l.recs.length = min l.count 500 := by
  rw [← hr.records, view, List.length_map]
  exact length_order (by decide)

/-- Advancing the header counts one more alarm. -/
theorem advance_eq (hr : Represents base h l) :
    h.relate.advance =
      ⟨if ptAlmItem ≤ l.count + 1 then 1 else 0, (l.count + 1) % ptAlmItem⟩ := by
  have hlt := hr.almIndex_lt
  have hidx : h.relate.almIndex = l.count % 500 := hr.almIndex
  have hmod : (h.relate.almIndex + 1) % 2 ^ 16 = h.relate.almIndex + 1 := by omega
  unfold PTAlmRelate.advance
  dsimp only
  rw [hmod]
  by_cases hw : h.relate.almIndex + 1 = 500
  · have hfull : ptAlmItem ≤ l.count + 1 := show 500 ≤ l.count + 1 by omega
    have hzero : (l.count + 1) % ptAlmItem = 0 := show (l.count + 1) % 500 = 0 by omega
    rw [if_pos (show h.relate.almIndex + 1 ≥ ptAlmItem from hw.ge), if_pos hfull, hzero]
  · have hnext : (l.count + 1) % ptAlmItem = h.relate.almIndex + 1 :=
      show (l.count + 1) % 500 = h.relate.almIndex + 1 by omega
    have hfull : ptAlmItem ≤ l.count + 1 ↔ ptAlmItem ≤ l.count :=
      show 500 ≤ l.count + 1 ↔ 500 ≤ l.count by omega
    rw [if_neg (show ¬ h.relate.almIndex + 1 ≥ ptAlmItem from fun h500 =>
      hw (by have : h.relate.almIndex + 1 ≥ 500 := h500; omega)), hr.fullFlag, hnext]
    simp only [hfull]

/-- The slots after a generation: the one under the index has changed. -/
theorem slot_push (hr : Represents base h l) (r : AlmRecord) {k : Nat} (hk : k < 500) :
    slot (h.push r).fram k = Function.update (slot h.fram) (l.count % ptAlmItem) r k := by
  have hhead : headerAddr + h.relate.advance.toBytes.length ≤ 0x506 + 21 * k := by
    simp only [headerAddr, fmAddrPastAlm, fmOffsetAlmRelate, PTAlmRelate.length_toBytes]
    omega
  rw [← hr.almIndex, ← slot_write hr.almIndex_lt r hk]
  exact slot_write_disjoint (by omega) (.inr hhead)

/-- **Generating an alarm** puts its record in front of the log. -/
theorem push (hr : Represents base h l) (r : AlmRecord) :
    Represents base (h.push r) ⟨l.count + 1, remember ptAlmItem r l.recs⟩ := by
  have hadv := hr.advance_eq
  have hidx : h.relate.advance.almIndex < 2 ^ 16 := by
    rw [hadv]
    exact (Nat.mod_lt _ (by decide)).trans (by decide)
  refine ⟨congrArg PTAlmRelate.fullFlag hadv, congrArg PTAlmRelate.almIndex hadv,
    ?_, readHeader_write hidx, ?_, ?_⟩
  · have hslot : ∀ k ∈ order ptAlmItem (l.count + 1),
        slot (h.push r).fram k = Function.update (slot h.fram) (l.count % ptAlmItem) r k := by
      intro k hk
      exact hr.slot_push r ((mem_order (by decide)).1 hk).2
    dsimp only
    rw [view, List.map_congr_left hslot, ← hr.records]
    exact view_push (by decide) _ _ _
  · exact (write_marker (within_header _)).trans
      ((write_marker (within_slot hr.almIndex_lt r)).trans hr.marker)
  · intro a ha
    exact (write_outside (within_header _) ha).trans
      ((write_outside (within_slot hr.almIndex_lt r) ha).trans (hr.outside a ha))

end History.Represents

/-- **A termination stays in the ring.** On a full ring, the event has a
record under the index, or the bytes past slot 499 do not look like one of
its records. -/
def InRing (h : History) (e : UInt8) : Prop :=
  h.relate.fullFlag = 0 ∨ (∃ k < h.relate.almIndex, (slot h.fram k).almEvent = e) ∨
    (slot h.fram 500).almEvent ≠ e

instance (h : History) (e : UInt8) : Decidable (InRing h e) :=
  inferInstanceAs (Decidable (_ ∨ _))

namespace History.Represents

variable {base : Mem} {h : History} {l : Log}

/-- A termination that stays in the ring finds what a search of the ring
would find. -/
theorem find_searched (hr : Represents base h l) {e : UInt8} (hin : InRing h e) :
    find h.fram e (searched h.relate) = find h.fram e (order ptAlmItem l.count) := by
  have hlt := hr.almIndex_lt
  have hord : order ptAlmItem l.count = below h.relate.almIndex ++
      if ptAlmItem ≤ l.count then above h.relate.almIndex ptAlmItem else [] := by
    rw [hr.almIndex]; rfl
  rw [hord, searched]
  by_cases hfull : ptAlmItem ≤ l.count
  · have hflag : h.relate.fullFlag ≠ 0 := by rw [hr.fullFlag, if_pos hfull]; decide
    rw [if_neg hflag, if_pos hfull, find_append, find_append]
    cases hb : find h.fram e (below h.relate.almIndex) with
    | some k => rfl
    | none =>
      -- the search goes on above the index, past slot 500
      have h500 : (slot h.fram 500).almEvent ≠ e := by
        rcases hin with hf | ⟨k, hk, hke⟩ | hne
        · exact absurd hf hflag
        · have := List.find?_eq_none.1 hb k (mem_below.2 hk)
          simp [hke] at this
        · exact hne
      rw [show (501 : Nat) = 500 + 1 from rfl, above_succ (by omega)]
      simp [find, firstMatch, h500, ptAlmItem]
  · have hflag : h.relate.fullFlag = 0 := by rw [hr.fullFlag, if_neg hfull]
    rw [if_pos hflag, if_neg hfull]

/-- **Ending an alarm** closes the newest record of its event. -/
theorem finish (hr : Represents base h l) {e : UInt8} (hin : InRing h e) (now : Stamp) :
    Represents base (h.finish e now) (l.step (.terminate e now)) := by
  unfold History.finish closeFirst
  rw [hr.find_searched hin]
  cases hf : find h.fram e (order ptAlmItem l.count) with
  | none =>
    refine ⟨hr.fullFlag, hr.almIndex, ?_, hr.header, hr.marker, hr.outside⟩
    dsimp only [Log.step]
    rw [← hr.records]
    simpa [view, closeNewest] using (lookmap_of_firstMatch_none (f := AlmRecord.close now) hf).symm
  | some k =>
    have hk : k < 500 := ((mem_order (by decide)).1 (List.mem_of_find?_eq_some hf)).2
    have hslot : ∀ i ∈ order ptAlmItem l.count, slot (closeSlot h.fram now k) i
        = Function.update (slot h.fram) k ((slot h.fram k).close now) i := by
      intro i hi
      have hi' : i < 500 := ((mem_order (by decide)).1 hi).2
      rw [closeSlot, closingAddr_eq hk]
      exact slot_closing (by omega) now (by omega)
    refine ⟨hr.fullFlag, hr.almIndex, ?_, ?_, ?_, ?_⟩
    · dsimp only [Log.step]
      rw [view, List.map_congr_left hslot, ← hr.records]
      simpa [view, closeNewest] using
        map_rewriteFirst (f := AlmRecord.close now) (nodup_order _ _) hf
    · have haddr : closingAddr k = 0x506 + 21 * k + 6 := by
        rw [closingAddr_eq hk, slotAddr_eq (by omega)]
      rw [← hr.header]
      exact readHeader_write_disjoint (.inl (by omega))
    · exact (write_marker (within_closing hk _)).trans hr.marker
    · intro a ha
      exact (write_outside (within_closing hk _) ha).trans (hr.outside a ha)

/-- **Clearing** empties the log. -/
theorem clear (hr : Represents base h l) :
    Represents base ⟨⟨0, 0⟩, h.fram.write headerAddr (PTAlmRelate.mk 0 0).toBytes⟩ ⟨0, []⟩ := by
  refine ⟨rfl, rfl, rfl, readHeader_write (by decide), ?_, ?_⟩
  · exact (write_marker (within_header _)).trans hr.marker
  · intro a ha
    exact (write_outside (within_header _) ha).trans (hr.outside a ha)

end History.Represents

/-! ## The component keeps the log -/

/-- The FRAM has never held a history. -/
def Fresh (m : Mem) : Prop := readWord m fmAddrPastAlm ≠ initMark

instance (m : Mem) : Decidable (Fresh m) := inferInstanceAs (Decidable (_ ≠ _))

/-- The first start of the component prepares an empty log. -/
theorem represents_powerUp {base : Mem} (hf : Fresh base) :
    Represents base (AlmState.powerUp base).history ⟨0, []⟩ := by
  have hinit : (AlmState.powerUp base).history = ⟨⟨0, 0⟩,
      (base.write fmAddrPastAlm (encode 2 initMark)).write headerAddr
        (PTAlmRelate.mk 0 0).toBytes⟩ := by
    unfold AlmState.powerUp almRelateInit
    rw [if_neg (show ¬ readWord (AlmState.reset base).fram fmAddrPastAlm = initMark from hf)]
    rfl
  rw [hinit]
  refine ⟨rfl, rfl, rfl, readHeader_write (by decide), ?_, ?_⟩
  · have hself : (base.write fmAddrPastAlm (encode 2 initMark)).read fmAddrPastAlm 2
        = encode 2 initMark := Mem.read_write_self
    rw [write_marker (within_header _), readWord, hself]
    exact decode_encode (by decide)
  · intro a ha
    refine (write_outside (within_header _) ha).trans (Mem.write_of_disjoint ?_)
    unfold OutsideHistory at ha
    simp only [fmAddrPastAlm, length_encode]
    omega

/-- **A restart restores** the header from the FRAM, and leaves the FRAM as
it is. -/
theorem History.Represents.restart {base : Mem} {s : AlmState} {l : Log}
    (hr : Represents base s.history l) : (AlmState.powerUp s.fram).history = s.history := by
  unfold AlmState.powerUp almRelateInit
  rw [if_pos (show readWord (AlmState.reset s.fram).fram fmAddrPastAlm = initMark from hr.marker)]
  exact congrArg (History.mk · s.fram) hr.header

theorem almGenerate_history (s : AlmState) (r : AlmRecord) (now : Stamp) :
    (almGenerate (s.setPTRecord fun _ => r) now).history
      = s.history.push { r with flag := generateFlag, generate := now } := by
  obtain ⟨r', v, st, rfl, h, -⟩ := almGenerate_frame (s.setPTRecord fun _ => r) now
  rw [h]
  rfl

theorem almTerminate_history (s : AlmState) (e : UInt8) (now : Stamp) :
    (almTerminate s e now).history = s.history.finish e now := by
  obtain ⟨r, v, st, h, -⟩ := almTerminate_frame s e now
  rw [h]
  rfl

/-- The condition on the operations: terminations stay in the ring. -/
def HistOk (s : AlmState) : HistOp → Prop
  | .terminate e _ => InRing s.history e
  | _ => True

/-- **One operation** carries the log to the next. -/
theorem History.Represents.step {base : Mem} {s : AlmState} {l : Log} {op : HistOp}
    (hr : Represents base s.history l) (hok : HistOk s op) :
    Represents base (s.histStep op).history (l.step op) := by
  cases op with
  | generate r now =>
    rw [AlmState.histStep, almGenerate_history]
    exact hr.push _
  | terminate e now =>
    rw [AlmState.histStep, almTerminate_history]
    exact hr.finish hok now
  | clear => exact hr.clear
  | restart =>
    rw [AlmState.histStep, hr.restart]
    exact hr

/-- The log of a run. -/
theorem represents_run {base : Mem} (hf : Fresh base) {ops : List HistOp}
    (hok : Meets AlmState.histStep HistOk (.powerUp base) ops) :
    Represents base (run AlmState.histStep (.powerUp base) ops).history
      (run Log.step ⟨0, []⟩ ops) :=
  hok.simulation (R := fun s l => Represents base s.history l) (represents_powerUp hf)
    fun _ _ _ hr ho => hr.step ho

/-- The slots of the ring, newest first. -/
def ringSlots (relate : PTAlmRelate) : List Nat :=
  below relate.almIndex ++ if relate.fullFlag = 0 then [] else above relate.almIndex ptAlmItem

/-- The records of the ring, newest first: from the slot before the index
down to slot 0, and on a full ring from slot 499 down to the index. -/
def AlmState.records (s : AlmState) : List AlmRecord :=
  (below s.gPTAlmRelate.almIndex ++
    if s.gPTAlmRelate.fullFlag = 0 then [] else above s.gPTAlmRelate.almIndex ptAlmItem).map
      (slot s.fram)

/-- **The history is right**: the index is in range, the FRAM holds the
header, the full flag says that there were 500 alarms, the slots hold the
last records in order, a restart would restore all of it, and nothing
outside the header and the slots was written. -/
structure HistoryCorrect (base : Mem) (s : AlmState) (l : Log) : Prop where
  almIndex_lt : s.gPTAlmRelate.almIndex < 500
  header : readHeader s.fram = s.gPTAlmRelate
  full_iff : s.gPTAlmRelate.fullFlag = 1 ↔ 500 ≤ l.count
  flag_bit : s.gPTAlmRelate.fullFlag = 0 ∨ s.gPTAlmRelate.fullFlag = 1
  records : s.records = l.recs
  length_recs : l.recs.length = min l.count 500
  restart : (AlmState.powerUp s.fram).history = s.history
  outside : ∀ a, OutsideHistory a → s.fram a = base a

/-- The records of the ring are those of the log. -/
theorem History.Represents.records_eq {base : Mem} {s : AlmState} {l : Log}
    (hr : Represents base s.history l) : s.records = l.recs := by
  have hflag : s.gPTAlmRelate.fullFlag = if ptAlmItem ≤ l.count then 1 else 0 := hr.fullFlag
  have hidx : s.gPTAlmRelate.almIndex = l.count % ptAlmItem := hr.almIndex
  rw [← hr.records, view, order, AlmState.records, hflag, hidx]
  by_cases hfull : ptAlmItem ≤ l.count
  · rw [if_pos hfull, if_pos hfull, if_neg (by decide)]
    rfl
  · rw [if_neg hfull, if_neg hfull, if_pos rfl]
    rfl

/-- What holds a log is right. -/
theorem History.Represents.correct {base : Mem} {s : AlmState} {l : Log}
    (hr : Represents base s.history l) : HistoryCorrect base s l := by
  have hflag : s.gPTAlmRelate.fullFlag = if 500 ≤ l.count then 1 else 0 := hr.fullFlag
  have hfull : s.gPTAlmRelate.fullFlag = 1 ↔ 500 ≤ l.count := by
    rw [hflag]
    split <;> simp_all
  refine ⟨hr.almIndex_lt, hr.header, hfull, ?_, hr.records_eq, hr.length_recs, hr.restart,
    hr.outside⟩
  rw [hflag]
  split
  · exact .inr rfl
  · exact .inl rfl

/-- **The history ring.** From a FRAM that never held a history, in every
run of generations, terminations, clears and restarts whose terminations
stay in the ring, the history is right in the state the run ends in. -/
theorem history_ring {base : Mem} (hf : Fresh base) (ops : List HistOp)
    (hok : Meets AlmState.histStep HistOk (.powerUp base) ops) :
    HistoryCorrect base (run AlmState.histStep (.powerUp base) ops)
      (run Log.step ⟨0, []⟩ ops) :=
  (represents_run hf hok).correct

/-- An alarm of the voltage of busbar A, a clear, the alarm again with its
end, and a restart. -/
theorem history_ring_short :
    HistoryCorrect (fun _ => 0)
      (run AlmState.histStep (.powerUp fun _ => 0)
        [.generate default default, .clear, .generate default default, .terminate 0 default,
          .restart])
      (run Log.step ⟨0, []⟩
        [.generate default default, .clear, .generate default default, .terminate 0 default,
          .restart]) :=
  history_ring (by decide) _
    ⟨trivial, trivial, trivial, .inl (by decide +kernel), trivial, trivial⟩

/-! ## Past the end of the ring -/

theorem meets_generate (s : AlmState) (r : AlmRecord) (now : Stamp) (n : Nat) :
    Meets AlmState.histStep HistOk s (List.replicate n (.generate r now)) := by
  induction n generalizing s with
  | zero => exact trivial
  | succ n ih => exact ⟨trivial, ih _⟩

theorem count_generate (l : Log) (r : AlmRecord) (now : Stamp) (n : Nat) :
    (run Log.step l (List.replicate n (.generate r now))).count = l.count + n := by
  induction n generalizing l with
  | zero => rfl
  | succ n ih =>
    rw [List.replicate_succ, run_cons, ih]
    exact Nat.add_right_comm ..

/-- On a full ring at index 0, a termination of the event in the bytes past
slot 499 writes there. -/
theorem terminate_slot500 {s : AlmState} (hrel : s.gPTAlmRelate = ⟨1, 0⟩) {e : UInt8}
    (he : (slot s.fram 500).almEvent = e) (now : Stamp) :
    (almTerminate s e now).fram (0x2E0A + 12) = terminateFlag := by
  have hfram : (almTerminate s e now).fram = (s.history.finish e now).fram :=
    congrArg History.fram (almTerminate_history ..)
  have hsearch : searched s.history.relate = 500 :: above 0 500 := by
    rw [show s.history.relate = ⟨1, 0⟩ from hrel, searched]
    simp only [below_zero, List.nil_append]
    rw [if_neg (by decide)]
    exact above_succ (Nat.zero_le _)
  have hfind : find s.history.fram e (500 :: above 0 500) = some 500 := by
    simp [find, firstMatch, AlmState.history, he]
  rw [hfram, History.finish, hsearch, closeFirst, hfind]
  dsimp only [closeSlot]
  rw [show 0x2E0A + 12 = closingAddr 500 + 6 by decide,
    Mem.write_at (by rw [AlmRecord.length_closingBytes]; omega)]
  rfl

/-- Five hundred alarms of one event fill the ring. A termination of the
event whose code stands in the blank bytes past slot 499 is then recorded
there, outside the ring. -/
theorem slot500_written :
    ¬ ∀ base, Fresh base → ∀ ops, HistoryCorrect base
      (run AlmState.histStep (.powerUp base) ops) (run Log.step ⟨0, []⟩ ops) := by
  intro h
  let gens : List HistOp := List.replicate 500 (.generate { (default : AlmRecord) with
    almEvent := 1 } default)
  have hfresh : Fresh fun _ => 0 := by decide
  have hr := represents_run hfresh (meets_generate (.powerUp fun _ => 0)
    { (default : AlmRecord) with almEvent := 1 } default 500)
  have hcount := count_generate ⟨0, []⟩ { (default : AlmRecord) with almEvent := 1 } default 500
  have hc := h _ hfresh (gens ++ [.terminate 0 default])
  rw [run_append] at hc
  generalize hs : run AlmState.histStep (.powerUp fun _ => 0) gens = s at hc
  rw [hs] at hr
  have hrel : s.gPTAlmRelate = ⟨1, 0⟩ := by
    have h1 := hr.fullFlag
    have h2 := hr.almIndex
    rw [hcount] at h1 h2
    exact PTAlmRelate.mk.injEq .. ▸ ⟨h1, h2⟩
  have hbyte : (slot s.fram 500).almEvent = 0 := hr.outside (0x2E0A + 19) (.inr (.inr (by decide)))
  have hout := hc.outside (0x2E0A + 12) (.inr (.inr (by decide)))
  rw [run_cons, run_nil, AlmState.histStep, terminate_slot500 hrel hbyte] at hout
  exact absurd hout (by decide)

end BusMonitor
