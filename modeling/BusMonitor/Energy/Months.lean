import BusMonitor.Energy.Slots
import BusMonitor.Fram.Writes
/-!
# One record a month

Runs of `gPTE_Save` ticks, restarts and clock advances from the first
start of a device. Beside the store a run keeps the writes that have made
its FRAM, and what was due: a record for each month whose first minute a
tick has seen, with the counters of the first such tick.
`one_record_a_month` says in which runs the records due are those written,
each to its slot, and the base is the month before the first of them.
-/


namespace BusMonitor

open LittleEndian Month Stepwise

/-! ## Runs -/

/-- The energy store and the clock, with the FRAM before the first start, the
writes made since, the records due, and the month whose first minute was
ticked if no tick at another minute of the hour came since. -/
structure MonthRun where
  store : EnergyStore
  now : Clock
  blank : Mem
  writes : List Mem.Store
  due : List PTEnergy
  held : Option Nat

/-- What happens to the device: `gPTE_Save` is called with the counters of
the moment, the power goes off and on, the clock goes on. -/
inductive MonthOp where
  | tick (ep : Vector UInt32 8)
  | restart
  | advance (later : Clock)

/-- The records due after a tick: a first minute of a month not seen yet
brings the record of the month. -/
def dueAfter (due : List PTEnergy) (now : Clock) (ep : Vector UInt32 8) : List PTEnergy :=
  if now.FirstMinute ∧ ∀ r ∈ due, r.time.toNat ≠ gPTEFTime now then due ++ [currentRecord now ep]
  else due

/-- The base suits the records: none before the first one, and the month
before it from then on. -/
def BaseSuits (base : Nat) : List PTEnergy → Prop
  | [] => base = 0
  | r :: _ => IsCode base ∧ index base + 1 = index r.time.toNat

/-- The write of a record to its slot. -/
def slotWrite (base : Nat) (r : PTEnergy) : Mem.Store := ⟨nPTEAddr base r.time.toNat, r.toBytes⟩

/-- The writes that store a record, by their length. -/
def recordWrites (ws : List Mem.Store) : List Mem.Store :=
  ws.filter fun w => w.bytes.length = sizeofPTEnergy

theorem recordWrites_append (ws ws' : List Mem.Store) :
    recordWrites (ws ++ ws') = recordWrites ws ++ recordWrites ws' :=
  List.filter_append ..

theorem time_currentRecord (now : Clock) (ep : Vector UInt32 8) :
    (currentRecord now ep).time.toNat = gPTEFTime now := by
  have hmod : (currentRecord now ep).time.toNat = gPTEFTime now % 65536 := by simp [currentRecord]
  rw [hmod, Nat.mod_eq_of_lt (gPTEFTime_lt now)]

/-- A tick writes no record, or that of the current month to its slot. -/
theorem recordWrites_save (s : EnergyStore) (now : Clock) (ep : Vector UInt32 8) :
    recordWrites (saveWrites s now ep) =
      if Saves s now then [slotWrite (rebase s now).usPTEBaseTime (currentRecord now ep)] else [] := by
  have hsize : sizeofPTEnergy = 34 := rfl
  have hbase : recordWrites (if Pending s now ∧ s.usPTEBaseTime = 0 then
      [⟨fmAddrEPPastTime + fmOffsetBaseTime, encode 2 (monthBefore now)⟩] else []) = [] := by
    split <;> simp [recordWrites, hsize]
  have hflag : recordWrites (if now.minutes ≠ 0 ∧ s.ucPTESaveFlag = 1 then
      [⟨fmAddrEPPastTime + fmOffsetSaveFlag, [0]⟩] else []) = [] := by
    split <;> simp [recordWrites, hsize]
  rw [saveWrites, recordWrites_append, recordWrites_append, hbase, hflag, List.nil_append,
    List.append_nil]
  split
  · simp [recordWrites, hsize, length_toBytes, slotWrite, time_currentRecord]
  · rfl

/-- A start writes none. -/
theorem recordWrites_init (m : Mem) : recordWrites (gPTEInitWrites m) = [] := by
  unfold gPTEInitWrites
  split
  · rfl
  · simp [recordWrites, sizeofPTEnergy]

/-- The base of a record is a month. -/
theorem BaseSuits.isCode {base : Nat} {due : List PTEnergy} (h : BaseSuits base due)
    (hne : due ≠ []) : IsCode base := by
  cases due with
  | nil => exact absurd rfl hne
  | cons r rs => exact h.1

instance (base : Nat) : ∀ rs, Decidable (BaseSuits base rs)
  | [] => inferInstanceAs (Decidable (_ = _))
  | _ :: _ => inferInstanceAs (Decidable (_ ∧ _))

/-- The first minute of the month with code `t`, as the clock is compared. -/
def firstMinute (t : Nat) : ℕ ×ₗ ℕ ×ₗ ℕ ×ₗ ℕ := toLex (t, toLex (1, toLex (0, 0)))

theorem Clock.time_eq_firstMinute {now : Clock} {t : Nat} :
    now.time = firstMinute t ↔ gPTEFTime now = t ∧ now.FirstMinute := by
  unfold Clock.time firstMinute Clock.FirstMinute
  simp [Prod.ext_iff]

theorem le_of_firstMinute_le {now : Clock} {t : Nat} (h : firstMinute t ≤ now.time) :
    t ≤ gPTEFTime now :=
  Prod.Lex.monotone_fst _ _ h

/-- The month before, except at the start of the year 00. -/
theorem index_monthBefore {now : Clock} (hjan : gPTEFTime now ≠ 1) :
    index (monthBefore now) + 1 = index (gPTEFTime now) := by
  have := now.year_lt
  have := now.one_le_month
  have := now.month_le
  unfold gPTEFTime index monthBefore at *
  split <;> omega

namespace MonthRun

/-- A tick: `gPTE_Save` is called, and the logs are kept. -/
def tick (R : MonthRun) (ep : Vector UInt32 8) : MonthRun :=
  { R with
    store := gPTESave R.store R.now ep
    writes := R.writes ++ saveWrites R.store R.now ep
    due := dueAfter R.due R.now ep
    held := if R.now.minutes ≠ 0 then none
      else if R.now.FirstMinute then some (gPTEFTime R.now) else R.held }

/-- One step of a run. The clock does not go back. -/
def step (R : MonthRun) : MonthOp → MonthRun
  | .tick ep => R.tick ep
  | .restart =>
    { R with
      store := .powerUp R.store.fram
      writes := R.writes ++ gPTEInitWrites R.store.fram }
  | .advance later => if R.now.time ≤ later.time then { R with now := later } else R

/-- The device as it is first switched on. -/
def init (fram : Mem) (now : Clock) : MonthRun :=
  ⟨.powerUp fram, now, fram, gPTEInitWrites fram, [], none⟩

/-- **What is written is what is due**: the writes have made the FRAM, and
those of records are one for each month whose first minute was seen, that
of its first tick, in the slot behind the base before them. -/
structure Right (R : MonthRun) : Prop where
  complete : R.store.fram = R.blank.writeAll R.writes
  once : recordWrites R.writes = R.due.map (slotWrite R.store.usPTEBaseTime)
  base : BaseSuits R.store.usPTEBaseTime R.due

/-- **The condition on a step**. Between ticks in the first minutes of two
months there is a tick at a minute other than 0; and the first tick in the
first minute of a month is not that of January of the year 00. -/
def StepOk (R : MonthRun) : MonthOp → Prop
  | .tick _ => R.now.FirstMinute →
    (R.held = none ∨ R.held = some (gPTEFTime R.now)) ∧ (R.due = [] → gPTEFTime R.now ≠ 1)
  | _ => True

instance (R : MonthRun) (op : MonthOp) : Decidable (R.StepOk op) := by
  unfold StepOk
  split <;> infer_instance

/-! ## The invariant -/

variable {R : MonthRun} {op : MonthOp}

/-- The header mirrors the store, the flag is up while a month is held,
the held month is recorded, and the records are of months whose first
minute has come. -/
structure Sound (R : MonthRun) : Prop where
  mirrored : Mirrored R.store
  right : R.Right
  flag : R.store.ucPTESaveFlag = if R.held = none then 0 else 1
  held : ∀ t, R.held = some t → ∃ r ∈ R.due, r.time.toNat = t
  codes : ∀ r ∈ R.due, IsCode r.time.toNat
  past : ∀ r ∈ R.due, firstMinute r.time.toNat ≤ R.now.time
  current : R.now.FirstMinute → (∃ r ∈ R.due, r.time.toNat = gPTEFTime R.now) →
    R.held = some (gPTEFTime R.now)

theorem sound_init {fram : Mem} (hf : readWord fram fmAddrEPPastTime ≠ initMark) (now : Clock) :
    (init fram now).Sound where
  mirrored := mirrored_powerUp hf
  right := ⟨gPTEInit_fram fram, recordWrites_init fram,
    congrArg EnergyStore.usPTEBaseTime (powerUp_unmarked hf)⟩
  flag := congrArg EnergyStore.ucPTESaveFlag (powerUp_unmarked hf)
  held _ h := absurd h.symm (Option.some_ne_none _)
  codes _ h := absurd h List.not_mem_nil
  past _ h := absurd h List.not_mem_nil
  current _ h := absurd h (by simp [init])

theorem Sound.restart (h : R.Sound) : R.step .restart = R := by
  have hnone : gPTEInitWrites R.store.fram = [] := if_pos h.mirrored.mark
  change ({ R with
    store := .powerUp R.store.fram
    writes := R.writes ++ gPTEInitWrites R.store.fram } : MonthRun) = R
  rw [h.mirrored.powerUp, hnone, List.append_nil]

/-- The writes of a tick make its FRAM. -/
theorem Right.complete_tick (h : R.Right) (ep : Vector UInt32 8) :
    (gPTESave R.store R.now ep).fram =
      R.blank.writeAll (R.writes ++ saveWrites R.store R.now ep) := by
  rw [gPTESave_fram, Mem.writeAll_append, ← h.complete]

/-- A tick that does not save adds no record to the writes. -/
theorem Right.recordWrites_tick (h : R.Right) (hno : ¬ Saves R.store R.now)
    (ep : Vector UInt32 8) :
    recordWrites (R.writes ++ saveWrites R.store R.now ep) =
      R.due.map (slotWrite R.store.usPTEBaseTime) := by
  rw [recordWrites_append, recordWrites_save, if_neg hno, List.append_nil, h.once]

/-- The clock goes on. It is in the first minute of a recorded month only
if it was there before. -/
theorem Sound.advance (h : R.Sound) (later : Clock) : (R.step (.advance later)).Sound := by
  by_cases hfwd : R.now.time ≤ later.time
  · have hstep : R.step (.advance later) = { R with now := later } := if_pos hfwd
    rw [hstep]
    have hright := h.right
    refine ⟨h.mirrored, ⟨hright.complete, hright.once, hright.base⟩, h.flag, h.held, h.codes,
      fun r hr => (h.past r hr).trans hfwd, ?_⟩
    intro hfirst hrec
    change ∃ r ∈ R.due, r.time.toNat = gPTEFTime later at hrec
    obtain ⟨r, hr, ht⟩ := hrec
    -- the record is not from later than the clock was, so the clock stood there already
    have hlater : later.time = firstMinute (gPTEFTime later) :=
      Clock.time_eq_firstMinute.2 ⟨rfl, hfirst⟩
    have hsame : R.now.time = firstMinute (gPTEFTime later) :=
      le_antisymm (hfwd.trans hlater.le) (ht ▸ h.past r hr)
    obtain ⟨hmonth, hnow⟩ := Clock.time_eq_firstMinute.1 hsame
    rw [← hmonth] at ht
    have hheld := h.current hnow ⟨r, hr, ht⟩
    rw [hmonth] at hheld
    exact hheld
  · rw [show R.step (.advance later) = R from if_neg hfwd]
    exact h

/-- A tick at another minute of the hour takes the flag down, with the month
that was held. -/
theorem Sound.flag_lowerFlag (h : R.Sound) : (lowerFlag R.store R.now).ucPTESaveFlag =
    if (if R.now.minutes ≠ 0 then none else R.held) = none then 0 else 1 := by
  have hflag := h.flag
  unfold lowerFlag
  by_cases hm : R.now.minutes ≠ 0
  · by_cases hup : R.store.ucPTESaveFlag = 1
    · rw [if_pos ⟨hm, hup⟩]
      simp [hm]
    · -- the flag is down only while no month is held
      have hnone : R.held = none := by
        by_contra hne
        exact hup (hflag.trans (if_neg hne))
      rw [if_neg fun hc => hup hc.2, hflag]
      simp [hnone, hm]
  · rw [if_neg fun hc => hm hc.1, hflag]
    simp [hm]

/-- A tick outside a first minute writes no record, and nothing is due. -/
theorem Sound.tick_of_not_firstMinute (h : R.Sound) (hfirst : ¬ R.now.FirstMinute)
    (ep : Vector UInt32 8) : (R.tick ep).Sound := by
  have hstore : gPTESave R.store R.now ep = lowerFlag R.store R.now :=
    if_neg fun hp => hfirst hp.1
  have htick : R.tick ep = { R with
      store := lowerFlag R.store R.now
      writes := R.writes ++ saveWrites R.store R.now ep
      held := if R.now.minutes ≠ 0 then none else R.held } := by
    unfold tick dueAfter
    rw [hstore, if_neg fun hd => hfirst hd.1, if_neg hfirst]
  have hright := h.right
  rw [htick]
  refine ⟨h.mirrored.lowerFlag, ⟨?_, ?_, ?_⟩, h.flag_lowerFlag, ?_, h.codes, h.past,
    fun hf => absurd hf hfirst⟩
  · rw [← hstore]
    exact hright.complete_tick ep
  · rw [lowerFlag_base]
    exact hright.recordWrites_tick (fun hs => hfirst hs.1.1) ep
  · rw [lowerFlag_base]
    exact hright.base
  · intro t ht
    change (if R.now.minutes ≠ 0 then none else R.held) = some t at ht
    split at ht
    · exact absurd ht.symm (Option.some_ne_none t)
    · exact h.held t ht

/-- With the flag up a tick in a first minute leaves the store alone. -/
theorem Sound.tick_of_held (h : R.Sound) (hfirst : R.now.FirstMinute) (hheld : R.held ≠ none)
    (ep : Vector UInt32 8) : R.tick ep = { R with
      due := dueAfter R.due R.now ep, held := some (gPTEFTime R.now) } := by
  have hflag : R.store.ucPTESaveFlag = 1 := h.flag.trans (if_neg hheld)
  have hpend : ¬ Pending R.store R.now := fun hp => absurd (hp.2.symm.trans hflag) (by decide)
  have hnone : saveWrites R.store R.now ep = [] := by
    unfold saveWrites
    rw [if_neg fun hc => hpend hc.1, if_neg fun hs : Saves R.store R.now => hpend hs.1,
      if_neg fun hm => hm.1 hfirst.2.2]
    rfl
  unfold tick
  rw [show gPTESave R.store R.now ep = lowerFlag R.store R.now from if_neg hpend,
    lowerFlag_of_firstMinute hfirst, hnone, List.append_nil,
    if_neg (not_not_intro hfirst.2.2), if_pos hfirst]

/-- A second tick in the first minute of a month changes nothing. -/
theorem Sound.tick_again (h : R.Sound) (hfirst : R.now.FirstMinute)
    (hheld : R.held = some (gPTEFTime R.now)) (ep : Vector UInt32 8) : R.tick ep = R := by
  obtain ⟨r, hr, ht⟩ := h.held _ hheld
  have hdue : dueAfter R.due R.now ep = R.due := if_neg fun hd => hd.2 r hr ht
  rw [h.tick_of_held hfirst (hheld ▸ Option.some_ne_none _) ep, hdue, ← hheld]

/-- The record of the current month is due at the first tick that sees its
first minute. -/
theorem Sound.dueAfter_new (h : R.Sound) (hfirst : R.now.FirstMinute)
    (hheld : R.held ≠ some (gPTEFTime R.now)) (ep : Vector UInt32 8) :
    dueAfter R.due R.now ep = R.due ++ [currentRecord R.now ep] :=
  if_pos ⟨hfirst, fun r hr ht => hheld (h.current hfirst ⟨r, hr, ht⟩)⟩

/-- The base a record is stored under, where it is not the first of the
year 00. -/
theorem Sound.baseSuits_rebase (h : R.Sound) (hjan : R.due = [] → gPTEFTime R.now ≠ 1)
    (ep : Vector UInt32 8) :
    BaseSuits (rebase R.store R.now).usPTEBaseTime (R.due ++ [currentRecord R.now ep]) := by
  have hbase := h.right.base
  rw [rebase_base]
  cases hdue : R.due with
  | nil =>
    rw [hdue] at hbase
    rw [if_pos (show R.store.usPTEBaseTime = 0 from hbase)]
    refine ⟨isCode_monthBefore, ?_⟩
    rw [time_currentRecord]
    exact index_monthBefore (hjan hdue)
  | cons r rs =>
    rw [hdue] at hbase
    rw [if_neg fun h0 => absurd (h0 ▸ hbase.1) (by decide)]
    exact hbase

/-- The records already due keep their slots. -/
theorem Sound.slotWrite_rebase (h : R.Sound) :
    R.due.map (slotWrite R.store.usPTEBaseTime) =
      R.due.map (slotWrite (rebase R.store R.now).usPTEBaseTime) := by
  have hbase := h.right.base
  cases hdue : R.due with
  | nil => rfl
  | cons r rs =>
    rw [hdue] at hbase
    rw [rebase_base, if_neg fun h0 => absurd (h0 ▸ hbase.1) (by decide)]

/-- So the base lies before the current month. -/
theorem Sound.rebase_lt (h : R.Sound) (hjan : R.due = [] → gPTEFTime R.now ≠ 1) :
    (rebase R.store R.now).usPTEBaseTime < gPTEFTime R.now := by
  have hsuits := h.baseSuits_rebase hjan (.replicate 8 0)
  cases hdue : R.due with
  | nil =>
    rw [hdue] at hsuits
    obtain ⟨hcode, hindex⟩ := hsuits
    rw [time_currentRecord] at hindex
    exact (index_lt_index hcode (isCode_gPTEFTime R.now)).1 (by omega)
  | cons r rs =>
    have hr : r ∈ R.due := hdue ▸ List.mem_cons_self ..
    rw [hdue] at hsuits
    obtain ⟨hcode, hindex⟩ := hsuits
    have hlt := (index_lt_index hcode (h.codes r hr)).1 (by omega)
    exact hlt.trans_le (le_of_firstMinute_le (h.past r hr))

/-- **The first tick in the first minute of a month** stores its record. -/
theorem Sound.tick_new (h : R.Sound) (hfirst : R.now.FirstMinute) (hheld : R.held = none)
    (hjan : R.due = [] → gPTEFTime R.now ≠ 1) (ep : Vector UInt32 8) : (R.tick ep).Sound := by
  have hlt := h.rebase_lt hjan
  have hpend : Pending R.store R.now := ⟨hfirst, h.flag.trans (if_pos hheld)⟩
  have hstore : gPTESave R.store R.now ep = recorded (rebase R.store R.now) R.now ep := by
    rcases gPTESave_cases R.store R.now ep with ⟨-, he⟩ | ⟨hle, -⟩ | ⟨hp, -⟩
    · exact he
    · exact absurd hlt (Nat.not_lt.2 hle)
    · exact absurd hpend hp
  have hdue := h.dueAfter_new hfirst (hheld ▸ (Option.some_ne_none _).symm) ep
  have htick : R.tick ep = ⟨recorded (rebase R.store R.now) R.now ep, R.now, R.blank,
      R.writes ++ saveWrites R.store R.now ep, R.due ++ [currentRecord R.now ep],
      some (gPTEFTime R.now)⟩ := by
    unfold tick
    rw [hstore, hdue, if_neg (not_not_intro hfirst.2.2), if_pos hfirst]
  have hcomplete := h.right.complete_tick ep
  rw [hstore] at hcomplete
  have honce : recordWrites (R.writes ++ saveWrites R.store R.now ep) =
      (R.due ++ [currentRecord R.now ep]).map
        (slotWrite (rebase R.store R.now).usPTEBaseTime) := by
    rw [recordWrites_append, recordWrites_save, if_pos ⟨hpend, hlt⟩, h.right.once,
      List.map_append, h.slotWrite_rebase]
    rfl
  have hsuits := h.baseSuits_rebase hjan ep
  have htime := time_currentRecord R.now ep
  have hmem : currentRecord R.now ep ∈ R.due ++ [currentRecord R.now ep] := by simp
  rw [htick]
  refine ⟨?_, ⟨hcomplete, honce, hsuits⟩, rfl, ?_, ?_, ?_, fun _ _ => rfl⟩
  · have hcode := hsuits.isCode (List.ne_nil_of_mem hmem)
    -- the slot of a month after the base lies behind the header
    have haddr := nPTEAddr_month hcode (isCode_gPTEFTime R.now) hlt le_rfl
    have hslots : fmAddrEPPastTime + fmOffsetPTE = 0x3006 := rfl
    exact (h.mirrored.rebase.write (.inr (by omega))).setFlag 1
  · intro t ht
    exact ⟨_, hmem, htime.trans (Option.some_inj.1 ht)⟩
  · refine List.forall_mem_append.2 ⟨h.codes, List.forall_mem_singleton.2 ?_⟩
    rw [htime]
    exact isCode_gPTEFTime R.now
  · refine List.forall_mem_append.2 ⟨h.past, List.forall_mem_singleton.2 ?_⟩
    rw [htime]
    exact (Clock.time_eq_firstMinute.2 ⟨rfl, hfirst⟩).ge

/-- **One step** that meets the condition. -/
theorem Sound.step (h : R.Sound) (hok : R.StepOk op) : (R.step op).Sound := by
  cases op with
  | tick ep =>
    change (R.tick ep).Sound
    by_cases hfirst : R.now.FirstMinute
    · obtain ⟨hnone | hsame, hjan⟩ := hok hfirst
      · exact h.tick_new hfirst hnone hjan ep
      · rwa [h.tick_again hfirst hsame]
    · exact h.tick_of_not_firstMinute hfirst ep
  | restart => rwa [h.restart]
  | advance later => exact h.advance later

/-- A step that does not meet it goes wrong: a record is due and none is
written. -/
theorem Sound.not_right (h : R.Sound) (hbad : ¬ R.StepOk op) : ¬ (R.step op).Right := by
  cases op with
  | tick ep =>
    intro hright
    change (R.tick ep).Right at hright
    have hfirst : R.now.FirstMinute := by
      by_contra hne
      exact hbad fun hf => absurd hf hne
    -- a tick that writes nothing is right only where the month is recorded
    have hwritten (hno : ¬ Saves R.store R.now) : R.held = some (gPTEFTime R.now) := by
      by_contra hne
      have hdue : (R.tick ep).due = R.due ++ [currentRecord R.now ep] :=
        h.dueAfter_new hfirst hne ep
      have hlen := congrArg List.length
        ((h.right.recordWrites_tick hno ep).symm.trans hright.once)
      rw [hdue, List.length_map, List.length_map, List.length_append,
        List.length_singleton] at hlen
      omega
    have hsaves : Saves R.store R.now := by
      by_contra hno
      have hheld := hwritten hno
      refine hbad fun _ => ⟨.inr hheld, fun hnil => ?_⟩
      obtain ⟨r, hr, -⟩ := h.held _ hheld
      exact absurd (hnil ▸ hr) List.not_mem_nil
    refine hbad fun _ => ⟨.inl ?_, fun hnil hjan => ?_⟩
    · by_contra hne
      exact absurd (hsaves.1.2.symm.trans (h.flag.trans (if_neg hne))) (by decide)
    · -- in January of the year 00 the base would come after the month
      have hbase := h.right.base
      rw [hnil] at hbase
      have hlt := hsaves.2
      rw [rebase_base, if_pos (show R.store.usPTEBaseTime = 0 from hbase)] at hlt
      have hmonth : 1 ≤ monthBefore R.now := isCode_monthBefore.1.trans (Nat.mod_le _ _)
      omega
  | restart => exact absurd trivial hbad
  | advance later => exact absurd trivial hbad

/-- **One record a month.** From the first start of a device the records
written are those due, under the base of the month before, in exactly the
runs whose steps meet the condition. -/
theorem one_record_a_month {fram : Mem} (hf : readWord fram fmAddrEPPastTime ≠ initMark)
    (now : Clock) (ops : List MonthOp) :
    Meets step (fun R op => (R.step op).Right) (init fram now) ops ↔
      Meets step StepOk (init fram now) ops :=
  (meets_congr ops (sound_init hf now) (fun _ _ h hok => h.step hok) fun _ _ h =>
    ⟨fun hok => (h.step hok).right,
      fun hright => by_contra fun hbad => h.not_right hbad hright⟩).symm

/-- Two months, with a second tick in the first minute and a restart. -/
theorem two_months_recorded : Meets step (fun R op => (R.step op).Right)
    (init (fun _ => 0xFF) (january 0)) [.tick (.replicate 8 100), .tick (.replicate 8 101), .restart,
      .advance (january 1), .tick (.replicate 8 102), .advance (february 0),
      .tick (.replicate 8 250)] :=
  (one_record_a_month (by decide) _ _).2 (by decide +kernel)

/-- No record of February when the power was off from the first minute of
January to that of February, and none at all from a clock at its start. -/
theorem records_missing :
    ¬ Meets step (fun R op => (R.step op).Right) (init (fun _ => 0xFF) (january 0))
      [.tick (.replicate 8 100), .advance (february 0), .restart, .tick (.replicate 8 250)] ∧
    ¬ Meets step (fun R op => (R.step op).Right) (init (fun _ => 0xFF) unsetClock)
      [.tick (.replicate 8 0)] := by
  constructor
  · intro h
    exact absurd h.2.2.2.1.once (by decide +kernel)
  · intro h
    exact absurd h.1.once (by decide +kernel)

end MonthRun

end BusMonitor
