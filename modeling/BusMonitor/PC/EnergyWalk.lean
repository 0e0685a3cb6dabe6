import BusMonitor.Energy.Model
import BusMonitor.Lib.Walk
/-!
# The walk over the monthly energy

`nPTEnergy_DataInfo` of `app_PCProto.c`. The PC asks for the current month
and then for the months before it, down to the one after the base. Codes
of months are not consecutive, and the tests of the handler are made with
`usPTEBaseTime + 1` and `usPTEBaseTime - 1`; `energyWalk_iff` says for
which bases that is good enough.
-/


namespace BusMonitor

open LittleEndian Month Walk

/-! ## The handler -/

/-- What a walk finds: the store and the clock, the bus mode, the data flag
and what the heap holds where `DataInfo` is allocated. The base is a month
before the current one. -/
structure EnergyHistory where
  store : EnergyStore
  now : Clock
  bBusMode : UInt8
  dataFlag : UInt8
  heap : Nat → UInt8
  isCode_base : IsCode store.usPTEBaseTime
  base_lt : store.usPTEBaseTime < gPTEFTime now

/-- The bytes of a counter after `__REV16`, which swaps them in each half
of the word. -/
def rev16Bytes (e : UInt32) : List UInt8 :=
  let b := fun i => (encode 4 e.toNat).getD i 0
  [b 1, b 0, b 3, b 2]

section handler

variable (h : EnergyHistory)

/-- `usPTEBaseTime`. -/
def EnergyHistory.base : Nat := h.store.usPTEBaseTime

/-- The 32 bytes of counters: two busbars, one and blanks, or whatever the
allocation holds. -/
def EnergyHistory.counters (ep : Vector UInt32 8) : List UInt8 :=
  if h.bBusMode = busModeS ∨ h.bBusMode = busModeY then ep.toList.flatMap rev16Bytes
  else if h.bBusMode = busModeD ∨ h.bBusMode = busModeH then
    (ep.toList.take 4).flatMap rev16Bytes ++ List.replicate 16 0x20
  else (List.range 32).map fun i => h.heap (7 + i)

/-- The 39 bytes of `DataInfo`. -/
def EnergyHistory.info (last : UInt8) (r : PTEnergy) : List UInt8 :=
  [last, h.dataFlag, r.time.toUInt8, 0x01, 0x00, 0x00, 0x00] ++ h.counters r.ep

/-- The reply for the month under `SendIndex`. -/
def EnergyHistory.reply (sendIndex : Nat) : List UInt8 :=
  h.info (if sendIndex ≤ h.base + 1 then 1 else 0)
    (if h.base < sendIndex then gPTEQuery h.store h.now h.base sendIndex
    else gPTEQuery h.store h.now h.base ((h.base + 1) % 65536))

/-- `SendIndex` moved to the month before, in 16 bits. -/
def EnergyHistory.toOlder (sendIndex : Nat) : Nat :=
  if (h.base : Int) - 1 < sendIndex then
    if sendIndex % 256 = 1 then
      ((((sendIndex - sendIndex % 256 : Nat) : Int) - 0x0100 + 0x0C) % 65536).toNat
    else (((sendIndex : Int) - 1) % 65536).toNat
  else sendIndex

/-- `nPTEnergy_DataInfo`, without data for an unknown command. -/
def nPTEnergyDataInfo (command : UInt8) (sendIndex : Nat) : Nat × Option (List UInt8) :=
  if command = 0x00 then (gPTEFTime h.now, some (h.reply (gPTEFTime h.now)))
  else if command = 0x01 then (h.toOlder sendIndex, some (h.reply (h.toOlder sendIndex)))
  else if command = 0x02 then (sendIndex, some (h.reply sendIndex))
  else (sendIndex, none)

/-! ## What a walk has to deliver -/

/-- The months from the current one down to the one after the base. -/
def EnergyHistory.months : List Nat :=
  (List.range (index (gPTEFTime h.now) - index h.base)).map fun j =>
    ofIndex (index (gPTEFTime h.now) - j)

/-- The handler as a server of the walk. -/
def energyServer : Server Nat (List UInt8) where
  first i := (nPTEnergyDataInfo h 0x00 i).map id (·.getD [])
  next i := (nPTEnergyDataInfo h 0x01 i).map id (·.getD [])
  again i := (nPTEnergyDataInfo h 0x02 i).map id (·.getD [])

/-- The reply carries the record of month `j`, and its first byte is 1
exactly on the oldest one. -/
def EnergyHistory.Shows (j : Nat) (reply : List UInt8) : Prop :=
  ∃ last, reply = h.info last (gPTEQuery h.store h.now h.base (h.months.getD j 0)) ∧
    (last = 1 ↔ j + 1 = h.months.length)

/-- **The walk is right**: after `0x00` and any requests, the reply is the
month they have moved to, or the oldest one when they would go further. -/
def EnergyHistory.WalksRight (sendIndex : Nat) : Prop :=
  ∀ as, h.Shows (min (cursor as) (h.months.length - 1)) ((energyServer h).walk sendIndex as).2

end handler

/-! ## Where the cursor stands -/

namespace EnergyHistory

variable {h : EnergyHistory} {i j : Nat}

theorem isCode (h : EnergyHistory) : IsCode h.base := h.isCode_base

theorem index_base_lt : index h.base < index (gPTEFTime h.now) :=
  (index_lt_index h.isCode (isCode_gPTEFTime h.now)).2 h.base_lt

/-- Whether a month comes after the base is told by its index. -/
theorem base_lt_ofIndex (hi : 1 ≤ i) : h.base < ofIndex i ↔ index h.base < i := by
  rw [← index_lt_index h.isCode (isCode_ofIndex i), index_ofIndex hi]

theorem ofIndex_lt (hi : i ≤ index (gPTEFTime h.now)) : ofIndex i < 65536 := by
  have hle := ofIndex_le_ofIndex hi
  rw [ofIndex_index (isCode_gPTEFTime h.now)] at hle
  exact hle.trans_lt (gPTEFTime_lt h.now)

theorem length_months : h.months.length = index (gPTEFTime h.now) - index h.base := by
  simp [months]

/-- The months of the walk are months after the base, up to the current
one. -/
theorem getD_months (hj : j < h.months.length) :
    h.months.getD j 0 = ofIndex (index (gPTEFTime h.now) - j) := by
  rw [length_months] at hj
  simp [months, hj]

/-- A month two or more after the base leads to the month before it. -/
theorem toOlder_ofIndex (hi : index h.base + 2 ≤ i) (hle : i ≤ index (gPTEFTime h.now)) :
    h.toOlder (ofIndex i) = ofIndex (i - 1) := by
  have h1 := h.isCode.one_le_index
  have hlt : h.base < ofIndex i := (base_lt_ofIndex (by omega)).2 (by omega)
  have hbound := ofIndex_lt hle
  have hindex := index_ofIndex (show 1 ≤ i by omega)
  unfold toOlder
  rw [if_pos (by omega), ofIndex_pred (by omega)]
  split
  · -- January: not the one of the year 0, which no month precedes
    unfold index at hindex
    omega
  · omega

theorem length_months_pos : 0 < h.months.length := by
  have := index_base_lt (h := h)
  rw [length_months]
  omega

/-- Over the months the walk stands where the requests say. -/
theorem walk_fst (sendIndex : Nat) (as : List Ask) (has : cursor as < h.months.length) :
    ((energyServer h).walk sendIndex as).1 = ofIndex (index (gPTEFTime h.now) - cursor as) := by
  rw [length_months] at has
  refine walk_invariant (I := fun j p => p.1 = ofIndex (index (gPTEFTime h.now) - j))
    ?_ ?_ ?_ as has
  · exact (ofIndex_index (isCode_gPTEFTime h.now)).symm
  · rintro j ⟨i, reply⟩ hj rfl
    change h.toOlder (ofIndex _) = _
    rw [toOlder_ofIndex (by omega) (by omega), Nat.sub_sub]
  · rintro j ⟨i, reply⟩ - hi
    exact hi

/-- The reply is the one for the month the walk stands on. -/
theorem walk_snd {sendIndex : Nat} (as : List Ask) : ((energyServer h).walk sendIndex as).2 =
    h.reply ((energyServer h).walk sendIndex as).1 := by
  induction as using List.reverseRecOn with
  | nil => rfl
  | append_singleton as a ih =>
    rw [walk_concat]
    cases a <;> rfl

/-- Its first byte tells whether that month is past the one after the
base, in code. -/
theorem head?_reply : (h.reply i).head? = some (if i ≤ h.base + 1 then 1 else 0) := rfl

/-- A right walk stands at most one code past the base exactly at its
end. -/
theorem WalksRight.le_iff {sendIndex : Nat} (hr : h.WalksRight sendIndex) (as : List Ask) :
    ((energyServer h).walk sendIndex as).1 ≤ h.base + 1 ↔ h.months.length ≤ cursor as + 1 := by
  obtain ⟨last, hreply, hlast⟩ := hr as
  have hpos := length_months_pos (h := h)
  have hhead := congrArg List.head? hreply
  rw [walk_snd, head?_reply] at hhead
  have hflag : (if ((energyServer h).walk sendIndex as).1 ≤ h.base + 1 then (1 : UInt8) else 0) =
      last := Option.some.inj hhead
  rw [← hflag] at hlast
  constructor
  · intro hle
    rw [if_pos hle] at hlast
    have := hlast.1 rfl
    omega
  · intro hend
    by_contra hle
    rw [if_neg hle] at hlast
    exact absurd (hlast.2 (by omega)) (by decide)

/-! ## Which bases a walk is right for -/

/-- At most one code past the base the reply is the one for the month
after it, marked as the last. -/
theorem reply_of_le (hle : i ≤ h.base + 1) :
    h.reply i = h.info 1 (gPTEQuery h.store h.now h.base (h.base + 1)) := by
  have hlt : h.base < gPTEFTime h.now := h.base_lt
  have hnow := gPTEFTime_lt h.now
  have hmod : (h.base + 1) % 65536 = h.base + 1 := Nat.mod_eq_of_lt (by omega)
  unfold reply
  rw [if_pos hle, hmod]
  split
  · rw [show i = h.base + 1 by omega]
  · rfl

/-- More than one code past the base the reply is the one for the month
itself, not marked. -/
theorem reply_of_lt (hlt : h.base + 1 < i) :
    h.reply i = h.info 0 (gPTEQuery h.store h.now h.base i) := by
  unfold reply
  rw [if_neg (by omega), if_pos (by omega)]

/-- The handler does not leave the codes up to one past the base, unless
the base is January of the year 0. -/
theorem toOlder_le (hjan : h.base ≠ 0x0001) (hle : i ≤ h.base + 1) : h.toOlder i ≤ h.base + 1 := by
  have hcode := h.isCode
  unfold IsCode at hcode
  unfold toOlder
  split
  · split <;> omega
  · exact hle

/-- The last of the months is one code past the base, but after a
December. -/
theorem ofIndex_base_succ (hdec : h.base % 256 ≠ 12) :
    ofIndex (index h.base + 1) = h.base + 1 := ofIndex_succ h.isCode hdec

/-- What state a right walk is in at its month `j`: the month itself, and
at the end any code up to one past the base. -/
def Stands (h : EnergyHistory) (j sendIndex : Nat) : Prop :=
  if j + 1 < h.months.length then sendIndex = ofIndex (index (gPTEFTime h.now) - j)
  else sendIndex ≤ h.base + 1

theorem stands_ofIndex (hdec : h.base % 256 ≠ 12) (hj : j < h.months.length) :
    h.Stands j (ofIndex (index (gPTEFTime h.now) - j)) := by
  rw [length_months] at hj
  unfold Stands
  split
  · rfl
  · next hend =>
    rw [length_months] at hend
    rw [show index (gPTEFTime h.now) - j = index h.base + 1 by omega, ofIndex_base_succ hdec]

theorem Stands.shows (hdec : h.base % 256 ≠ 12) (hj : j < h.months.length) (hi : h.Stands j i) :
    h.Shows j (h.reply i) := by
  have hlen := length_months (h := h)
  unfold Stands at hi
  split at hi
  · next hbefore =>
    have hgt : h.base + 1 < i := by
      rw [← ofIndex_base_succ hdec, hi, ← index_lt_index (isCode_ofIndex _) (isCode_ofIndex _),
        index_ofIndex (by omega), index_ofIndex (by omega)]
      omega
    refine ⟨0, ?_, fun h0 => absurd h0 (by decide), fun hend => absurd hend (by omega)⟩
    rw [reply_of_lt hgt, getD_months hj, hi]
  · next hend =>
    refine ⟨1, ?_, fun _ => by omega, fun _ => rfl⟩
    rw [reply_of_le hi, getD_months hj,
      show index (gPTEFTime h.now) - j = index h.base + 1 by omega, ofIndex_base_succ hdec]

theorem Stands.toOlder (hdec : h.base % 256 ≠ 12) (hjan : h.base ≠ 0x0001) (hi : h.Stands j i) :
    h.Stands (min (j + 1) (h.months.length - 1)) (h.toOlder i) := by
  have hlen := length_months (h := h)
  have hpos := length_months_pos (h := h)
  unfold Stands at hi
  split at hi
  · -- a month before the last leads to the next one
    have holder : h.toOlder i = ofIndex (index (gPTEFTime h.now) - (j + 1)) := by
      rw [hi, toOlder_ofIndex (by omega) (by omega), Nat.sub_sub]
    rw [holder, show min (j + 1) (h.months.length - 1) = j + 1 by omega]
    exact stands_ofIndex hdec (by omega)
  · unfold Stands
    rw [if_neg (by omega)]
    exact toOlder_le hjan hi

theorem walksRight_of {sendIndex : Nat} (hdec : h.base % 256 ≠ 12) (hjan : h.base ≠ 0x0001) :
    h.WalksRight sendIndex := by
  have hpos := length_months_pos (h := h)
  intro as
  have hstands : h.Stands (min (cursor as) (h.months.length - 1))
      ((energyServer h).walk sendIndex as).1 := by
    refine walk_invariant_stay (I := fun j p => h.Stands j p.1) ?_ ?_ ?_ as
    · have h0 := stands_ofIndex hdec hpos
      rwa [Nat.sub_zero, ofIndex_index (isCode_gPTEFTime h.now)] at h0
    · rintro j ⟨i, reply⟩ - hi
      exact hi.toOlder hdec hjan
    · rintro j ⟨i, reply⟩ - hi
      exact hi
  rw [walk_snd]
  exact hstands.shows hdec (by omega)

/-- After a December the last of the months is January, far more than one
code past the base: its reply is not marked as the last. -/
theorem not_walksRight_december {sendIndex : Nat} (hdec : h.base % 256 = 12) :
    ¬ h.WalksRight sendIndex := by
  intro hr
  have hpos := length_months_pos (h := h)
  have hlen := length_months (h := h)
  have hstand := walk_fst (h := h) sendIndex
    (List.replicate (h.months.length - 1) .next) (by rw [cursor_replicate]; omega)
  have hle := (hr.le_iff (List.replicate (h.months.length - 1) .next)).2
    (by rw [cursor_replicate]; omega)
  rw [hstand, cursor_replicate,
    show index (gPTEFTime h.now) - (h.months.length - 1) = index h.base + 1 by omega] at hle
  unfold ofIndex index at hle
  omega

/-- Over January of the year 0 the walk goes on below its last month, from
the code 0x0001 to 0xFF0C, the December of a year before the year 0. -/
theorem not_walksRight_january {sendIndex : Nat} (hjan : h.base = 0x0001) :
    ¬ h.WalksRight sendIndex := by
  intro hr
  have hpos := length_months_pos (h := h)
  have hlen := length_months (h := h)
  have hlast := walk_fst (h := h) sendIndex
    (List.replicate (h.months.length - 1) .next) (by rw [cursor_replicate]; omega)
  rw [cursor_replicate,
    show index (gPTEFTime h.now) - (h.months.length - 1) = index h.base + 1 by omega,
    ofIndex_base_succ (by omega), hjan] at hlast
  have hle := (hr.le_iff (List.replicate (h.months.length - 1) .next ++ [.next] ++ [.next])).2
    (by simp only [cursor_append, cursor_replicate]; omega)
  rw [walk_concat, walk_concat] at hle
  change h.toOlder (h.toOlder ((energyServer h).walk sendIndex _).1) ≤ _ at hle
  rw [hlast] at hle
  simp [EnergyHistory.toOlder, hjan] at hle

end EnergyHistory

/-- **The walk over the energy is right exactly for the bases that are
neither a December nor January of the year 0.** -/
theorem energyWalk_iff (h : EnergyHistory) (sendIndex : Nat) :
    h.WalksRight sendIndex ↔ h.base % 256 ≠ 12 ∧ h.base ≠ 0x0001 := by
  constructor
  · intro hr
    exact ⟨fun hdec => EnergyHistory.not_walksRight_december hdec hr,
      fun hjan => EnergyHistory.not_walksRight_january hjan hr⟩
  · rintro ⟨hdec, hjan⟩
    exact EnergyHistory.walksRight_of hdec hjan

/-- A device set up in January 2024, whose base is the December before,
asked in the same month. -/
def decemberBase : EnergyHistory where
  store := ⟨fun _ => 0, 0x170C, 0⟩
  now := january 0
  bBusMode := busModeS
  dataFlag := 0
  heap _ := 0
  isCode_base := by decide
  base_lt := by decide

/-- The only month there is comes without the mark, and the next request
leads to the base itself. -/
theorem december_walks_wrong : ((energyServer decemberBase).walk 0 []).2.head? = some 0 ∧
    ((energyServer decemberBase).walk 0 [.next]).1 = decemberBase.base ∧
    ¬ decemberBase.WalksRight 0 := by
  refine ⟨by decide +kernel, by decide +kernel, ?_⟩
  intro hr
  obtain ⟨last, hreply, hlast⟩ := hr []
  have hhead : last = 0 := by
    have hhead := congrArg List.head? hreply
    rw [EnergyHistory.walk_snd, EnergyHistory.head?_reply] at hhead
    exact (Option.some.inj hhead).symm.trans (by decide +kernel)
  rw [hhead] at hlast
  exact absurd (hlast.2 (by decide +kernel)) (by decide)

end BusMonitor
