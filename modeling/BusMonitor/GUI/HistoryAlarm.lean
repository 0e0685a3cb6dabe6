import BusMonitor.Lib.Assign
import BusMonitor.PC.AlarmWalk
import Mathlib.Order.Bounds.Basic
/-!
# The alarm history screen

`nAlmRecord_Get` and the `WM_PAINT` case of `WindowDLG_History_Alarm.c`:
six loops that read slots of the ring and show their records in the ten
rows of a list. `paintRight_iff` says for which states and pages the rows
are those of the page, every slot read is one of the ring, and the number
of pages is right: the index must not stand at 0, and a full ring is shown
right on this side of the wrap only.
-/


namespace BusMonitor

open Recent Assign

/-- A row of the list: blank, or with the record of a slot. -/
inductive Row where
  | blank
  | record (i : Int)
  deriving DecidableEq, Repr

/-- `for(i = hi; i >= lo; i--)`: the record of slot `i` is read and shown in
row `hi - i`. -/
def showDown (hi lo : Int) : List (Nat × Row) :=
  (List.range (hi + 1 - lo).toNat).map fun r => (r, .record (hi - r))

/-- The rows from `r` on are set to the empty text. -/
def blankFrom (r : Nat) : List (Nat × Row) :=
  (List.range' r (10 - r)).map fun r => (r, .blank)

/-- `nAlmRecord_Get`: what it shows, row by row. -/
def nAlmRecordGet (h : PTAlmRelate) (page : Nat) : List (Nat × Row) :=
  let a : Int := h.almIndex
  if h.almIndex % rtAlmItem = 0 then
    showDown (a - 1 - page * rtAlmItem) (a - rtAlmItem - page * rtAlmItem) ++
    if h.fullFlag ≠ 0 ∧ page ≥ h.almIndex / rtAlmItem then
      showDown (ptAlmItem - 1 - (page - a / rtAlmItem) * rtAlmItem)
        (ptAlmItem - rtAlmItem - (page - a / rtAlmItem) * rtAlmItem)
    else []
  else if page < h.almIndex / rtAlmItem then
    showDown (a - 1 - page * rtAlmItem) (a - rtAlmItem - page * rtAlmItem)
  else if h.fullFlag = 0 then
    showDown ((a - 1) % rtAlmItem) 0 ++
    if page = h.almIndex / rtAlmItem then blankFrom ((h.almIndex - 1) % rtAlmItem + 1) else []
  else
    showDown ((a - 1) % rtAlmItem) 0 ++
    showDown (ptAlmItem - 1) (ptAlmItem - (rtAlmItem - a % rtAlmItem)) ++
    if page ≥ h.almIndex / rtAlmItem + 1 then
      showDown (ptAlmItem - 1 - (page - (a / rtAlmItem + 1)) * rtAlmItem)
        (ptAlmItem - rtAlmItem - (page - (a / rtAlmItem + 1)) * rtAlmItem)
    else []

/-- `MaxPage`, before the records are shown. -/
def almMaxPage (h : PTAlmRelate) : Nat :=
  if h.fullFlag = 1 then 50
  else if h.almIndex % 10 = 0 then h.almIndex / 10
  else h.almIndex / 10 + 1

/-- What a `WM_PAINT` leaves: the statics `page` and `MaxPage`, the rows, and
the slots that were read. -/
structure Painted where
  page : Nat
  maxPage : Nat
  rows : Vector Row 10
  reads : List Int

/-- The slots whose records a list of rows shows. -/
def readsOf (ds : List (Nat × Row)) : List Int :=
  ds.filterMap fun d => match d.2 with
    | .blank => none
    | .record i => some i

/-- The `WM_PAINT` case, over the rows as they are. -/
def paint (h : PTAlmRelate) (page : Nat) (rows : Vector Row 10) : Painted :=
  let shown := nAlmRecordGet h page
  if h.almIndex = 0 then ⟨0, 1, assignAll (shown ++ blankFrom 0) rows, readsOf shown⟩
  else ⟨page, almMaxPage h, assignAll shown rows, readsOf shown⟩

/-! ## What the screen has to show -/

/-- The row for a slot, if there is one. -/
def rowOf : Option Nat → Row
  | none => .blank
  | some i => .record i

/-- Row `r` shows the `10 * page + r`-th most recent record or is blank, the
slots read are slots of the ring, and `MaxPage` is the least number of
pages, at least one, that has room for all records. -/
structure PaintRight (h : PTAlmRelate) (page : Nat) (p : Painted) : Prop where
  rows : ∀ r : Fin 10, p.rows.get r = rowOf (ringSlots h)[10 * page + r]?
  reads : ∀ i ∈ p.reads, 0 ≤ i ∧ i < ptAlmItem
  maxPage : IsLeast {n | 1 ≤ n ∧ (ringSlots h).length ≤ 10 * n} p.maxPage

/-- `usFM_OperateAddr`: the address computed for a slot, in 16 bits. -/
def operateAddr (i : Int) : Nat :=
  ((fmAddrPastAlm + fmOffsetAlmRecord + i * sizeofAlmRecord) % 2 ^ 16).toNat

/-- The record a row shows. -/
def Row.shown (m : Mem) : Row → Option AlmRecord
  | .blank => none
  | .record i => some (readRecord m (operateAddr i))

/-- What the rows of a right page show are the stored records. -/
theorem PaintRight.shown {h : HistoryRing} {page : Nat} {p : Painted}
    (hp : PaintRight h.relate page p) (r : Fin 10) :
    (p.rows.get r).shown h.fram = h.records[10 * page + r]? := by
  rw [hp.rows r, HistoryRing.records, List.getElem?_map]
  cases (ringSlots h.relate)[10 * page + r]? with
  | none => rfl
  | some i =>
    have haddr : operateAddr i = slotAddr i := by
      unfold operateAddr slotAddr
      omega
    simp only [rowOf, Row.shown, Option.map_some, haddr]
    rfl

/-- The number of pages of a history. -/
def pageCount (h : PTAlmRelate) : Nat := max 1 (((ringSlots h).length + 9) / 10)

section loops

variable {hi lo : Int} {rows : Vector Row 10} {r : Fin 10}

/-- The rows a loop comes to. -/
theorem get_showDown_of_le (h : lo ≤ hi - r) :
    (assignAll (showDown hi lo) rows).get r = .record (hi - r) := by
  refine get_assignAll_of_mem ⟨(r, .record (hi - r)), ?_, rfl⟩ fun d hd hr => ?_
  · exact List.mem_map.2 ⟨r, List.mem_range.2 (by omega), rfl⟩
  · obtain ⟨k, -, rfl⟩ := List.mem_map.1 hd
    obtain rfl : k = r := hr
    rfl

theorem get_blankFrom {n : Nat} (hr : n ≤ r) :
    (assignAll (blankFrom n) rows).get r = .blank := by
  refine get_assignAll_of_mem ⟨(r, .blank), ?_, rfl⟩ fun d hd _ => ?_
  · exact List.mem_map.2 ⟨r, List.mem_range'_1.2 (by omega), rfl⟩
  · obtain ⟨k, -, rfl⟩ := List.mem_map.1 hd
    rfl

theorem get_blankFrom_of_lt {n : Nat} (hr : r < n) :
    (assignAll (blankFrom n) rows).get r = rows.get r := by
  refine get_assignAll_of_ne fun d hd => ?_
  obtain ⟨k, hk, rfl⟩ := List.mem_map.1 hd
  have := (List.mem_range'_1.1 hk).1
  dsimp only
  omega

theorem readsOf_append (ds ds' : List (Nat × Row)) :
    readsOf (ds ++ ds') = readsOf ds ++ readsOf ds' := List.filterMap_append

theorem mem_readsOf_showDown {i : Int} : i ∈ readsOf (showDown hi lo) ↔ lo ≤ i ∧ i ≤ hi := by
  simp only [readsOf, showDown, List.filterMap_map, List.mem_filterMap, List.mem_range,
    Function.comp, Option.some.injEq]
  constructor
  · rintro ⟨k, hk, rfl⟩
    omega
  · intro h
    exact ⟨(hi - i).toNat, by omega, by omega⟩

theorem readsOf_blankFrom (n : Nat) : readsOf (blankFrom n) = [] := by
  simp [readsOf, blankFrom, List.filterMap_map]

end loops

/-! ## The pages -/

section pages

variable {h : PTAlmRelate} {page : Nat} {rows : Vector Row 10}

/-- The loops, with their bounds as numbers. -/
theorem nAlmRecordGet_eq : nAlmRecordGet h page =
    if h.almIndex % 10 = 0 then
      showDown (h.almIndex - 1 - page * 10) (h.almIndex - 10 - page * 10) ++
      if h.fullFlag ≠ 0 ∧ page ≥ h.almIndex / 10 then
        showDown (500 - 1 - (page - h.almIndex / 10) * 10)
          (500 - 10 - (page - h.almIndex / 10) * 10)
      else []
    else if page < h.almIndex / 10 then
      showDown (h.almIndex - 1 - page * 10) (h.almIndex - 10 - page * 10)
    else if h.fullFlag = 0 then
      showDown ((h.almIndex - 1) % 10) 0 ++
      if page = h.almIndex / 10 then blankFrom ((h.almIndex - 1) % 10 + 1) else []
    else
      showDown ((h.almIndex - 1) % 10) 0 ++ showDown (500 - 1) (500 - (10 - h.almIndex % 10)) ++
      if page ≥ h.almIndex / 10 + 1 then
        showDown (500 - 1 - (page - (h.almIndex / 10 + 1)) * 10)
          (500 - 10 - (page - (h.almIndex / 10 + 1)) * 10)
      else [] := rfl

/-- **The number of pages** is right behind the index 0. -/
theorem isLeast_almMaxPage (hi : h.almIndex < ptAlmItem) (hf : h.fullFlag = 0 ∨ h.fullFlag = 1)
    (hpos : 0 < h.almIndex) :
    IsLeast {n | 1 ≤ n ∧ (ringSlots h).length ≤ 10 * n} (almMaxPage h) := by
  have hitem : ptAlmItem = 500 := rfl
  have hlen := length_ringSlots hi
  have hmax : 1 ≤ almMaxPage h ∧ (ringSlots h).length ≤ 10 * almMaxPage h ∧
      10 * almMaxPage h < (ringSlots h).length + 10 := by
    unfold almMaxPage
    rcases hf with hf | hf
    · rw [hlen, if_pos hf, if_neg (by rw [hf]; decide)]
      split <;> omega
    · have hne : h.fullFlag ≠ 0 := by rw [hf]; decide
      rw [hlen, if_neg hne, if_pos hf]
      omega
  refine ⟨⟨hmax.1, hmax.2.1⟩, fun n hn => ?_⟩
  have : (ringSlots h).length ≤ 10 * n := hn.2
  omega

/-- Behind the index 0 the rows are those shown. -/
theorem paint_of_pos (hpos : 0 < h.almIndex) : paint h page rows =
    ⟨page, almMaxPage h, assignAll (nAlmRecordGet h page) rows, readsOf (nAlmRecordGet h page)⟩ :=
  if_neg (by omega)

theorem paint_reads : (paint h page rows).reads = readsOf (nAlmRecordGet h page) := by
  unfold paint
  split <;> rfl

/-- A page on this side of the wrap shows the ten slots under the index. -/
theorem paintRight_newest (hi : h.almIndex < 500) (hf : h.fullFlag = 0 ∨ h.fullFlag = 1)
    (hp : page < h.almIndex / 10) : PaintRight h page (paint h page rows) := by
  have hget : nAlmRecordGet h page =
      showDown (h.almIndex - 1 - page * 10) (h.almIndex - 10 - page * 10) := by
    have hnear : ¬ (h.fullFlag ≠ 0 ∧ page ≥ h.almIndex / 10) := fun hc => by omega
    rw [nAlmRecordGet_eq, if_neg hnear, if_pos hp, List.append_nil, ite_self]
  rw [paint_of_pos (by omega), hget]
  refine ⟨fun r => ?_, fun i hread => ?_, isLeast_almMaxPage hi hf (by omega)⟩
  · rw [get_showDown_of_le (by omega), getElem?_ringSlots hi, if_pos (by omega)]
    exact congrArg Row.record (by omega)
  · have hitem : ptAlmItem = 500 := rfl
    have := mem_readsOf_showDown.1 hread
    omega

/-- The last page of a ring that is not full shows the rest and blanks. -/
theorem paintRight_last (hi : h.almIndex < 500) (hf : h.fullFlag = 0)
    (hp : page = h.almIndex / 10) (hrest : h.almIndex % 10 ≠ 0) :
    PaintRight h page (paint h page rows) := by
  have hget : nAlmRecordGet h page =
      showDown ((h.almIndex - 1) % 10) 0 ++ blankFrom ((h.almIndex - 1) % 10 + 1) := by
    rw [nAlmRecordGet_eq, if_neg hrest, if_neg (by omega), if_pos hf, if_pos hp]
  rw [paint_of_pos (by omega), hget]
  refine ⟨fun r => ?_, fun i hread => ?_, isLeast_almMaxPage hi (.inl hf) (by omega)⟩
  · rw [assignAll_append, getElem?_ringSlots hi]
    by_cases hr : r ≤ (h.almIndex - 1) % 10
    · rw [get_blankFrom_of_lt (by omega), get_showDown_of_le (by omega), if_pos (by omega)]
      exact congrArg Row.record (by omega)
    · rw [get_blankFrom (by omega), if_neg (by omega), if_neg fun hc => hc.1 hf]
      rfl
  · have hitem : ptAlmItem = 500 := rfl
    rw [readsOf_append, readsOf_blankFrom, List.append_nil] at hread
    have := mem_readsOf_showDown.1 hread
    omega

/-- With the index on a multiple of ten, every page behind it reads below
the ring. -/
theorem not_paintRight_multiple (hp : h.almIndex / 10 ≤ page) (hten : h.almIndex % 10 = 0) :
    ¬ PaintRight h page (paint h page rows) := by
  intro hright
  have hmem : (h.almIndex : Int) - 1 - page * 10 ∈ (paint h page rows).reads := by
    rw [paint_reads, nAlmRecordGet_eq, if_pos hten, readsOf_append]
    exact List.mem_append_left _ (mem_readsOf_showDown.2 (by omega))
  have := (hright.reads _ hmem).1
  omega

/-- Behind the wrap of a full ring, the first row of a page is not that of
the page. -/
theorem not_paintRight_wrapped (hi : h.almIndex < 500) (hf : h.fullFlag ≠ 0)
    (hp : h.almIndex / 10 ≤ page) (hpage : page < 50) (hrest : h.almIndex % 10 ≠ 0) :
    ¬ PaintRight h page (paint h page rows) := by
  intro hright
  have hitem : ptAlmItem = 500 := rfl
  have hfirst := hright.rows 0
  rw [paint_of_pos (by omega), nAlmRecordGet_eq, if_neg hrest, if_neg (by omega), if_neg hf,
    getElem?_ringSlots hi] at hfirst
  simp only [Fin.val_zero, Nat.add_zero] at hfirst
  by_cases hmixed : page = h.almIndex / 10
  · -- the mixed page: the slots from 499 on go over those under the index
    rw [if_neg (by omega), List.append_nil, assignAll_append, get_showDown_of_le (by simp; omega),
      if_pos (by omega)] at hfirst
    have hslot := Row.record.inj hfirst
    simp only [Fin.val_zero] at hslot
    omega
  · rw [if_pos (by omega), assignAll_append, get_showDown_of_le (by simp),
      if_neg (by omega), if_pos ⟨hf, by omega⟩] at hfirst
    have hslot := Row.record.inj hfirst
    simp only [Fin.val_zero] at hslot
    omega

/-- **The alarm history screen.** A page shows its records, blank rows
behind them, and the right number of pages, out of slots of the ring, if
and only if the index is not 0 and the page is not behind the wrap of a
full ring. -/
theorem paintRight_iff (hi : h.almIndex < ptAlmItem) (hf : h.fullFlag = 0 ∨ h.fullFlag = 1)
    (hp : page < pageCount h) (rows : Vector Row 10) :
    PaintRight h page (paint h page rows) ↔
      0 < h.almIndex ∧ (h.fullFlag = 0 ∨ page < h.almIndex / 10) := by
  have hlen := length_ringSlots hi
  have hpages : pageCount h ≤ 50 ∧
      (h.fullFlag = 0 → pageCount h = max 1 ((h.almIndex + 9) / 10)) := by
    have hitem : ptAlmItem = 500 := rfl
    unfold pageCount
    rw [hlen]
    split
    · exact ⟨by omega, fun _ => rfl⟩
    · next hf => exact ⟨by omega, fun h0 => absurd h0 hf⟩
  by_cases hnear : page < h.almIndex / 10
  · exact iff_of_true (paintRight_newest hi hf hnear) ⟨by omega, .inr hnear⟩
  rcases hf with hf | hf
  · by_cases hten : h.almIndex % 10 = 0
    · -- only the empty history is left
      have hempty : h.almIndex = 0 := by
        have := hpages.2 hf
        omega
      refine iff_of_false (not_paintRight_multiple (by omega) hten) fun hc => ?_
      omega
    · have hlast : page = h.almIndex / 10 := by
        have := hpages.2 hf
        omega
      exact iff_of_true (paintRight_last hi hf hlast hten) ⟨by omega, .inl hf⟩
  · have hflag : h.fullFlag ≠ 0 := by rw [hf]; decide
    refine iff_of_false ?_ fun hc => hc.2.elim hflag hnear
    by_cases hten : h.almIndex % 10 = 0
    · exact not_paintRight_multiple (by omega) hten
    · exact not_paintRight_wrapped hi hflag (by omega) (by omega) hten

/-- Twelve records: the second page shows two of them. -/
theorem paintRight_twelve :
    PaintRight ⟨0, 12⟩ 1 (paint ⟨0, 12⟩ 1 (.replicate _ .blank)) :=
  (paintRight_iff (by decide) (.inl rfl) (by decide +kernel) _).2 ⟨by decide, .inl rfl⟩

/-- A full ring whose index is 5: the first page shows slot 499 in the first
row, not slot 4. -/
theorem not_paintRight_full : ¬ ∀ (h : PTAlmRelate) (page : Nat) (rows : Vector Row 10),
    h.almIndex < ptAlmItem → h.fullFlag = 0 ∨ h.fullFlag = 1 → page < pageCount h →
      PaintRight h page (paint h page rows) := by
  intro h
  have hright := h ⟨1, 5⟩ 0 (.replicate _ .blank) (by decide) (.inr rfl) (by decide +kernel)
  exact not_paintRight_wrapped (by decide) (by decide) (by decide) (by decide) (by decide) hright

end pages

end BusMonitor
