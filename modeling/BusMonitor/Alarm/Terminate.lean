import BusMonitor.Alarm.Ring
/-!
# The record a termination closes

`Alm_Terminate` is to close the newest stored record of its event, and to
look for it in the ring alone. The slots it reads are kept in order here:
what it does depends on no other slot (`searchReads_congr`).
`terminatesRight_iff` says when the search stays among the stored records.
-/


namespace BusMonitor

open Recent History

/-! ## The slots read -/

/-- The slots a search loop of `Alm_Terminate` reads, down to the one it
breaks at. -/
def searchReads (m : Mem) (e : UInt8) : List Nat → List Nat
  | [] => []
  | i :: is => i :: if (slot m i).almEvent = e then [] else searchReads m e is

/-- The slots `Alm_Terminate` reads, in order. -/
def terminateReads (s : AlmState) (e : UInt8) (now : Stamp) : List Nat :=
  let i := s.gPTAlmRelate.almIndex
  if s.gPTAlmRelate.fullFlag = 0 then searchReads s.fram e (below i)
  else
    let (s', found) := searchSlots s e now (below i)
    searchReads s.fram e (below i) ++
      if found then [] else searchReads s'.fram e (above i 501)

variable {m m' : Mem} {e : UInt8} {is js : List Nat}

theorem mem_of_mem_searchReads {i : Nat} (h : i ∈ searchReads m e is) : i ∈ is := by
  induction is with
  | nil => exact h
  | cons j is ih =>
    rcases List.mem_cons.1 h with rfl | h
    · exact List.mem_cons_self
    · split at h
      · cases h
      · exact List.mem_cons_of_mem j (ih h)

theorem find_cons_self {i : Nat} (h : (slot m i).almEvent = e) : find m e (i :: is) = some i := by
  simp [find, firstMatch, h]

theorem find_cons_of_ne {i : Nat} (h : (slot m i).almEvent ≠ e) :
    find m e (i :: is) = find m e is := by
  simp [find, firstMatch, h]

theorem searchReads_cons_self {i : Nat} (h : (slot m i).almEvent = e) :
    searchReads m e (i :: is) = [i] := by
  rw [searchReads, if_pos h]

theorem searchReads_cons_of_ne {i : Nat} (h : (slot m i).almEvent ≠ e) :
    searchReads m e (i :: is) = i :: searchReads m e is := by
  rw [searchReads, if_neg h]

/-- **The search sees what it reads**: a FRAM with the same records in
these slots is searched alike. -/
theorem searchReads_congr (h : ∀ i ∈ searchReads m e is, slot m' i = slot m i) :
    searchReads m' e is = searchReads m e is ∧ find m' e is = find m e is := by
  induction is with
  | nil => exact ⟨rfl, rfl⟩
  | cons i is ih =>
    have hi : slot m' i = slot m i := h i List.mem_cons_self
    by_cases hit : (slot m i).almEvent = e
    · have hit' : (slot m' i).almEvent = e := hi ▸ hit
      rw [searchReads_cons_self hit, searchReads_cons_self hit', find_cons_self hit,
        find_cons_self hit']
      exact ⟨rfl, rfl⟩
    · have hit' : (slot m' i).almEvent ≠ e := hi ▸ hit
      rw [searchReads_cons_of_ne hit] at h
      obtain ⟨hreads, hfind⟩ := ih fun j hj => h j (List.mem_cons_of_mem i hj)
      rw [searchReads_cons_of_ne hit, searchReads_cons_of_ne hit', find_cons_of_ne hit,
        find_cons_of_ne hit', hreads, hfind]
      exact ⟨rfl, rfl⟩

/-- A termination that finds nothing under the index leaves the FRAM as it
was, and its second loop starts from there. -/
theorem terminateReads_full {s : AlmState} {now : Stamp} (hfull : s.gPTAlmRelate.fullFlag ≠ 0) :
    terminateReads s e now = searchReads s.fram e (below s.gPTAlmRelate.almIndex) ++
      if (find s.fram e (below s.gPTAlmRelate.almIndex)).isSome then []
      else searchReads s.fram e (above s.gPTAlmRelate.almIndex 501) := by
  obtain ⟨r, hstate, hfound⟩ := searchSlots_frame s e now (below s.gPTAlmRelate.almIndex)
  unfold terminateReads
  simp only [if_neg hfull, hfound, hstate]
  cases hnone : find s.fram e (below s.gPTAlmRelate.almIndex) with
  | some i => rfl
  | none => simp only [closeFirst, hnone]

/-! ## What a termination has to do -/

/-- The slot of the newest stored record of an event. -/
def newestSlot (h : History) (e : UInt8) : Option Nat := find h.fram e (ringSlots h.relate)

/-- **The termination is right**: the terminate time and the flag of the
newest stored record of the event are the only bytes of the FRAM it
writes, and it reads no slot but those that hold a record. -/
structure TerminatesRight (s : AlmState) (e : UInt8) (now : Stamp) : Prop where
  fram : (almTerminate s e now).fram = match newestSlot s.history e with
    | none => s.fram
    | some i => s.fram.write (0x506 + 21 * i + 6) (now.toBytes ++ [terminateFlag])
  reads : ∀ i ∈ terminateReads s e now, i ∈ ringSlots s.gPTAlmRelate

/-- The slots of the ring are 0 to 499. -/
theorem lt_of_mem_ringSlots {h : PTAlmRelate} (hi : h.almIndex < 500) {i : Nat}
    (hmem : i ∈ ringSlots h) : i < 500 := by
  rcases List.mem_append.1 hmem with hmem | hmem
  · have := mem_below.1 hmem
    omega
  · split at hmem
    · cases hmem
    · exact (mem_above.1 hmem).2

/-- Where the search finds the newest record, the seven bytes are its
closing bytes. -/
theorem fram_almTerminate {s : AlmState} {now : Stamp} (hi : s.gPTAlmRelate.almIndex < 500)
    (hfind : find s.fram e (searched s.gPTAlmRelate) = newestSlot s.history e) :
    (almTerminate s e now).fram = match newestSlot s.history e with
      | none => s.fram
      | some i => s.fram.write (0x506 + 21 * i + 6) (now.toBytes ++ [terminateFlag]) := by
  have hfram : (almTerminate s e now).fram = closeFirst s.fram e now (searched s.gPTAlmRelate) :=
    congrArg History.fram (almTerminate_history ..)
  rw [hfram, closeFirst, hfind]
  cases hnew : newestSlot s.history e with
  | none => rfl
  | some i =>
    have hlt : i < 500 := lt_of_mem_ringSlots hi (List.mem_of_find?_eq_some hnew)
    simp only [closeSlot]
    rw [closingAddr_eq hlt, slotAddr_eq hlt.le]
    rfl

/-- **When a termination is right**: unless the ring is full and no slot
under the index holds the event, for then the second loop starts at slot
500. -/
theorem terminatesRight_iff (s : AlmState) (hi : s.gPTAlmRelate.almIndex < 500) (e : UInt8)
    (now : Stamp) : TerminatesRight s e now ↔ s.gPTAlmRelate.fullFlag = 0 ∨
      ∃ i < s.gPTAlmRelate.almIndex, (slot s.fram i).almEvent = e := by
  by_cases hfull : s.gPTAlmRelate.fullFlag = 0
  · refine iff_of_true ⟨fram_almTerminate hi ?_, ?_⟩ (.inl hfull)
    · rw [newestSlot, ringSlots, searched, AlmState.history, if_pos hfull, if_pos hfull]
    · intro i hmem
      rw [terminateReads, if_pos hfull] at hmem
      exact List.mem_append_left _ (mem_of_mem_searchReads hmem)
  cases hbelow : find s.fram e (below s.gPTAlmRelate.almIndex) with
  | some k =>
    have hk : k < s.gPTAlmRelate.almIndex := mem_below.1 (List.mem_of_find?_eq_some hbelow)
    have hevent : (slot s.fram k).almEvent = e := by
      simpa using List.find?_some hbelow
    refine iff_of_true ⟨fram_almTerminate hi ?_, ?_⟩ (.inr ⟨k, hk, hevent⟩)
    · -- the first loop has a hit, so the second never runs
      have hrest : ∀ js, find s.fram e (below s.gPTAlmRelate.almIndex ++ js) = some k := by
        intro js
        rw [find_append, hbelow]
        rfl
      rw [newestSlot, ringSlots, searched, AlmState.history, hrest, hrest]
    · intro i hmem
      rw [terminateReads_full hfull, hbelow, Option.isSome_some, if_pos rfl,
        List.append_nil] at hmem
      exact List.mem_append_left _ (mem_of_mem_searchReads hmem)
  | none =>
    refine iff_of_false ?_ ?_
    · intro hright
      have h500 : (500 : Nat) ∈ terminateReads s e now := by
        rw [terminateReads_full hfull, hbelow, Option.isSome_none, if_neg Bool.false_ne_true,
          show (501 : Nat) = 500 + 1 from rfl, above_succ (by omega)]
        exact List.mem_append_right _ List.mem_cons_self
      have := lt_of_mem_ringSlots hi (hright.reads 500 h500)
      omega
    · rintro (hflag | ⟨i, hlt, hevent⟩)
      · exact hfull hflag
      · have := List.find?_eq_none.1 hbelow i (mem_below.2 hlt)
        simp [hevent] at this

/-- A full ring of a blank FRAM, the next slot being slot 0. -/
def fullRing : AlmState := { AlmState.reset fun _ => 0 with gPTAlmRelate := ⟨1, 0⟩ }

/-- The same ring with the next slot being slot 2. -/
theorem terminatesRight_wrapped :
    TerminatesRight { fullRing with gPTAlmRelate := ⟨1, 2⟩ } 0 default :=
  (terminatesRight_iff _ (by decide) 0 default).2 (.inr ⟨1, by decide, rfl⟩)

/-- On a full ring with every record of the event, the one in slot 499 is
the newest; the search begins at slot 500. -/
theorem terminate_reads_slot500 : ¬ ∀ s : AlmState, s.gPTAlmRelate.almIndex < 500 →
    ∀ e now, TerminatesRight s e now := by
  intro h
  have hright := h fullRing (by decide) 0 default
  have h500 : (500 : Nat) ∈ terminateReads fullRing 0 default := by
    rw [terminateReads_full (by decide), show fullRing.gPTAlmRelate.almIndex = 0 from rfl,
      below_zero, show (501 : Nat) = 500 + 1 from rfl, above_succ (by omega)]
    exact List.mem_cons_self
  have hslot : (500 : Nat) < 500 := lt_of_mem_ringSlots (by decide) (hright.reads 500 h500)
  omega

end BusMonitor
