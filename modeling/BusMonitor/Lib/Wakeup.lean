import Mathlib.Data.Finset.Card
import Mathlib.Data.Finset.Dedup
/-!
# Waking those who wait

Items of which nobody knows who will take them, and parties who wait in a
list for one. A party is told by being taken off the list; it then comes to
look, and may find that another was faster. While the list may not be
touched a notice is owed instead. `Kept` is what has to be kept for nobody
to wait in vain, and the rules say that it is.
-/


namespace Wakeup

variable {τ : Type*} [DecidableEq τ] {items items' owed owed' : Nat} {waiting waiting' : List τ}
  {coming coming' : Finset τ} {t u : τ}

/-- Nobody waits, or for each item somebody is coming or a notice is owed. -/
def Kept (items : Nat) (waiting : List τ) (coming : Finset τ) (owed : Nat) : Prop :=
  waiting = [] ∨ items ≤ coming.card + owed

omit [DecidableEq τ] in
theorem kept_of_le (h : items ≤ owed) : Kept items waiting coming owed :=
  .inr (h.trans (Nat.le_add_left _ _))

omit [DecidableEq τ] in
/-- Fewer items, the same list, more who come. -/
theorem Kept.mono (h : Kept items waiting coming owed) (hwaiting : waiting = [] → waiting' = [])
    (hitems : items' ≤ items) (hcoming : coming ⊆ coming') (howed : owed ≤ owed') :
    Kept items' waiting' coming' owed' := by
  refine h.imp hwaiting fun hle => ?_
  have hcard := Finset.card_le_card hcoming
  omega

/-- **A new item**, and the first of the list is told. -/
theorem Kept.wake (h : Kept items (t :: waiting) coming owed) (ht : t ∉ coming)
    (hitems : items' ≤ items + 1) (hcoming : insert t coming ⊆ coming') :
    Kept items' waiting coming' owed := by
  refine .inr ?_
  have hle := h.resolve_left (List.cons_ne_nil _ _)
  have hcard := Finset.card_le_card hcoming
  rw [Finset.card_insert_of_notMem ht] at hcard
  omega

omit [DecidableEq τ] in
/-- **A new item**, and a notice of it. -/
theorem Kept.note (h : Kept items waiting coming owed) (hitems : items' ≤ items + 1) :
    Kept items' waiting coming (owed + 1) := by
  refine h.imp_right fun hle => ?_
  omega

/-- **One who came takes** an item. -/
theorem Kept.take (h : Kept items waiting coming owed) (ht : t ∈ coming)
    (hitems : items' + 1 ≤ items) (hcoming : coming.erase t ⊆ coming') :
    Kept items' waiting coming' owed := by
  refine h.imp_right fun hle => ?_
  have hcard := Finset.card_le_card hcoming
  rw [Finset.card_erase_of_mem ht] at hcard
  omega

/-- **One who came leaves** the item there, and tells the first of the list. -/
theorem Kept.pass (h : Kept items (u :: waiting) coming owed) (ht : t ∈ coming)
    (hu : u ∉ coming) (hcoming : insert u (coming.erase t) ⊆ coming') :
    Kept items waiting coming' owed := by
  refine .inr ?_
  have hle := h.resolve_left (List.cons_ne_nil _ _)
  have hcard := Finset.card_le_card hcoming
  rw [Finset.card_insert_of_notMem fun hc => hu (Finset.mem_of_mem_erase hc),
    Finset.card_erase_of_mem ht] at hcard
  have hpos : 0 < coming.card := Finset.card_pos.2 ⟨t, ht⟩
  omega

/-- **The notices are given**, as far as there is somebody to take them. -/
theorem Kept.release (h : Kept items waiting coming owed) (hnodup : waiting.Nodup)
    (hnew : ∀ t ∈ waiting, t ∉ coming)
    (hcoming : coming ∪ (waiting.take owed).toFinset ⊆ coming') :
    Kept items (waiting.drop owed) coming' 0 := by
  rcases Nat.lt_or_ge owed waiting.length with hlt | hge
  · refine .inr ?_
    have hne : waiting ≠ [] := List.ne_nil_of_length_pos (Nat.zero_lt_of_lt hlt)
    have hle := h.resolve_left hne
    have hdisjoint : Disjoint coming (waiting.take owed).toFinset := by
      rw [Finset.disjoint_left]
      intro t ht htake
      exact hnew t (List.mem_of_mem_take (List.mem_toFinset.1 htake)) ht
    have hcard := Finset.card_le_card hcoming
    rw [Finset.card_union_of_disjoint hdisjoint,
      List.toFinset_card_of_nodup (hnodup.sublist (List.take_sublist _ _)), List.length_take,
      Nat.min_eq_left hlt.le] at hcard
    exact hle.trans hcard
  · exact .inl (List.drop_eq_nil_of_le hge)

omit [DecidableEq τ] in
/-- **Nobody waits in vain**: where there is an item and no notice is owed,
somebody comes. -/
theorem Kept.nonempty (h : Kept items waiting coming 0) (hitems : 0 < items)
    (hwaiting : waiting ≠ []) : coming.Nonempty := by
  have hle := h.resolve_left hwaiting
  exact Finset.card_pos.1 (hitems.trans_le hle)

end Wakeup
