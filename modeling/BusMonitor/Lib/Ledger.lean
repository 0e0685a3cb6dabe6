import Mathlib.Order.BooleanAlgebra.Set
import Mathlib.Data.List.Count
/-!
# A ledger of resources

What a program does with the resources it is given, one entry for each
act, the newest first. A resource has one name for its whole life: memory
that is handed out again is a new resource. `Balanced` follows a log with
the set of what is held, and `settled_iff` says that nothing is held
exactly when everything taken was released once.
-/


namespace Ledger

variable {ρ : Type*}

/-- What was done with a resource. -/
inductive Entry (ρ : Type*) where
  | take (r : ρ)
  | use (r : ρ)
  | release (r : ρ)
  deriving DecidableEq

/-- A log of sound acts, and what it leaves held: a resource is taken once,
and used or released while it is held. -/
inductive Balanced : List (Entry ρ) → Set ρ → Prop where
  | nil : Balanced [] ∅
  | take {l s r} : Balanced l s → .take r ∉ l → Balanced (.take r :: l) (insert r s)
  | use {l s r} : Balanced l s → r ∈ s → Balanced (.use r :: l) s
  | release {l s r} : Balanced l s → r ∈ s → Balanced (.release r :: l) (s \ {r})

/-- Nothing is used after its release, and nothing is released twice. -/
def Safe [DecidableEq ρ] (l : List (Entry ρ)) : Prop :=
  (∀ r a, .use r :: a <:+ l → .release r ∉ a) ∧ ∀ r, l.count (.release r) ≤ 1

/-- Everything taken has been released once. -/
def Settled [DecidableEq ρ] (l : List (Entry ρ)) : Prop :=
  ∀ r, .take r ∈ l → l.count (.release r) = 1

namespace Balanced

variable {l a : List (Entry ρ)} {s : Set ρ} {r : ρ}

theorem taken (h : Balanced l s) (hr : r ∈ s) : .take r ∈ l := by
  induction h with
  | nil => exact absurd hr (Set.notMem_empty r)
  | take _ _ ih =>
    rcases hr with rfl | hr
    · exact List.mem_cons_self
    · exact List.mem_cons_of_mem _ (ih hr)
  | use _ _ ih => exact List.mem_cons_of_mem _ (ih hr)
  | release _ _ ih => exact List.mem_cons_of_mem _ (ih hr.1)

theorem taken_of_released (h : Balanced l s) (hr : .release r ∈ l) : .take r ∈ l := by
  induction h with
  | nil => exact absurd hr List.not_mem_nil
  | take _ _ ih => exact List.mem_cons_of_mem _ (ih (by simpa using hr))
  | use _ _ ih => exact List.mem_cons_of_mem _ (ih (by simpa using hr))
  | release hl hmem ih =>
    rcases List.mem_cons.1 hr with heq | hr
    · obtain rfl := Entry.release.inj heq
      exact List.mem_cons_of_mem _ (hl.taken hmem)
    · exact List.mem_cons_of_mem _ (ih hr)

/-- What is held has not been released. -/
theorem not_released (h : Balanced l s) (hr : r ∈ s) : .release r ∉ l := by
  induction h with
  | nil => exact absurd hr (Set.notMem_empty r)
  | take hl hnew ih =>
    intro hmem
    have hold := List.mem_of_ne_of_mem (by simp) hmem
    rcases hr with rfl | hr
    · exact hnew (hl.taken_of_released hold)
    · exact ih hr hold
  | use _ _ ih => exact fun hmem => ih hr (List.mem_of_ne_of_mem (by simp) hmem)
  | release _ _ ih =>
    intro hmem
    have hne : r ≠ _ := hr.2
    exact ih hr.1 (List.mem_of_ne_of_mem (by simpa using hne) hmem)

/-- A release, where the rest of what is held is known. -/
theorem release_insert (h : Balanced l (insert r s)) (hr : r ∉ s) :
    Balanced (.release r :: l) s := by
  have hdel := h.release (Set.mem_insert r s)
  rwa [Set.insert_sdiff_self_of_notMem hr] at hdel

/-- What went before in a balanced log was balanced. -/
theorem of_suffix (h : Balanced l s) (ha : a <:+ l) : ∃ t, Balanced a t := by
  induction h with
  | nil => exact ⟨∅, (List.suffix_nil.1 ha) ▸ .nil⟩
  | take hl hnew ih =>
    rcases List.suffix_cons_iff.1 ha with rfl | ha
    · exact ⟨_, hl.take hnew⟩
    · exact ih ha
  | use hl hmem ih =>
    rcases List.suffix_cons_iff.1 ha with rfl | ha
    · exact ⟨_, hl.use hmem⟩
    · exact ih ha
  | release hl hmem ih =>
    rcases List.suffix_cons_iff.1 ha with rfl | ha
    · exact ⟨_, hl.release hmem⟩
    · exact ih ha

variable [DecidableEq ρ]

/-- What was taken and is not held was released once. -/
theorem count_release (h : Balanced l s) (ht : .take r ∈ l) (hr : r ∉ s) :
    l.count (.release r) = 1 := by
  induction h with
  | nil => exact absurd ht List.not_mem_nil
  | take _ _ ih =>
    rw [Set.mem_insert_iff, not_or] at hr
    have hold := List.mem_of_ne_of_mem (by simpa using hr.1) ht
    rw [List.count_cons_of_ne (by simp), ih hold hr.2]
  | use _ _ ih =>
    have hold := List.mem_of_ne_of_mem (by simp) ht
    rw [List.count_cons_of_ne (by simp), ih hold hr]
  | @release _ _ q hl hmem ih =>
    have hold := List.mem_of_ne_of_mem (by simp) ht
    by_cases hq : r = q
    · subst hq
      rw [List.count_cons_self, List.count_eq_zero.2 (hl.not_released hmem)]
    · have hne : Entry.release q ≠ Entry.release r := fun heq => hq (Entry.release.inj heq).symm
      rw [List.count_cons_of_ne hne, ih hold fun hin => hr ⟨hin, hq⟩]

theorem safe (h : Balanced l s) : Safe l := by
  constructor
  · intro r a ha
    obtain ⟨t, ht⟩ := h.of_suffix ha
    cases ht with
    | use hl hmem => exact hl.not_released hmem
  · intro r
    by_cases hmem : .release r ∈ l
    · have hr : r ∉ s := fun hin => h.not_released hin hmem
      exact (h.count_release (h.taken_of_released hmem) hr).le
    · rw [List.count_eq_zero.2 hmem]
      omega

/-- **Nothing is held exactly when everything is settled.** -/
theorem settled_iff (h : Balanced l s) : Settled l ↔ s = ∅ := by
  constructor
  · intro hset
    rw [Set.eq_empty_iff_forall_notMem]
    intro r hr
    have hzero := List.count_eq_zero.2 (h.not_released hr)
    have hone := hset r (h.taken hr)
    omega
  · rintro rfl r ht
    exact h.count_release ht (Set.notMem_empty r)

end Balanced

end Ledger
