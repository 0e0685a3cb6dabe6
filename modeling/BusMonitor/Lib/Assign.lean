/-!
# Assignments to the entries of an array

A loop that fills an array is a list of assignments, an index and a value
each. What an entry holds afterwards is what the assignments to it agree
on, and what it held before where there is none.
-/


namespace Assign

variable {α : Type _} {n : Nat}

/-- The assignments in their order. One past the end changes nothing. -/
def assignAll (l : List (Nat × α)) (v : Vector α n) : Vector α n :=
  l.foldl (fun v a => v.setIfInBounds a.1 a.2) v

@[simp] theorem assignAll_nil (v : Vector α n) : assignAll [] v = v := rfl

@[simp] theorem assignAll_cons (a : Nat × α) (l : List (Nat × α)) (v : Vector α n) :
    assignAll (a :: l) v = assignAll l (v.setIfInBounds a.1 a.2) := rfl

theorem assignAll_append (l₁ l₂ : List (Nat × α)) (v : Vector α n) :
    assignAll (l₁ ++ l₂) v = assignAll l₂ (assignAll l₁ v) :=
  List.foldl_append ..

/-- An entry nothing is assigned to stays. -/
theorem get_assignAll_of_ne {l : List (Nat × α)} {v : Vector α n} {k : Fin n}
    (h : ∀ a ∈ l, a.1 ≠ k) : (assignAll l v).get k = v.get k := by
  induction l generalizing v with
  | nil => rfl
  | cons a l ih =>
    have hne : a.1 ≠ k := h a (.head l)
    rw [assignAll_cons, ih fun b hb => h b (.tail a hb)]
    exact Vector.getElem_setIfInBounds_ne k.isLt hne

/-- An entry that is assigned to holds the value the assignments agree
on. -/
theorem get_assignAll_of_mem {l : List (Nat × α)} {v : Vector α n} {k : Fin n} {x : α}
    (hmem : ∃ a ∈ l, a.1 = k) (hval : ∀ a ∈ l, a.1 = k → a.2 = x) :
    (assignAll l v).get k = x := by
  induction l generalizing v with
  | nil => simp at hmem
  | cons a l ih =>
    rw [assignAll_cons]
    by_cases hl : ∃ b ∈ l, b.1 = k
    · exact ih hl fun b hb => hval b (.tail a hb)
    · -- the first assignment is the only one to this entry
      have hne : ∀ b ∈ l, b.1 ≠ k := fun b hb hbk => hl ⟨b, hb, hbk⟩
      obtain ⟨b, hb, hbk⟩ := hmem
      have hba : b = a := by
        rcases List.mem_cons.1 hb with h | h
        · exact h
        · exact absurd hbk (hne b h)
      subst hba
      rw [get_assignAll_of_ne hne, hval b (.head l) hbk]
      exact hbk ▸ Vector.getElem_setIfInBounds_self (hbk ▸ k.isLt)

end Assign
