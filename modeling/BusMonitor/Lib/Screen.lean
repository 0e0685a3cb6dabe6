import Mathlib.Data.List.Basic
/-!
# Windows on a screen

A screen has a stack of windows, the newest on top. A full window hides
all that lie below it. Windows are deleted by a handle, and each slot
keeps the handle of the last window that was created for it: a window
whose slot has been used again cannot be deleted any more.
-/


namespace Screen

/-- A window, and whether its slot still has its handle. -/
structure Window (α : Type) where
  content : α
  held : Bool

variable {α κ : Type} [DecidableEq κ] {slot : α → κ} {full : α → Bool}
variable {ws : List (Window α)} {p q : α} {k : κ}

/-- A new window on top, with its handle in its slot. -/
def create (slot : α → κ) (p : α) (ws : List (Window α)) : List (Window α) :=
  ⟨p, true⟩ :: ws.map fun w => { w with held := w.held && decide (slot w.content ≠ slot p) }

/-- The window whose handle is in the slot is gone, if there is one. -/
def delete (slot : α → κ) (k : κ) (ws : List (Window α)) : List (Window α) :=
  ws.filter fun w => !(w.held && decide (slot w.content = k))

/-- What is in the windows that are not hidden, the top first. -/
def shown (full : α → Bool) : List (Window α) → List α
  | [] => []
  | w :: ws => w.content :: if full w.content then [] else shown full ws

/-- What is in one window changes, the windows stay. -/
def update (n : Nat) (g : α → α) (ws : List (Window α)) : List (Window α) :=
  ws.modify n fun w => { w with content := g w.content }

/-- What is shown depends on the contents alone. -/
theorem shown_congr {vs : List (Window α)} (h : vs.map (·.content) = ws.map (·.content)) :
    shown full vs = shown full ws := by
  induction vs generalizing ws with
  | nil =>
    cases ws with
    | nil => rfl
    | cons w ws => exact absurd h (List.cons_ne_nil _ _).symm
  | cons v vs ih =>
    cases ws with
    | nil => exact absurd h (List.cons_ne_nil _ _)
    | cons w ws =>
      obtain ⟨hhead, hrest⟩ := List.cons.inj h
      have hcontent : v.content = w.content := hhead
      rw [shown, shown, hcontent, ih hrest]

theorem contents_create : (create slot p ws).map (·.content) = p :: ws.map (·.content) := by
  simp [create, Function.comp_def]

theorem shown_create :
    shown full (create slot p ws) = p :: if full p then [] else shown full ws := by
  have hcontents : (create slot p ws).map (·.content) = p :: ws.map (·.content) := contents_create
  rw [create, shown, shown_congr (List.cons.inj hcontents).2]

theorem mem_contents_of_mem_shown (h : q ∈ shown full ws) : q ∈ ws.map (·.content) := by
  induction ws with
  | nil => exact h
  | cons w ws ih =>
    rw [shown] at h
    rw [List.map_cons]
    rcases List.mem_cons.1 h with rfl | hrest
    · exact List.mem_cons_self
    · split at hrest
      · exact absurd hrest List.not_mem_nil
      · exact List.mem_cons_of_mem _ (ih hrest)

theorem mem_contents_of_mem_delete (h : q ∈ (delete slot k ws).map (·.content)) :
    q ∈ ws.map (·.content) :=
  (List.filter_sublist.map _).subset h

/-- Where no window of the slot is full, deleting brings nothing up. -/
theorem mem_shown_of_mem_delete (hk : ∀ p, slot p = k → full p = false)
    (h : q ∈ shown full (delete slot k ws)) : q ∈ shown full ws := by
  induction ws with
  | nil => exact h
  | cons w ws ih =>
    cases hgone : w.held && decide (slot w.content = k) with
    | true =>
      have hfull : full w.content = false := by
        rw [Bool.and_eq_true, decide_eq_true_eq] at hgone
        exact hk _ hgone.2
      rw [delete, List.filter_cons_of_neg (by simp [hgone])] at h
      rw [shown, hfull]
      exact List.mem_cons_of_mem _ (ih h)
    | false =>
      rw [delete, List.filter_cons_of_pos (by simp [hgone]), shown] at h
      rw [shown]
      rcases List.mem_cons.1 h with rfl | hrest
      · exact List.mem_cons_self
      · refine List.mem_cons_of_mem _ ?_
        split at hrest
        · exact absurd hrest List.not_mem_nil
        · rename_i hfull
          rw [if_neg hfull]
          exact ih hrest

/-- A full window stays on top when another slot's window goes. -/
theorem shown_delete_create (hfull : full p = true) (hk : slot p ≠ k) :
    shown full (delete slot k (create slot p ws)) = [p] := by
  rw [create, delete, List.filter_cons_of_pos (by simp [hk]), shown, if_pos hfull]

section update

variable {n : Nat} {g : α → α}

/-- A change that keeps what fills the screen is a change of what is
shown. -/
theorem shown_update (hfull : ∀ p, full (g p) = full p) :
    shown full (update n g ws) = (shown full ws).modify n g := by
  induction ws generalizing n with
  | nil =>
    cases n <;> rfl
  | cons w ws ih =>
    cases n with
    | zero =>
      have hzero : update 0 g (w :: ws) = { w with content := g w.content } :: ws := rfl
      rw [hzero, shown, hfull]
      rfl
    | succ n =>
      have hsucc : update (n + 1) g (w :: ws) = w :: update n g ws := rfl
      rw [hsucc, shown, shown, ih]
      split
      · cases n <;> rfl
      · rfl

/-- A view that the change keeps. -/
theorem map_modify_of_view {β : Type} {f : α → β} (hf : ∀ p, f (g p) = f p) (l : List α) :
    (l.modify n g).map f = l.map f := by
  refine List.ext_getElem? fun i => ?_
  simp only [List.getElem?_map, List.getElem?_modify]
  cases l[i]? with
  | none => rfl
  | some p =>
    by_cases hi : n = i
    · simp [hi, hf]
    · simp [hi]

theorem contents_update :
    (update n g ws).map (·.content) = (ws.map (·.content)).modify n g := by
  refine List.ext_getElem? fun i => ?_
  simp only [update, List.getElem?_map, List.getElem?_modify]
  cases ws[i]? with
  | none => rfl
  | some w => by_cases hi : n = i <;> simp [hi]

end update

end Screen
