import Mathlib.Data.List.Basic
/-!
# Runs of a step function

A component that takes one action after another is a step function, and
its runs are lists of actions. `Meets` says that every action of a run
meets a guard in the state it is taken from; the invariant rule then asks
for a base case and one step.
-/


namespace Stepwise

variable {σ τ α : Type*} {step : σ → α → σ} {ok ok' : σ → α → Prop}

/-- The state a list of actions leads to. -/
def run (step : σ → α → σ) (s : σ) (as : List α) : σ :=
  as.foldl step s

/-- Every action meets the guard in the state it is taken from. -/
def Meets (step : σ → α → σ) (ok : σ → α → Prop) : σ → List α → Prop
  | _, [] => True
  | s, a :: as => ok s a ∧ Meets step ok (step s a) as

instance decidableMeets [∀ s a, Decidable (ok s a)] :
    ∀ (s : σ) (as : List α), Decidable (Meets step ok s as)
  | _, [] => isTrue trivial
  | s, a :: as => @instDecidableAnd _ _ _ (decidableMeets (step s a) as)

@[simp] theorem run_nil (s : σ) : run step s [] = s := rfl

@[simp] theorem run_cons (s : σ) (a : α) (as : List α) :
    run step s (a :: as) = run step (step s a) as := rfl

theorem run_append (s : σ) (as bs : List α) :
    run step s (as ++ bs) = run step (run step s as) bs :=
  List.foldl_append

@[simp] theorem meets_nil (s : σ) : Meets step ok s [] := trivial

@[simp] theorem meets_cons (s : σ) (a : α) (as : List α) :
    Meets step ok s (a :: as) ↔ ok s a ∧ Meets step ok (step s a) as := Iff.rfl

/-- A run meets its guards when both halves do, the second from where the
first one ends. -/
theorem meets_append (s : σ) (as bs : List α) :
    Meets step ok s (as ++ bs) ↔ Meets step ok s as ∧ Meets step ok (run step s as) bs := by
  induction as generalizing s with
  | nil => simp
  | cons a as ih => simp [ih, and_assoc]

theorem meets_and (s : σ) (as : List α) :
    Meets step (fun s a => ok s a ∧ ok' s a) s as ↔ Meets step ok s as ∧ Meets step ok' s as := by
  induction as generalizing s with
  | nil => simp
  | cons a as ih => simp only [meets_cons, ih, and_and_and_comm]

/-- A guard on the actions alone is met by the runs of such actions. -/
theorem meets_forall {P : α → Prop} (s : σ) (as : List α) :
    Meets step (fun _ a => P a) s as ↔ ∀ a ∈ as, P a := by
  induction as generalizing s with
  | nil => simp
  | cons a as ih => rw [meets_cons, ih, List.forall_mem_cons]

/-- **The invariant rule.** What holds at the start and is preserved by
every step that meets its guard holds where the run ends. -/
theorem Meets.invariant {I : σ → Prop} {s : σ} {as : List α} (hm : Meets step ok s as)
    (h0 : I s) (hstep : ∀ s a, I s → ok s a → I (step s a)) : I (run step s as) := by
  induction as generalizing s with
  | nil => exact h0
  | cons a as ih => exact ih hm.2 (hstep s a h0 hm.1)

/-- A guard that implies another one on an invariant: the runs that meet
it meet the other. -/
theorem Meets.imp {I : σ → Prop} {s : σ} {as : List α} (hm : Meets step ok s as) (h0 : I s)
    (hstep : ∀ s a, I s → ok s a → I (step s a)) (hok : ∀ s a, I s → ok s a → ok' s a) :
    Meets step ok' s as := by
  induction as generalizing s with
  | nil => trivial
  | cons a as ih => exact ⟨hok s a h0 hm.1, ih hm.2 (hstep s a h0 hm.1)⟩

/-- Two guards that agree on an invariant are met by the same runs. The
invariant need only outlive the steps that meet the guard. -/
theorem meets_congr {I : σ → Prop} {s : σ} (as : List α) (h0 : I s)
    (hstep : ∀ s a, I s → ok s a → I (step s a)) (hok : ∀ s a, I s → (ok s a ↔ ok' s a)) :
    Meets step ok s as ↔ Meets step ok' s as := by
  induction as generalizing s with
  | nil => exact Iff.rfl
  | cons a as ih =>
    rw [meets_cons, meets_cons, ← hok s a h0]
    exact and_congr_right fun ha => ih (hstep s a h0 ha)

/-- **The simulation rule.** Where one step of the concrete machine is one
step of the abstract one through a relation, so is a whole run. -/
theorem Meets.simulation {stepA : τ → α → τ} {R : σ → τ → Prop} {s : σ} {t : τ} {as : List α}
    (hm : Meets step ok s as) (h0 : R s t)
    (hstep : ∀ s t a, R s t → ok s a → R (step s a) (stepA t a)) :
    R (run step s as) (run stepA t as) := by
  induction as generalizing s t with
  | nil => exact h0
  | cons a as ih => exact ih hm.2 (hstep s t a h0 hm.1)

/-- **The tracking rule.** A value that follows the state, and that a step
leaves good exactly when it was good and the step met its guard, is good
where a run ends exactly when the whole run met its guards. -/
theorem track {γ : Type*} {I : σ → γ → Prop} {good : γ → Prop} {s : σ} {g : γ} (as : List α)
    (h0 : I s g)
    (hstep : ∀ s g a, I s g → ∃ g', I (step s a) g' ∧ (good g' ↔ good g ∧ ok s a)) :
    ∃ g', I (run step s as) g' ∧ (good g' ↔ good g ∧ Meets step ok s as) := by
  induction as generalizing s g with
  | nil => exact ⟨g, h0, (and_true _).symm ▸ Iff.rfl⟩
  | cons a as ih =>
    obtain ⟨g', h1, hgood⟩ := hstep s g a h0
    obtain ⟨g'', h2, hrest⟩ := ih h1
    refine ⟨g'', h2, ?_⟩
    rw [hrest, hgood, meets_cons, and_assoc]

end Stepwise
