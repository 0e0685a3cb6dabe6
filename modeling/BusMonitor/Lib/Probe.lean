import Mathlib.Data.List.Basic
/-!
# Computations that read a buffer

A `Probe` is a computation whose only contact with a buffer is to read one
entry after another, each index depending on the entries read so far. It
is run against a buffer by `eval`, and `reads` lists the indices it asked
for. What a computation returns depends on those entries alone.
-/


/-- Either finished, or asking for the entry at an index. -/
inductive Probe (ι β α : Type) where
  | done (a : α)
  | ask (i : ι) (k : β → Probe ι β α)

namespace Probe

variable {ι β α γ : Type} {m m' : ι → β}

/-- One computation after another. -/
def bind : Probe ι β α → (α → Probe ι β γ) → Probe ι β γ
  | done a, f => f a
  | ask i k, f => ask i fun b => (k b).bind f

instance : Monad (Probe ι β) where
  pure := done
  bind := bind

/-- Read one entry. -/
def entry (i : ι) : Probe ι β β := ask i done

/-- The value returned over a buffer. -/
def eval (m : ι → β) : Probe ι β α → α
  | done a => a
  | ask i k => (k (m i)).eval m

/-- The indices read over a buffer, in order. -/
def reads (m : ι → β) : Probe ι β α → List ι
  | done _ => []
  | ask i k => i :: (k (m i)).reads m

@[simp] theorem eval_pure (a : α) : (pure a : Probe ι β α).eval m = a := rfl

@[simp] theorem reads_pure (a : α) : (pure a : Probe ι β α).reads m = [] := rfl

@[simp] theorem eval_entry (i : ι) : (entry i : Probe ι β β).eval m = m i := rfl

@[simp] theorem reads_entry (i : ι) : (entry i : Probe ι β β).reads m = [i] := rfl

@[simp] theorem eval_bind (p : Probe ι β α) (f : α → Probe ι β γ) :
    (p >>= f).eval m = (f (p.eval m)).eval m := by
  change (p.bind f).eval m = _
  induction p with
  | done a => rfl
  | ask i k ih => exact ih (m i)

@[simp] theorem reads_bind (p : Probe ι β α) (f : α → Probe ι β γ) :
    (p >>= f).reads m = p.reads m ++ (f (p.eval m)).reads m := by
  change (p.bind f).reads m = _
  induction p with
  | done a => rfl
  | ask i k ih => exact congrArg (i :: ·) (ih (m i))

@[simp] theorem eval_ite {c : Prop} [Decidable c] (p q : Probe ι β α) :
    (if c then p else q).eval m = if c then p.eval m else q.eval m := apply_ite (eval m) c p q

/-- A value the other branch does not give has come through the check. -/
theorem of_eval_check {c : Prop} [Decidable c] {p : Probe ι β α} {a b : α}
    (h : (if c then p else pure a).eval m = b) (hne : a ≠ b) : c ∧ p.eval m = b := by
  rw [eval_ite] at h
  split at h
  · next hc => exact ⟨hc, h⟩
  · exact absurd h hne

@[simp] theorem reads_ite {c : Prop} [Decidable c] (p q : Probe ι β α) :
    (if c then p else q).reads m = if c then p.reads m else q.reads m := apply_ite (reads m) c p q

/-- **Only what is read counts.** Buffers that agree on the entries read
give the same value. -/
theorem eval_congr {p : Probe ι β α} (h : ∀ i ∈ p.reads m, m i = m' i) :
    p.eval m = p.eval m' := by
  induction p with
  | done a => rfl
  | ask i k ih =>
    have hi : m i = m' i := h i (List.mem_cons_self ..)
    calc (ask i k).eval m = (k (m i)).eval m := rfl
      _ = (k (m i)).eval m' := ih (m i) fun j hj => h j (List.mem_cons_of_mem _ hj)
      _ = (ask i k).eval m' := by rw [hi]; rfl

/-! ## Reading within bounds -/

variable {ok : ι → Prop} {post : α → Prop}

/-- The value meets `post`, and every index read is allowed. -/
def Obeys (ok : ι → Prop) (post : α → Prop) (m : ι → β) (p : Probe ι β α) : Prop :=
  post (p.eval m) ∧ ∀ i ∈ p.reads m, ok i

theorem obeys_pure (a : α) : Obeys ok post m (pure a : Probe ι β α) ↔ post a := by
  simp [Obeys]

theorem obeys_bind (p : Probe ι β γ) (f : γ → Probe ι β α) :
    Obeys ok post m (p >>= f) ↔ (∀ i ∈ p.reads m, ok i) ∧ Obeys ok post m (f (p.eval m)) := by
  simp only [Obeys, eval_bind, reads_bind, List.mem_append, or_imp, forall_and]
  exact and_left_comm

theorem obeys_entry (i : ι) (f : β → Probe ι β α) :
    Obeys ok post m (entry i >>= f) ↔ ok i ∧ Obeys ok post m (f (m i)) := by
  simp [obeys_bind]

end Probe
