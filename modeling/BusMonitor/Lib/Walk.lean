import BusMonitor.Lib.Run
import Mathlib.Data.List.Count
import Mathlib.Data.List.Induction
/-!
# Walks over a list by request

A server hands out the items of a list one reply at a time: the first one,
then, request after request, the next one or the same one again. It has
its own hidden state; where a walk stands is only a matter of the requests
(`cursor`). An invariant that ties state and reply to the cursor holds
along every walk that does not run past the end.
-/


namespace Walk

open Stepwise

/-- A request after the first. -/
inductive Ask where
  | next
  | again
  deriving DecidableEq, Repr

/-- What a server does with each request: its state after it, and the
reply. -/
structure Server (σ ρ : Type) where
  first : σ → σ × ρ
  next : σ → σ × ρ
  again : σ → σ × ρ

variable {σ ρ : Type} {m : Server σ ρ} {s : σ} {n : Nat} {I : Nat → σ × ρ → Prop}

def Server.serve (m : Server σ ρ) (p : σ × ρ) : Ask → σ × ρ
  | .next => m.next p.1
  | .again => m.again p.1

/-- The state and the last reply after a walk. -/
def Server.walk (m : Server σ ρ) (s : σ) (as : List Ask) : σ × ρ := run m.serve (m.first s) as

/-- How far the requests have moved. -/
def cursor (as : List Ask) : Nat := as.count .next

theorem cursor_append (as bs : List Ask) : cursor (as ++ bs) = cursor as + cursor bs :=
  List.count_append

theorem cursor_replicate (k : Nat) : cursor (List.replicate k .next) = k :=
  List.count_replicate_self

theorem walk_append (as bs : List Ask) :
    m.walk s (as ++ bs) = run m.serve (m.walk s as) bs := run_append _ as bs

theorem walk_concat (as : List Ask) (a : Ask) : m.walk s (as ++ [a]) = m.serve (m.walk s as) a :=
  walk_append as [a]

/-- **The walk rule.** What ties state and reply to the cursor at the
start, and along every request that stays before `n`, does so along every
walk that stays before `n`. -/
theorem walk_invariant (h0 : I 0 (m.first s))
    (hnext : ∀ j p, j + 1 < n → I j p → I (j + 1) (m.next p.1))
    (hagain : ∀ j p, j < n → I j p → I j (m.again p.1)) (as : List Ask) (has : cursor as < n) :
    I (cursor as) (m.walk s as) := by
  induction as using List.reverseRecOn with
  | nil => exact h0
  | append_singleton as a ih =>
    rw [cursor_append] at has ⊢
    rw [walk_concat]
    have hI := ih (by omega)
    cases a with
    | next => exact hnext _ _ has hI
    | again => exact hagain _ _ has hI

/-- The walk rule for a server that stays on the last of its `n + 1`
items. -/
theorem walk_invariant_stay (h0 : I 0 (m.first s))
    (hnext : ∀ j p, j ≤ n → I j p → I (min (j + 1) n) (m.next p.1))
    (hagain : ∀ j p, j ≤ n → I j p → I j (m.again p.1)) (as : List Ask) :
    I (min (cursor as) n) (m.walk s as) := by
  induction as using List.reverseRecOn with
  | nil =>
    change I (min 0 n) (m.first s)
    rwa [Nat.zero_min]
  | append_singleton as a ih =>
    rw [cursor_append, walk_concat]
    cases a with
    | next =>
      have hmin : min (cursor as + cursor [.next]) n = min (min (cursor as) n + 1) n := by
        simp only [show cursor [.next] = 1 from rfl]
        omega
      rw [hmin]
      exact hnext _ _ (by omega) ih
    | again => exact hagain _ _ (by omega) ih

/-- **A detour.** Where `next` and then `again` lead back to the same state,
a walk that goes on from there ends in the same state with the pair as
without it. -/
theorem walk_detour {as : List Ask} (bs : List Ask)
    (h : (m.again (m.next (m.walk s as).1).1).1 = (m.walk s as).1) :
    (m.walk s (as ++ [.next, .again] ++ bs)).1 = (m.walk s (as ++ bs)).1 := by
  rw [walk_append, walk_append, walk_append]
  cases bs with
  | nil => exact h
  | cons b bs => cases b <;> simp only [run_cons, run_nil, Server.serve, h]

end Walk
