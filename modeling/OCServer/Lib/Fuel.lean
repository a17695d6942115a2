import Mathlib.Data.List.Basic
import Mathlib.Tactic.Common

/-!
# Runs with fuel

`E n s` is the result of a run from `s` with the fuel `n`, and `done` says
which results are not due to a lack of fuel.  `Yields E s r` says that the
run gives `r` with enough fuel, and `Steps done E s t` that a run from `s` is
a run from `t` with one unit less.

A state from which the steps never end has no result: `not_done_of_progress`.
-/

namespace Fuel

variable {σ ρ : Type} {done : ρ → Prop} {E : Nat → σ → ρ} {s t : σ} {r r' : ρ}

/-- With enough fuel, the run gives `r`. -/
def Yields (E : Nat → σ → ρ) (s : σ) (r : ρ) : Prop := ∃ N, ∀ n, N ≤ n → E n s = r

/-- A run from `s` goes on as a run from `t`. -/
structure Steps (done : ρ → Prop) (E : Nat → σ → ρ) (s t : σ) : Prop where
  zero : ¬done (E 0 s)
  succ : ∀ n r, done r → (E (n + 1) s = r ↔ E n t = r)

/-- What holds of every fuel above a bound that is not zero. -/
theorem forall_of_succ {P : Nat → Prop} {N : Nat} (h : ∀ n, N ≤ n → P (n + 1)) :
    ∀ n, N + 1 ≤ n → P n := by
  intro n hn
  cases n with
  | zero => omega
  | succ n => exact h n (by omega)

theorem Yields.of_succ (h : ∀ n, E (n + 1) s = r) : Yields E s r :=
  ⟨1, forall_of_succ fun n _ => h n⟩

theorem Yields.unique (h : Yields E s r) (h' : Yields E s r') : r = r' := by
  rcases h with ⟨N, h⟩
  rcases h' with ⟨N', h'⟩
  exact (h (max N N') (Nat.le_max_left N N')).symm.trans (h' _ (Nat.le_max_right N N'))

/-- A step does not change the result. -/
theorem Steps.yields (h : Steps done E s t) (hr : done r) : Yields E s r ↔ Yields E t r := by
  constructor
  · intro hs
    rcases hs with ⟨N, hs⟩
    exact ⟨N, fun n hn => (h.succ n r hr).mp (hs (n + 1) (by omega))⟩
  · intro ht
    rcases ht with ⟨N, ht⟩
    exact ⟨N + 1, forall_of_succ fun n hn => (h.succ n r hr).mpr (ht n hn)⟩

/-- When every state with `I` steps to a state with `I`, no run ends. -/
theorem not_done_of_progress {I : σ → Prop} (hI : ∀ s, I s → ∃ t, Steps done E s t ∧ I t) :
    ∀ (n : Nat) (s : σ), I s → ¬done (E n s) := by
  intro n
  induction n with
  | zero =>
    intro s hs
    rcases hI s hs with ⟨t, hstep, _⟩
    exact hstep.zero
  | succ n ih =>
    intro s hs hdone
    rcases hI s hs with ⟨t, hstep, ht⟩
    have hrun := (hstep.succ n _ hdone).mp rfl
    exact ih t ht (hrun ▸ hdone)

end Fuel
