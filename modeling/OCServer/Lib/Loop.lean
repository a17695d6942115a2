import Mathlib.Tactic.Common

/-!
# Loops of a step function that may fail

`iterate step n s` runs `step` at most `n` times from `s`.  A loop that has
reached its end stays there, so a larger `n` changes nothing.

`iterate_done` is the rule for a whole run: an invariant that one step
keeps, and a measure that one step lowers, give a final state that is
reached without failure and keeps the invariant.  `iterate_inv` and
`iterate_stops` are the rules for a run that may also fail, as long as every
failure is harmless.
-/

namespace Loop

variable {ε σ : Type}

/-- A step that succeeded hands its value on. -/
@[simp] theorem ok_bind {α β : Type} (a : α) (f : α → Except ε β) :
    (Except.ok a >>= f) = f a := rfl

/-- Runs `step` `n` times, or until it fails. -/
def iterate (step : σ → Except ε σ) : Nat → σ → Except ε σ
  | 0, s => .ok s
  | n + 1, s => step s >>= iterate step n

theorem iterate_succ_ok {step : σ → Except ε σ} {s s' : σ} (n : Nat)
    (h : step s = .ok s') : iterate step (n + 1) s = iterate step n s' := by
  rw [iterate, h]
  rfl

theorem iterate_succ_error {step : σ → Except ε σ} {s : σ} {e : ε} (n : Nat)
    (h : step s = .error e) : iterate step (n + 1) s = .error e := by
  rw [iterate, h]
  rfl

/-- A state that steps to itself is the result of any number of steps. -/
theorem iterate_fixed {step : σ → Except ε σ} {s : σ} (h : step s = .ok s)
    (n : Nat) : iterate step n s = .ok s := by
  induction n with
  | zero => rfl
  | succ n ih => rw [iterate_succ_ok n h, ih]

/-- The rule for any number of steps: `inv` is kept, and every failure is one of
`harmless`. -/
theorem iterate_inv {step : σ → Except ε σ} {inv : σ → Prop} {harmless : ε → Prop}
    (hstep : ∀ s, inv s →
      (∃ s', step s = .ok s' ∧ inv s') ∨ ∃ e, step s = .error e ∧ harmless e) :
    ∀ (n : Nat) (s : σ), inv s →
      (∃ s', iterate step n s = .ok s' ∧ inv s') ∨
        ∃ e, iterate step n s = .error e ∧ harmless e := by
  intro n
  induction n with
  | zero => exact fun s hs => Or.inl ⟨s, rfl, hs⟩
  | succ n ih =>
    intro s hs
    rcases hstep s hs with ⟨s', hs', hinv⟩ | ⟨e, he, hharmless⟩
    · rw [iterate_succ_ok n hs']
      exact ih s' hinv
    · exact Or.inr ⟨e, iterate_succ_error n he, hharmless⟩

/-- The rule for a run that ends: `inv` is kept, `μ` goes down until `fin`,
and a final state steps to itself.  Any fuel from `μ s` up is enough. -/
theorem iterate_done {step : σ → Except ε σ} (inv fin : σ → Prop) (μ : σ → Nat)
    (hfin : ∀ s, fin s → step s = .ok s)
    (hstep : ∀ s, inv s → ¬fin s → ∃ s', step s = .ok s' ∧ inv s' ∧ μ s' < μ s) :
    ∀ (n : Nat) (s : σ), inv s → μ s ≤ n →
      ∃ s', iterate step n s = .ok s' ∧ inv s' ∧ fin s' := by
  intro n
  induction n with
  | zero =>
    intro s hs hn
    refine ⟨s, rfl, hs, ?_⟩
    by_contra hne
    obtain ⟨s', _, _, hlt⟩ := hstep s hs hne
    omega
  | succ n ih =>
    intro s hs hn
    by_cases hf : fin s
    · exact ⟨s, iterate_fixed (hfin s hf) _, hs, hf⟩
    · obtain ⟨s', hs', hinv, hlt⟩ := hstep s hs hf
      rw [iterate_succ_ok n hs']
      exact ih s' hinv (by omega)

/-- The rule for a run that ends or fails: `inv` is kept, `μ` goes down until `fin` or
a failure, and a final state steps to itself.  Any fuel above `μ s` is enough. -/
theorem iterate_stops {step : σ → Except ε σ} {harmless : ε → Prop} (inv fin : σ → Prop)
    (μ : σ → Nat) (hfin : ∀ s, fin s → step s = .ok s)
    (hstep : ∀ s, inv s → ¬fin s →
      (∃ s', step s = .ok s' ∧ inv s' ∧ μ s' < μ s) ∨ ∃ e, step s = .error e ∧ harmless e) :
    ∀ (n : Nat) (s : σ), inv s → μ s < n →
      (∃ s', iterate step n s = .ok s' ∧ inv s' ∧ fin s') ∨
        ∃ e, iterate step n s = .error e ∧ harmless e := by
  intro n
  induction n with
  | zero =>
    intro s _ hn
    exact absurd hn (Nat.not_lt_zero _)
  | succ n ih =>
    intro s hs hn
    by_cases hf : fin s
    · exact Or.inl ⟨s, iterate_fixed (hfin s hf) _, hs, hf⟩
    · rcases hstep s hs hf with ⟨s', hs', hinv, hlt⟩ | ⟨e, he, hharmless⟩
      · rw [iterate_succ_ok n hs']
        exact ih s' hinv (by omega)
      · exact Or.inr ⟨e, iterate_succ_error n he, hharmless⟩

end Loop
