import OCServer.Lib.ByteIO

/-!
# Programs that move on

`Moves R cut m` says that `m` moves its state along `R` whenever it gives a
value, and never throws an exception of `cut`.  With a preorder for `R` and
"out of fuel" for `cut`, this is what a loop needs of its body.

`Extends cut m m'` says that `m'` does what `m` does, unless `m` is cut off.
It compares the same program with less and with more fuel.
-/

namespace Progress

open ByteIO

variable {ε σ α β : Type} {R : σ → σ → Prop} {cut : ε → Prop}

/-! ## Moving along a relation -/

/-- A value comes with a move along `R`, and no exception is one of `cut`. -/
structure Moves (R : σ → σ → Prop) (cut : ε → Prop) (m : EStateM ε σ α) : Prop where
  ok : ∀ {s a s'}, m s = .ok a s' → R s s'
  error : ∀ {s e s'}, m s = .error e s' → ¬cut e

theorem Moves.pure [Std.Refl R] (a : α) : Moves R cut (pure a : EStateM ε σ α) where
  ok h := by
    cases h
    exact Std.Refl.refl _
  error h := nomatch h

theorem Moves.throw {e : ε} (h : ¬cut e) : Moves R cut (throw e : EStateM ε σ α) where
  ok h := nomatch h
  error h' := by
    cases h'
    exact h

theorem Moves.bind [IsTrans σ R] {m : EStateM ε σ α} {f : α → EStateM ε σ β}
    (hm : Moves R cut m) (hf : ∀ a, Moves R cut (f a)) : Moves R cut (m >>= f) where
  ok h := by
    rcases bind_eq_ok h with ⟨a, s₁, ha, hb⟩
    exact IsTrans.trans _ _ _ (hm.ok ha) ((hf a).ok hb)
  error {s e s'} h := by
    cases hrun : m s with
    | ok a s₁ =>
      rw [bind_of_ok hrun] at h
      exact (hf a).error h
    | error e₁ s₁ =>
      rw [bind_of_error hrun] at h
      cases h
      exact hm.error hrun

theorem Moves.ite {c : Prop} [Decidable c] {m m' : EStateM ε σ α} (h : c → Moves R cut m)
    (h' : ¬c → Moves R cut m') : Moves R cut (if c then m else m') := by
  split
  · next hc => exact h hc
  · next hc => exact h' hc

theorem Moves.repeatM [Std.Refl R] [IsTrans σ R] {m : EStateM ε σ α} (h : Moves R cut m)
    (n : Nat) : Moves R cut ( ByteIO.repeatM m n) := by
  induction n with
  | zero => exact Moves.pure _
  | succ n ih => exact h.bind fun _ => ih.bind fun _ => Moves.pure _

/-! ## More fuel -/

/-- `m'` does what `m` does, unless `m` is cut off. -/
def Extends (cut : ε → Prop) (m m' : EStateM ε σ α) : Prop :=
  ∀ s, (∃ e s', m s = .error e s' ∧ cut e) ∨ m' s = m s

theorem Extends.refl (m : EStateM ε σ α) : Extends cut m m := fun _ => Or.inr rfl

theorem Extends.of_cut {e : ε} (h : cut e) (m : EStateM ε σ α) : Extends cut (throw e) m :=
  fun s => Or.inl ⟨e, s, rfl, h⟩

theorem Extends.trans {m₁ m₂ m₃ : EStateM ε σ α} (h : Extends cut m₁ m₂)
    (h' : Extends cut m₂ m₃) : Extends cut m₁ m₃ := by
  intro s
  rcases h s with hcut | heq
  · exact Or.inl hcut
  · rcases h' s with ⟨e, s', hrun, he⟩ | heq'
    · exact Or.inl ⟨e, s', heq ▸ hrun, he⟩
    · exact Or.inr (heq'.trans heq)

theorem Extends.bind {m m' : EStateM ε σ α} {f f' : α → EStateM ε σ β} (hm : Extends cut m m')
    (hf : ∀ a, Extends cut (f a) (f' a)) : Extends cut (m >>= f) (m' >>= f') := by
  intro s
  rcases hm s with ⟨e, s', hrun, he⟩ | heq
  · exact Or.inl ⟨e, s', bind_of_error hrun, he⟩
  · cases hrun : m s with
    | ok a s₁ =>
      rw [bind_of_ok hrun, bind_of_ok (heq.trans hrun)]
      exact hf a s₁
    | error e s₁ =>
      rw [bind_of_error hrun, bind_of_error (heq.trans hrun)]
      exact Or.inr rfl

theorem Extends.ite {c : Prop} [Decidable c] {m₁ m₁' m₂ m₂' : EStateM ε σ α}
    (h₁ : Extends cut m₁ m₁') (h₂ : Extends cut m₂ m₂') :
    Extends cut (if c then m₁ else m₂) (if c then m₁' else m₂') := by
  split
  · exact h₁
  · exact h₂

/-- A family that is extended step by step is extended at once. -/
theorem Extends.of_le {m : Nat → EStateM ε σ α} (h : ∀ n, Extends cut (m n) (m (n + 1)))
    {n k : Nat} (hle : n ≤ k) : Extends cut (m n) (m k) := by
  induction hle with
  | refl => exact Extends.refl _
  | step _ ih => exact ih.trans (h _)

/-- Two amounts of fuel give the same, or one of them is not enough. -/
theorem eq_or_cut {m : Nat → EStateM ε σ α} (h : ∀ n, Extends cut (m n) (m (n + 1))) {n : Nat}
    {s s' : σ} {a : α} (hrun : m n s = .ok a s') (k : Nat) :
    (∃ e t, m k s = .error e t ∧ cut e) ∨ m k s = .ok a s' := by
  rcases Nat.le_total n k with hle | hle
  · rcases Extends.of_le h hle s with ⟨e, t, hcut, -⟩ | heq
    · rw [hrun] at hcut
      cases hcut
    · exact Or.inr (heq.trans hrun)
  · rcases Extends.of_le h hle s with hcut | heq
    · exact Or.inl hcut
    · exact Or.inr (heq.symm.trans hrun)

end Progress
