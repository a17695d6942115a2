import Mathlib.Data.List.Basic
import Mathlib.Tactic.Common

/-!
# Deciding a stream that arrives in pieces

A `Decider` relates a list to the events that have been decided from it and
to what is left.  Deciding goes on where it stopped (`trans`), and what has
been decided stays decided when more input comes (`append`).

A machine that is fed the stream in chunks holds some undecided input,
`pending`.  `feedAll_decides` lifts a statement about one chunk to any list
of chunks: the machine decides the whole stream, wherever it was cut.
-/

/-- Partial decisions about a list of `α`, with events in `β`. -/
structure Decider (α β : Type) where
  rel : List α → List β → List α → Prop
  refl : ∀ s, rel s [] s
  trans : ∀ {s t u e e'}, rel s e t → rel t e' u → rel s (e ++ e') u
  append : ∀ {s t e}, rel s e t → ∀ b, rel (s ++ b) e (t ++ b)

namespace Incremental

variable {α β γ χ σ ε : Type}

/-- Feeds a machine one chunk after the other and collects its outputs. -/
def feedAll (feed : σ → χ → Except ε (σ × List γ)) :
    σ → List χ → Except ε (σ × List γ)
  | st, [] => .ok (st, [])
  | st, c :: cs => do
    let (st', out) ← feed st c
    let (st'', outs) ← feedAll feed st' cs
    pure (st'', out ++ outs)

theorem feedAll_cons {feed : σ → χ → Except ε (σ × List γ)} {st st' st'' : σ} {c : χ}
    {cs : List χ} {out outs : List γ} (h : feed st c = .ok (st', out))
    (hs : feedAll feed st' cs = .ok (st'', outs)) :
    feedAll feed st (c :: cs) = .ok (st'', out ++ outs) := by
  rw [feedAll, h]
  show (feedAll feed st' cs >>= _) = _
  rw [hs]
  rfl

theorem bind_eq_ok {α β : Type} {m : Except ε α} {f : α → Except ε β} {b : β}
    (h : (m >>= f) = .ok b) : ∃ a, m = .ok a ∧ f a = .ok b := by
  cases m with
  | error e => cases h
  | ok a => exact ⟨a, rfl, h⟩

/-- A run that returned has returned from its first chunk. -/
theorem feedAll_cons_inv {feed : σ → χ → Except ε (σ × List γ)} {st st'' : σ} {c : χ}
    {cs : List χ} {out : List γ} (h : feedAll feed st (c :: cs) = .ok (st'', out)) :
    ∃ st' o o', feed st c = .ok (st', o) ∧ feedAll feed st' cs = .ok (st'', o') ∧
      out = o ++ o' := by
  rw [feedAll] at h
  obtain ⟨⟨st', o⟩, hfst, h⟩ := bind_eq_ok h
  obtain ⟨⟨st₂, o'⟩, hrun, h⟩ := bind_eq_ok h
  cases h
  exact ⟨st', o, o', hfst, hrun, rfl⟩

/-- A machine that decides one chunk after what is pending decides every
list of chunks.  `sane` is what the machine needs to know about the input;
it passes to prefixes and to what is left. -/
theorem feedAll_decides (D : Decider α β) (observe : List β → List γ)
    (bytes : χ → List α) (feed : σ → χ → Except ε (σ × List γ))
    (inv : σ → Prop) (pending : σ → List α) (sane : List α → Prop)
    (hnil : observe [] = []) (hobs : ∀ a b, observe (a ++ b) = observe a ++ observe b)
    (hfront : ∀ a b, sane (a ++ b) → sane a)
    (hleft : ∀ {s e t}, D.rel s e t → sane s → sane t)
    (hfeed : ∀ st c, inv st → sane (pending st ++ bytes c) →
      ∃ st' e, feed st c = .ok (st', observe e) ∧ inv st' ∧
        D.rel (pending st ++ bytes c) e (pending st')) :
    ∀ (cs : List χ) (st : σ), inv st → sane (pending st ++ (cs.map bytes).flatten) →
      ∃ st' e, feedAll feed st cs = .ok (st', observe e) ∧ inv st' ∧
        D.rel (pending st ++ (cs.map bytes).flatten) e (pending st') := by
  intro cs
  induction cs with
  | nil =>
    intro st hinv _
    refine ⟨st, [], by rw [hnil]; rfl, hinv, ?_⟩
    rw [List.map_nil, List.flatten_nil, List.append_nil]
    exact D.refl _
  | cons c cs ih =>
    intro st hinv hsane
    rw [List.map_cons, List.flatten_cons, ← List.append_assoc] at hsane ⊢
    obtain ⟨st₁, e₁, hst₁, hinv₁, hrel₁⟩ := hfeed st c hinv (hfront _ _ hsane)
    have hrel := D.append hrel₁ (cs.map bytes).flatten
    obtain ⟨st₂, e₂, hst₂, hinv₂, hrel₂⟩ := ih st₁ hinv₁ (hleft hrel hsane)
    refine ⟨st₂, e₁ ++ e₂, ?_, hinv₂, D.trans hrel hrel₂⟩
    rw [feedAll_cons hst₁ hst₂, hobs]

/-- The same for a machine that may fail, on the runs that return. -/
theorem feedAll_returned (D : Decider α β) (observe : List β → List γ)
    (bytes : χ → List α) (feed : σ → χ → Except ε (σ × List γ))
    (inv : σ → Prop) (pending : σ → List α)
    (hnil : observe [] = []) (hobs : ∀ a b, observe (a ++ b) = observe a ++ observe b)
    (hfeed : ∀ st c st' out, inv st → feed st c = .ok (st', out) →
      ∃ e, out = observe e ∧ inv st' ∧ D.rel (pending st ++ bytes c) e (pending st')) :
    ∀ (cs : List χ) (st st' : σ) (out : List γ), inv st →
      feedAll feed st cs = .ok (st', out) →
      ∃ e, out = observe e ∧ inv st' ∧
        D.rel (pending st ++ (cs.map bytes).flatten) e (pending st') := by
  intro cs
  induction cs with
  | nil =>
    intro st st' out hinv hrun
    cases hrun
    refine ⟨[], hnil.symm, hinv, ?_⟩
    rw [List.map_nil, List.flatten_nil, List.append_nil]
    exact D.refl _
  | cons c cs ih =>
    intro st st' out hinv hrun
    obtain ⟨st₁, out₁, out₂, hfst, hsnd, rfl⟩ := feedAll_cons_inv hrun
    obtain ⟨e₁, hout₁, hinv₁, hrel₁⟩ := hfeed st c st₁ out₁ hinv hfst
    obtain ⟨e₂, hout₂, hinv₂, hrel₂⟩ := ih st₁ st' out₂ hinv₁ hsnd
    rw [List.map_cons, List.flatten_cons, ← List.append_assoc]
    exact ⟨e₁ ++ e₂, by rw [hout₁, hout₂, hobs], hinv₂, D.trans (D.append hrel₁ _) hrel₂⟩

end Incremental
