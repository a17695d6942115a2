import Mathlib.Data.List.Induction
import OCServer.Lib.Incremental

/-!
# Runs of a machine

A machine takes one event after the other.  A step may fail, and it may put
out some items: `Incremental.feedAll` is its run.  The invariant of a run
may speak of the events that have been taken and of the items that have
been put out, so that nothing has to be recorded in the state.

`Along ok s es` says that every step of the run of `es` from `s` meets
`ok`, a condition on the state before the step and on its event.
-/

namespace Machine

open Incremental

variable {σ ι ο ε : Type} {step : σ → ι → Except ε (σ × List ο)}

/-- A run of two lists goes through the state between them. -/
theorem run_append {s u : σ} {es es' : List ι} {out : List ο}
    (h : feedAll step s (es ++ es') = .ok (u, out)) :
    ∃ t o o', feedAll step s es = .ok (t, o) ∧ feedAll step t es' = .ok (u, o') ∧
      out = o ++ o' := by
  induction es generalizing s out with
  | nil => exact ⟨s, [], out, rfl, h, rfl⟩
  | cons e es ih =>
    obtain ⟨t, o, o', hstep, hrun, rfl⟩ := feedAll_cons_inv h
    obtain ⟨v, p, p', hfst, hsnd, rfl⟩ := ih hrun
    exact ⟨v, o ++ p, p', feedAll_cons hstep hfst, hsnd, (List.append_assoc o p p').symm⟩

/-- Two runs, one after the other. -/
theorem run_trans {s t u : σ} {es es' : List ι} {o o' : List ο}
    (h : feedAll step s es = .ok (t, o)) (h' : feedAll step t es' = .ok (u, o')) :
    feedAll step s (es ++ es') = .ok (u, o ++ o') := by
  induction es generalizing s o with
  | nil =>
    cases h
    exact h'
  | cons e es ih =>
    obtain ⟨v, p, p', hstep, hrun, rfl⟩ := feedAll_cons_inv h
    rw [List.append_assoc]
    exact feedAll_cons hstep (ih hrun)

theorem run_one {s t : σ} {e : ι} {o : List ο} (h : step s e = .ok (t, o)) :
    feedAll step s [e] = .ok (t, o) := by
  have hrun : feedAll step s [e] = .ok (t, o ++ []) := feedAll_cons h rfl
  rwa [List.append_nil] at hrun

/-- Every step of the run of `es` from `s` meets `ok`. -/
def Along (step : σ → ι → Except ε (σ × List ο)) (ok : σ → ι → Prop) (s : σ)
    (es : List ι) : Prop :=
  ∀ pre e post, es = pre ++ e :: post →
    ∀ t out, feedAll step s pre = .ok (t, out) → ok t e

theorem Along.left {ok : σ → ι → Prop} {s : σ} {es es' : List ι}
    (h : Along step ok s (es ++ es')) : Along step ok s es := by
  intro pre e post heq
  apply h pre e (post ++ es')
  rw [heq, List.append_assoc, List.cons_append]

/-- The rule for a run whose steps meet a condition. -/
theorem invariant_along {s : σ} {ok : σ → ι → Prop} (inv : List ι → σ → List ο → Prop)
    (hinit : inv [] s [])
    (hstep : ∀ es e t t' out o, inv es t out → ok t e → step t e = .ok (t', o) →
      inv (es ++ [e]) t' (out ++ o)) :
    ∀ es t out, Along step ok s es → feedAll step s es = .ok (t, out) → inv es t out := by
  intro es
  induction es using List.reverseRecOn with
  | nil =>
    intro t out _ hrun
    cases hrun
    exact hinit
  | append_singleton es e ih =>
    intro t out halong hrun
    obtain ⟨v, o, o', hfst, hsnd, rfl⟩ := run_append hrun
    obtain ⟨w, p, p', hone, hnil, rfl⟩ := feedAll_cons_inv hsnd
    cases hnil
    rw [List.append_nil]
    exact hstep es e v t o p (ih v o halong.left hfst) (halong es e [] rfl v o hfst) hone

/-- The rule for any run. -/
theorem invariant {s : σ} (inv : List ι → σ → List ο → Prop) (hinit : inv [] s [])
    (hstep : ∀ es e t t' out o, inv es t out → step t e = .ok (t', o) →
      inv (es ++ [e]) t' (out ++ o)) :
    ∀ es t out, feedAll step s es = .ok (t, out) → inv es t out := by
  intro es t out
  have halong : Along step (fun _ _ => True) s es := fun _ _ _ _ _ _ _ => trivial
  exact invariant_along inv hinit
    (fun es e t t' out o hinv _ => hstep es e t t' out o hinv) es t out halong

/-- The rule for a machine whose steps fail only as `allowed` says: so do its
runs, and those that return keep the invariant. -/
theorem invariant_or {s : σ} (allowed : ε → Prop) (inv : σ → List ο → Prop) (hinit : inv s [])
    (hstep : ∀ e t out, inv t out → (∃ err, step t e = .error err ∧ allowed err) ∨
      ∃ t' o, step t e = .ok (t', o) ∧ inv t' (out ++ o)) :
    ∀ es, (∃ err, feedAll step s es = .error err ∧ allowed err) ∨
      ∃ t out, feedAll step s es = .ok (t, out) ∧ inv t out := by
  have hrest : ∀ es t out, inv t out → (∃ err, feedAll step t es = .error err ∧ allowed err) ∨
      ∃ u o, feedAll step t es = .ok (u, o) ∧ inv u (out ++ o) := by
    intro es
    induction es with
    | nil =>
      intro t out hinv
      exact Or.inr ⟨t, [], rfl, by rwa [List.append_nil]⟩
    | cons e es ih =>
      intro t out hinv
      rcases hstep e t out hinv with ⟨err, herr, hallowed⟩ | ⟨t', o, hok, hinv'⟩
      · refine Or.inl ⟨err, ?_, hallowed⟩
        rw [feedAll, herr]
        rfl
      · rcases ih t' (out ++ o) hinv' with ⟨err, herr, hallowed⟩ | ⟨u, o', hrun, hinv''⟩
        · refine Or.inl ⟨err, ?_, hallowed⟩
          rw [feedAll, hok]
          show (feedAll step t' es >>= _) = _
          rw [herr]
          rfl
        · exact Or.inr ⟨u, o ++ o', feedAll_cons hok hrun, by rwa [← List.append_assoc]⟩
  exact fun es => hrest es s [] hinit

end Machine
