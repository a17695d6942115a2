import Mathlib.Algebra.BigOperators.Group.List.Basic
import Mathlib.Algebra.Ring.Nat
import Mathlib.Data.List.Induction
import Mathlib.Tactic.Common

/-!
# A queue that is served at most once a tick

At a tick some items arrive, and one is taken away if the queue is served at that tick.
`backlog` is how many items are left.  `backlog_eq_zero_iff` says when there are none: at the
end of every run, as many items have arrived in it as it was served, or less.
-/

namespace Backlog

variable {ι : Type} (served : ι → Bool) (gain : ι → Nat)

/-- The items after one tick. -/
def tick (w : Nat) (t : ι) : Nat := w + gain t - (served t).toNat

/-- The items after some ticks. -/
def backlog (w : Nat) (ts : List ι) : Nat := ts.foldl (tick served gain) w

theorem backlog_append (w : Nat) (ts ts' : List ι) :
    backlog served gain w (ts ++ ts') =
      backlog served gain (backlog served gain w ts) ts' := List.foldl_append

/-- What has arrived in some ticks. -/
def gains (ts : List ι) : Nat := (ts.map gain).sum

/-- How often it was served. -/
def serves (ts : List ι) : Nat := (ts.map fun t => (served t).toNat).sum

theorem gains_concat (ts : List ι) (t : ι) : gains gain (ts ++ [t]) = gains gain ts + gain t := by
  simp [gains]

theorem serves_concat (ts : List ι) (t : ι) :
    serves served (ts ++ [t]) = serves served ts + (served t).toNat := by
  simp [serves]

/-- The backlog is the most that has arrived in excess of the service in a final part.  By
induction on the ticks from the end. -/
theorem backlog_le_iff (n : Nat) (ts : List ι) :
    backlog served gain 0 ts ≤ n ↔
      ∀ s, s <:+ ts → gains gain s ≤ serves served s + n := by
  induction ts using List.reverseRecOn generalizing n with
  | nil =>
    refine iff_of_true (Nat.zero_le n) fun s hs => ?_
    rw [List.suffix_nil.mp hs]
    exact Nat.zero_le _
  | append_singleton ts t ih =>
    have hrest : (∀ s, s <:+ ts ++ [t] → gains gain s ≤ serves served s + n) ↔
        ∀ r, r <:+ ts → gains gain r + gain t ≤ serves served r + (served t).toNat + n := by
      constructor
      · intro h r hr
        have hs := h (r ++ [t]) (List.suffix_concat_iff.mpr (Or.inr ⟨r, rfl, hr⟩))
        rwa [gains_concat, serves_concat] at hs
      · intro h s hs
        rcases List.suffix_concat_iff.mp hs with rfl | ⟨r, rfl, hr⟩
        · exact Nat.zero_le _
        · rw [gains_concat, serves_concat]
          exact h r hr
    have htick : backlog served gain 0 (ts ++ [t]) =
        backlog served gain 0 ts + gain t - (served t).toNat := backlog_append served gain 0 ts [t]
    rw [hrest, htick]
    by_cases hfew : gain t ≤ (served t).toNat + n
    · -- the earlier ticks may leave as many as there is still room for
      have hih := ih ((served t).toNat + n - gain t)
      constructor
      · intro h r hr
        have hr := hih.mp (by omega) r hr
        omega
      · intro h
        have hle := hih.mpr fun r hr => by
          have := h r hr
          omega
        omega
    · constructor
      · intro h
        omega
      · intro h
        have hnil := h [] List.nil_suffix
        simp only [gains, serves, List.map_nil, List.sum_nil] at hnil
        omega

/-- Nothing is left if and only if in no final part more has arrived than was served. -/
theorem backlog_eq_zero_iff (ts : List ι) :
    backlog served gain 0 ts = 0 ↔ ∀ s, s <:+ ts → gains gain s ≤ serves served s := by
  rw [← Nat.le_zero, backlog_le_iff]
  rfl

end Backlog
