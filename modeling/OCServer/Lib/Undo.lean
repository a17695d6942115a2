import Mathlib.Data.List.GetD
import Mathlib.Logic.Function.Basic
import Mathlib.Tactic.Common

/-!
# Steps that can be taken back

`run f l` takes the steps `f i` for the `i` of a list, one after the other.  If
`g i` takes `f i` back, then the steps of `g` in the reverse order take back
the whole run (`run_reverse`).

The second part is about one kind of step: a cell of a list is changed by
something that does not depend on that cell.  It does not matter what it is
changed by, so that a mixing function need not be invertible.
-/

namespace Undo

open Function (LeftInverse)

variable {ι α : Type}

/-- The steps `f i` for the `i` of `l`. -/
def run (f : ι → α → α) (l : List ι) (x : α) : α :=
  l.foldl (fun x i => f i x) x

@[simp] theorem run_nil (f : ι → α → α) (x : α) : run f [] x = x := rfl

@[simp] theorem run_cons (f : ι → α → α) (i : ι) (l : List ι) (x : α) :
    run f (i :: l) x = run f l (f i x) := rfl

theorem run_append (f : ι → α → α) (l l' : List ι) (x : α) :
    run f (l ++ l') x = run f l' (run f l x) :=
  List.foldl_append

/-- The steps back in the reverse order take back the run. -/
theorem run_reverse {f g : ι → α → α} (h : ∀ i, LeftInverse (g i) (f i)) (l : List ι) :
    LeftInverse (run g l.reverse) (run f l) := by
  intro x
  induction l generalizing x with
  | nil => rfl
  | cons i l ih => rw [List.reverse_cons, run_append, run_cons, run_nil, run_cons, ih, h i x]

/-- The same for the run in the reverse order. -/
theorem reverse_run {f g : ι → α → α} (h : ∀ i, LeftInverse (g i) (f i)) (l : List ι) :
    LeftInverse (run g l) (run f l.reverse) := by
  have hrev := run_reverse h l.reverse
  rwa [List.reverse_reverse] at hrev

/-! ## Steps on a cell -/

variable {β : Type} (op : α → β → α)

/-- Changes cell `p` by what `f` makes of the list. -/
def change (d₀ : α) (p : Nat) (f : List α → β) (d : List α) : List α :=
  d.set p (op (d.getD p d₀) (f d))

@[simp] theorem change_length (d₀ : α) (p : Nat) (f : List α → β) (d : List α) :
    (change op d₀ p f d).length = d.length :=
  List.length_set

/-- What a cell is changed by is still there when the cell has changed, so that the
change can be taken back. -/
theorem change_change {op back : α → β → α} (hop : ∀ x b, back (op x b) b = x) {d₀ : α} {p : Nat}
    {f : List α → β} (hf : ∀ d v, f (d.set p v) = f d) :
    LeftInverse (change back d₀ p f) (change op d₀ p f) := by
  intro d
  unfold change
  rw [hf, List.set_set]
  by_cases hp : p < d.length
  · have hlen : p < (d.set p (op (d.getD p d₀) (f d))).length := by rwa [List.length_set]
    rw [List.getD_eq_getElem _ _ hlen, List.getElem_set_self, hop, List.getD_eq_getElem _ _ hp,
      List.set_getElem_self]
  · rw [List.set_eq_of_length_le (by omega)]

end Undo
