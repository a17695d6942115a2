import Mathlib.Algebra.BigOperators.Group.List.Basic
import Mathlib.Algebra.Ring.Nat
import Mathlib.Data.List.Basic
import Mathlib.Logic.Function.Basic
import Mathlib.Tactic.Common

/-!
# Streams of items that arrive in pieces

`complete size l n` are the items of `l` that are complete when `n` bytes of the stream have
arrived.

Several streams may arrive as one.  An item of the merged stream belongs to the stream `key`,
and `exists_merge` says that a list whose parts are the images of some streams is the image of
a merge of these streams.
-/

namespace Merge

/-! ## What is complete -/

section

variable {α β : Type} (size : α → Nat)

/-- The items whose last byte is among the first `n` bytes. -/
def complete : List α → Nat → List α
  | [], _ => []
  | a :: l, n => if size a ≤ n then a :: complete l (n - size a) else []

theorem complete_cons_of_le {a : α} {n : Nat} (h : size a ≤ n) (l : List α) :
    complete size (a :: l) n = a :: complete size l (n - size a) := if_pos h

theorem complete_cons_of_lt {a : α} {n : Nat} (h : n < size a) (l : List α) :
    complete size (a :: l) n = [] := if_neg (Nat.not_le.mpr h)

theorem complete_prefix (l : List α) (n : Nat) : complete size l n <+: l := by
  induction l generalizing n with
  | nil => exact List.prefix_refl []
  | cons a l ih =>
    unfold complete
    split_ifs
    · exact List.prefix_cons_inj a |>.mpr (ih _)
    · exact List.nil_prefix

theorem complete_map (f : β → α) (l : List β) (n : Nat) :
    complete size (l.map f) n = (complete (fun b => size (f b)) l n).map f := by
  induction l generalizing n with
  | nil => rfl
  | cons b l ih =>
    unfold complete
    split_ifs with h
    · show (if size (f b) ≤ n then _ else _) = _
      rw [if_pos h, ih]
      rfl
    · exact if_neg h

/-- All items are complete if and only if no byte is missing. -/
theorem length_complete_iff (l : List α) {n : Nat} (hn : n ≤ (l.map size).sum) :
    (complete size l n).length = l.length ↔ n = (l.map size).sum := by
  induction l generalizing n with
  | nil =>
    simp only [complete, List.map_nil, List.sum_nil, true_iff]
    exact Nat.le_zero.mp hn
  | cons a l ih =>
    rw [List.map_cons, List.sum_cons] at hn ⊢
    by_cases h : size a ≤ n
    · rw [complete_cons_of_le size h, List.length_cons, List.length_cons, Nat.add_right_cancel_iff,
        ih (by omega)]
      omega
    · rw [complete_cons_of_lt size (by omega)]
      refine iff_of_false (by simp) ?_
      omega

end

/-! ## Merged streams -/

section

variable {κ ρ δ : Type} [DecidableEq κ]

/-- The items of the stream `c`. -/
def part (c : κ) (ps : List (κ × ρ)) : List ρ := (ps.filter fun p => p.1 = c).map Prod.snd

theorem part_append (c : κ) (ps qs : List (κ × ρ)) :
    part c (ps ++ qs) = part c ps ++ part c qs := by
  simp [part]

/-- By induction on the merged list: its first item is the first one of its stream. -/
theorem exists_merge (key : δ → κ) (f : κ → ρ → δ) (ds : List δ) (rs : κ → List ρ)
    (h : ∀ c, ds.filter (fun d => key d = c) = (rs c).map (f c)) :
    ∃ ps : List (κ × ρ), ds = ps.map (fun p => f p.1 p.2) ∧ ∀ c, part c ps = rs c := by
  induction ds generalizing rs with
  | nil =>
    refine ⟨[], rfl, fun c => ?_⟩
    exact (List.map_eq_nil_iff.mp (h c).symm).symm
  | cons d ds ih =>
    have hfirst := h (key d)
    rw [List.filter_cons_of_pos (by simp)] at hfirst
    obtain ⟨r, rest, hrs, hr, hrest⟩ := List.map_eq_cons_iff.mp hfirst.symm
    obtain ⟨ps, hps, hparts⟩ := ih (Function.update rs (key d) rest) fun c => by
      by_cases hc : c = key d
      · rw [hc, Function.update_self]
        exact hrest.symm
      · rw [Function.update_of_ne hc, ← h c, List.filter_cons_of_neg (by simpa using Ne.symm hc)]
    refine ⟨(key d, r) :: ps, ?_, fun c => ?_⟩
    · rw [List.map_cons, ← hps, hr]
    · have hpart := hparts c
      by_cases hc : c = key d
      · subst hc
        rw [Function.update_self] at hpart
        rw [hrs, ← hpart]
        simp [part]
      · rw [Function.update_of_ne hc] at hpart
        rw [← hpart]
        simp [part, Ne.symm hc]

/-- The items of a stream, with their key. -/
theorem filter_eq_part (c : κ) (ps : List (κ × ρ)) :
    ps.filter (fun p => p.1 = c) = (part c ps).map fun r => (c, r) := by
  have hkey : ∀ p ∈ ps.filter (fun p => p.1 = c), ((c, p.2) : κ × ρ) = p := by
    intro p hp
    rw [← of_decide_eq_true (List.mem_filter.mp hp).2]
  unfold part
  rw [List.map_map]
  conv_lhs => rw [← List.map_id (ps.filter _)]
  exact List.map_congr_left fun p hp => (hkey p hp).symm

/-- Merged streams of images. -/
theorem exists_of_part_map {σ : Type} (f : σ → ρ) (ps : List (κ × ρ)) (rs : κ → List σ)
    (h : ∀ c, part c ps = (rs c).map f) :
    ∃ qs : List (κ × σ), ps = qs.map (fun q => (q.1, f q.2)) ∧ ∀ c, part c qs = rs c :=
  exists_merge Prod.fst (fun c r => (c, f r)) ps rs fun c => by
    rw [filter_eq_part, h c, List.map_map]
    rfl

/-- A list whose images are at most one item. -/
theorem exists_of_map_toList {σ : Type} (f : σ → ρ) {l : List σ} {o : Option ρ}
    (h : l.map f = o.toList) : ∃ o' : Option σ, l = o'.toList ∧ (o' = none ↔ o = none) := by
  cases o with
  | none => exact ⟨none, List.map_eq_nil_iff.mp h, iff_of_true rfl rfl⟩
  | some r =>
    obtain ⟨a, rest, rfl, -, hrest⟩ := List.map_eq_cons_iff.mp h
    rw [List.map_eq_nil_iff] at hrest
    subst hrest
    exact ⟨some a, rfl, iff_of_false (fun heq => by cases heq) fun heq => by cases heq⟩

/-- The first item of the merge is the first one of its stream. -/
theorem head_part {first : Option (κ × ρ)} {rest : List (κ × ρ)} {rs : κ → List ρ}
    (h : ∀ c, part c (first.toList ++ rest) = rs c) :
    ∀ p ∈ first, (rs p.1).head? = some p.2 := by
  rintro p rfl
  rw [← h p.1]
  simp [part]

end

end Merge
