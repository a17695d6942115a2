import Mathlib.Data.List.Chain
import Mathlib.Data.List.Nodup
import Mathlib.Logic.Function.Basic
import Mathlib.Tactic.Common

/-!
# Circular doubly linked lists

`Path f l` says that the pointers `f` lead from each element of `l` to the next
one.  `Cycle next prev h l` says that `h` is the head of a ring with the elements
`l`: forward from `h` through `l` and back to `h` by `next`, and the same way
back by `prev`.

A path reads the pointers of all its elements but the last, and so it does not
notice a change of any other pointer (`Path.congr`, `Path.update`).  The edits of a
ring come from that and from cutting paths at an element (`Path.append_iff`).
-/

namespace Ring

variable {α : Type}

/-- From each element to the next one. -/
def Path (f : α → Option α) (l : List α) : Prop := l.IsChain fun x y => f x = some y

/-- A ring with the head `h` and the elements `l`. -/
structure Cycle (next prev : α → Option α) (h : α) (l : List α) : Prop where
  nodup : (h :: l).Nodup
  fwd : Path next (h :: (l ++ [h]))
  back : Path prev (h :: (l.reverse ++ [h]))

section

variable {f g : α → Option α} {s t l : List α} {x y : α}

theorem Path.append_iff : Path f (s ++ x :: t) ↔ Path f (s ++ [x]) ∧ Path f (x :: t) :=
  List.isChain_split

theorem Path.cons_iff : Path f (x :: y :: t) ↔ f x = some y ∧ Path f (y :: t) :=
  List.isChain_cons_cons

theorem Path.single (f : α → Option α) (x : α) : Path f [x] := List.isChain_singleton x

/-- A path reads the pointers of all its elements but the last. -/
theorem Path.congr (h : Path f l) (hfg : ∀ a ∈ l.dropLast, g a = f a) : Path g l := by
  induction l with
  | nil => exact List.isChain_nil
  | cons x l ih =>
    cases l with
    | nil => exact Path.single g x
    | cons y l =>
      obtain ⟨hx, hl⟩ := Path.cons_iff.mp h
      refine Path.cons_iff.mpr ⟨?_, ih hl fun a ha => hfg a (List.mem_cons_of_mem x ha)⟩
      rw [hfg x List.mem_cons_self, hx]

/-- All elements of a path but the last have a pointer. -/
theorem Path.isSome {a : α} (h : Path f l) (ha : a ∈ l.dropLast) : (f a).isSome := by
  induction l with
  | nil => cases ha
  | cons x l ih =>
    cases l with
    | nil => cases ha
    | cons y l =>
      obtain ⟨hx, hl⟩ := Path.cons_iff.mp h
      rcases List.mem_cons.mp ha with rfl | ha
      · rw [hx]
        rfl
      · exact ih hl ha

variable [DecidableEq α]

/-- A change of another pointer. -/
theorem Path.update {a : α} {v : Option α} (h : Path f (s ++ [x])) (ha : a ∉ s) :
    Path (Function.update f a v) (s ++ [x]) := by
  refine h.congr fun b hb => Function.update_of_ne ?_ ..
  rw [List.dropLast_concat] at hb
  rintro rfl
  exact ha hb

/-- The last pointer of a path is turned to somewhere else. -/
theorem Path.redirect (h : Path f (s ++ [x])) (hs : x ∉ s) (z : α) :
    Path (Function.update f x (some z)) (s ++ [x, z]) :=
  Path.append_iff.mpr ⟨h.update hs, Path.cons_iff.mpr ⟨Function.update_self .., Path.single ..⟩⟩

end

namespace Cycle

variable {next prev : α → Option α} {h q : α} {l l₁ l₂ : List α}

/-- A ring read backwards. -/
theorem symm (hc : Cycle next prev h l) : Cycle prev next h l.reverse where
  nodup := by
    have hnd := List.nodup_cons.mp hc.nodup
    exact List.nodup_cons.mpr
      ⟨fun hm => hnd.1 (List.mem_reverse.mp hm), List.nodup_reverse.mpr hnd.2⟩
  fwd := hc.back
  back := by
    rw [List.reverse_reverse]
    exact hc.fwd

theorem nodup_tail (hc : Cycle next prev h l) : l.Nodup := (List.nodup_cons.mp hc.nodup).2

theorem head_notMem (hc : Cycle next prev h l) : h ∉ l := (List.nodup_cons.mp hc.nodup).1

/-- The pointers of a ring are there. -/
theorem next_isSome (hc : Cycle next prev h l) {a : α} (ha : a ∈ h :: l) : (next a).isSome := by
  refine hc.fwd.isSome ?_
  rw [← List.cons_append, List.dropLast_concat]
  exact ha

/-- Another ring does not notice what happens to pointers outside of it. -/
theorem congr {next' prev' : α → Option α} (hc : Cycle next prev h l)
    (hn : ∀ a ∈ h :: l, next' a = next a) (hp : ∀ a ∈ h :: l, prev' a = prev a) :
    Cycle next' prev' h l where
  nodup := hc.nodup
  fwd := hc.fwd.congr fun a ha => hn a (by rwa [← List.cons_append, List.dropLast_concat] at ha)
  back := hc.back.congr fun a ha => hp a (by
    rw [← List.cons_append, List.dropLast_concat] at ha
    rcases List.mem_cons.mp ha with rfl | ha
    · exact List.mem_cons_self
    · exact List.mem_cons_of_mem h (List.mem_reverse.mp ha))

/-- The element in front of an element, with what is in front of that. -/
theorem exists_before (h : α) (l : List α) : ∃ s z, h :: l = s ++ [z] :=
  ⟨_, _, (List.dropLast_append_getLast (List.cons_ne_nil h l)).symm⟩

/-- The element behind an element. -/
theorem exists_after (l : List α) (h : α) : ∃ z t, l ++ [h] = z :: t := by
  cases l with
  | nil => exact ⟨h, [], rfl⟩
  | cons z l => exact ⟨z, l ++ [h], rfl⟩

/-- Who is in front of the head. -/
theorem prev_head (hc : Cycle next prev h l) {s : List α} {z : α} (hz : h :: l = s ++ [z]) :
    prev h = some z := by
  have hrev : l.reverse ++ [h] = z :: s.reverse := by
    rw [← List.reverse_cons, hz, List.reverse_concat]
  have hback := hc.back
  rw [hrev] at hback
  exact (Path.cons_iff.mp hback).1

/-- Who is behind an element. -/
theorem next_of_split (hc : Cycle next prev h (l₁ ++ q :: l₂)) {z : α} {t : List α}
    (hz : l₂ ++ [h] = z :: t) : next q = some z := by
  have hfwd := hc.fwd
  rw [List.append_assoc, List.cons_append, hz, ← List.cons_append] at hfwd
  exact (Path.cons_iff.mp (Path.append_iff.mp hfwd).2).1

/-- Who is in front of it. -/
theorem prev_of_split (hc : Cycle next prev h (l₁ ++ q :: l₂)) {s : List α} {z : α}
    (hz : h :: l₁ = s ++ [z]) : prev q = some z := by
  have hsymm := hc.symm
  rw [List.reverse_append, List.reverse_cons, List.append_assoc, List.singleton_append] at hsymm
  refine hsymm.next_of_split (t := s.reverse) ?_
  rw [← List.reverse_cons, hz, List.reverse_concat]

variable [DecidableEq α]

/-- A ring of its own. -/
theorem self (next prev : α → Option α) (h : α) :
    Cycle (Function.update next h (some h)) (Function.update prev h (some h)) h [] where
  nodup := List.nodup_singleton h
  fwd := Path.cons_iff.mpr ⟨Function.update_self .., Path.single ..⟩
  back := Path.cons_iff.mpr ⟨Function.update_self .., Path.single ..⟩

/-- A new last element. -/
theorem insert_tail (hc : Cycle next prev h l) (hq : q ∉ h :: l) {s : List α} {z : α}
    (hz : h :: l = s ++ [z]) :
    Cycle (Function.update (Function.update next q (some h)) z (some q))
      (Function.update (Function.update prev q (some z)) h (some q)) h (l ++ [q]) := by
  have hnd := hc.nodup
  have hqz : q ≠ z := by
    rintro rfl
    exact hq (hz ▸ List.mem_append_right s List.mem_cons_self)
  have hqh : q ≠ h := fun heq => hq (heq ▸ List.mem_cons_self)
  have hql : q ∉ l := fun hm => hq (List.mem_cons_of_mem h hm)
  refine ⟨?_, ?_, ?_⟩
  · rw [← List.cons_append]
    exact List.nodup_append.mpr ⟨hnd, List.nodup_singleton q, fun a ha b hb hab =>
      hq (List.mem_singleton.mp hb ▸ hab ▸ ha)⟩
  · have hfwd := hc.fwd
    have hcyc : h :: (l ++ [q] ++ [h]) = s ++ [z] ++ q :: [h] := by
      rw [← hz]
      simp
    rw [hz] at hnd hq
    have hzs : z ∉ s := fun hm => (List.nodup_append.mp hnd).2.2 z hm z List.mem_cons_self rfl
    have hqs : q ∉ s := fun hm => hq (List.mem_append_left _ hm)
    rw [← List.cons_append, hz, List.append_assoc] at hfwd
    rw [hcyc]
    refine Path.append_iff.mpr ⟨?_, Path.cons_iff.mpr ⟨?_, Path.single ..⟩⟩
    · rw [List.append_assoc]
      exact ((Path.append_iff.mp hfwd).1.update hqs).redirect hzs q
    · rw [Function.update_of_ne hqz, Function.update_self]
  · have hback := hc.back
    have hrev : l.reverse ++ [h] = z :: s.reverse := by
      rw [← List.reverse_cons, hz, List.reverse_concat]
    have htail : Path prev (l.reverse ++ [h]) := by
      rw [hrev] at hback ⊢
      exact (Path.cons_iff.mp hback).2
    have hcyc : (l ++ [q]).reverse ++ [h] = q :: (l.reverse ++ [h]) := by
      rw [List.reverse_concat, List.cons_append]
    have hnew : Path (Function.update (Function.update prev q (some z)) h (some q))
        (l.reverse ++ [h]) :=
      (htail.update (by simpa using hql)).update (by simpa using hc.head_notMem)
    rw [hcyc]
    refine Path.cons_iff.mpr ⟨Function.update_self .., ?_⟩
    rw [hrev] at hnew ⊢
    refine Path.cons_iff.mpr ⟨?_, hnew⟩
    rw [Function.update_of_ne hqh, Function.update_self]

/-- An element is taken out. -/
theorem remove (hc : Cycle next prev h (l₁ ++ q :: l₂)) {s t : List α} {x y : α}
    (hx : h :: l₁ = s ++ [x]) (hy : l₂ ++ [h] = y :: t) :
    Cycle (Function.update next x (some y)) (Function.update prev y (some x)) h (l₁ ++ l₂) := by
  -- one direction; the other one is the same in the ring read backwards
  have hpath : ∀ {f p : α → Option α} {a b c d : List α} {x y : α}, Cycle f p h (a ++ q :: b) →
      h :: a = c ++ [x] → b ++ [h] = y :: d →
      Path (Function.update f x (some y)) (h :: (a ++ b ++ [h])) := by
    intro f p a b c d x y hc hx hy
    have hfwd := hc.fwd
    have hnd := hc.nodup
    rw [← List.cons_append, hx, List.append_assoc, List.singleton_append] at hnd
    have hnd' := List.nodup_append.mp hnd
    have hxc : x ∉ c := fun hm => hnd'.2.2 x hm x List.mem_cons_self rfl
    have hxb : x ∉ b := fun hm =>
      (List.nodup_cons.mp hnd'.2.1).1 (List.mem_cons_of_mem q hm)
    rw [List.append_assoc, List.cons_append, ← List.cons_append, hx, List.append_assoc,
      List.singleton_append] at hfwd
    obtain ⟨hfst, hrest⟩ := Path.append_iff.mp hfwd
    have hb : Path f (b ++ [h]) := by
      have hqb := (Path.cons_iff.mp hrest).2
      rw [hy] at hqb ⊢
      exact (Path.cons_iff.mp hqb).2
    have hnew : Path (Function.update f x (some y)) (b ++ [h]) := hb.update hxb
    have hcyc : h :: (a ++ b ++ [h]) = c ++ [x] ++ (b ++ [h]) := by
      rw [← hx]
      simp
    rw [hcyc]
    rw [hy] at hnew ⊢
    refine Path.append_iff.mpr ⟨?_, hnew⟩
    rw [List.append_assoc]
    exact hfst.redirect hxc y
  refine ⟨?_, hpath hc hx hy, ?_⟩
  · have hnd := hc.nodup
    exact hnd.sublist (List.cons_sublist_cons.mpr (List.append_sublist_append_left l₁ |>.mpr
      (List.sublist_cons_self q l₂)))
  · have hsymm := hc.symm
    rw [List.reverse_append, List.reverse_cons, List.append_assoc, List.singleton_append] at hsymm
    rw [List.reverse_append]
    refine hpath hsymm (c := t.reverse) (d := s.reverse) ?_ ?_
    · have hrev := congrArg List.reverse hy
      rwa [List.reverse_concat, List.reverse_cons] at hrev
    · rw [← List.reverse_cons, hx, List.reverse_concat]

end Cycle

end Ring
