import Mathlib.Computability.StateTransition

/-!
# Scans over tagged fields

A message of tagged fields, as far as a reader is concerned that skips what
it does not know: a `Format` says what a header is and what follows the
header of a type.  A scan is a machine with a stack of items that are still
to be skipped, over what is left of the input.  It halts where it has no
next step, also in front of a move that is not within what is left.

`Follows` connects a program with the scan: the program goes along with it,
or throws where the scan halts.  The rules compose this along `>>=` and
along a counted loop.
-/

namespace FieldScan

open Relation StateTransition

variable {T α : Type}

/-- What follows the header of a field. -/
inductive Body
  | move (len : Int)
  | fields (n : Nat)
  | members
  | invalid
  deriving DecidableEq

/-- The headers, what follows them, and the type that closes a struct. -/
structure Format (T α : Type) where
  head : List α → Option ((T × Int) × List α)
  body : T → List α → Option (Body × List α)
  closes : T → Prop
  [decCloses : DecidablePred closes]

/-- What is still to be skipped: a field, what follows its header, the
fields up to the end of the struct, or those below a tag. -/
inductive Item (T : Type)
  | field
  | body (type : T)
  | members
  | search (tag : Int)

/-- Parts, and what is left of the input. -/
abbrev State (T α : Type) := List (Item T) × List α

variable (F : Format T α)

/-- What a body leaves to skip. -/
def Format.enter (k : List (Item T)) (p : Body × List α) : Option (State T α) :=
  match p.1 with
  | .move len =>
    if 0 ≤ len ∧ len ≤ p.2.length then some (k, p.2.drop len.toNat) else none
  | .fields n => some (List.replicate n .field ++ k, p.2)
  | .members => some (.members :: k, p.2)
  | .invalid => none

/-- What the first item comes to. -/
def Format.next (k : List (Item T)) (l : List α) : Item T → Option (State T α)
  | .field => (F.head l).map fun h => (.body h.1.1 :: k, h.2)
  | .body type => (F.body type l).bind (Format.enter k)
  | .members =>
    haveI := F.decCloses
    (F.head l).map fun h =>
      (.body h.1.1 :: if F.closes h.1.1 then k else .members :: k, h.2)
  | .search tag =>
    haveI := F.decCloses
    (F.head l).bind fun h =>
      if F.closes h.1.1 ∨ tag ≤ h.1.2 then none
      else some (.body h.1.1 :: .search tag :: k, h.2)

/-- A step of the scan. -/
def Format.step : State T α → Option (State T α)
  | ([], _) => none
  | (p :: k, l) => F.next k l p

/-- The scan has no step at this item. -/
def Halted (p : Item T) (l : List α) : Prop := ∀ k, F.next k l p = none

/-- The item is a field that declares a move of `len`, in front of `r`. -/
def Declares (p : Item T) (l : List α) (len : Int) (r : List α) : Prop :=
  ∃ type, p = .body type ∧ F.body type l = some (.move len, r)

/-- The scan comes to such a field. -/
def Meets (st : State T α) (len : Int) (r : List α) : Prop :=
  ∃ p k l, Reaches F.step st (p :: k, l) ∧ Declares F p l len r

variable {F}

theorem enter_move {k : List (Item T)} {len : Int} {r : List α}
    (h : 0 ≤ len ∧ len ≤ r.length) :
    Format.enter k (.move len, r) = some (k, r.drop len.toNat) := if_pos h

theorem Declares.unique {p : Item T} {l r r' : List α} {len len' : Int}
    (h : Declares F p l len r) (h' : Declares F p l len' r') : len = len' ∧ r = r' := by
  rcases h with ⟨type, rfl, hbody⟩
  rcases h' with ⟨type', hp, hbody'⟩
  cases hp
  rw [hbody] at hbody'
  cases hbody'
  exact ⟨rfl, rfl⟩

/-- A scan halts in one place. -/
theorem reaches_unique {st a b : State T α} (h : Reaches F.step st a) (ha : F.step a = none)
    (h' : Reaches F.step st b) (hb : F.step b = none) : a = b := by
  have hstop : ∀ {a b : State T α}, F.step a = none → Reaches F.step a b → a = b := by
    intro a b ha hrun
    rcases ReflTransGen.cases_head hrun with heq | ⟨c, hstep, _⟩
    · exact heq
    · cases ha.symm.trans hstep
  rcases reaches_total h h' with hrun | hrun
  · exact hstop ha hrun
  · exact (hstop hb hrun).symm

/-- What a scan meets is at its first item or behind its first step. -/
theorem Meets.cases {p : Item T} {k : List (Item T)} {l r : List α} {len : Int}
    (h : Meets F (p :: k, l) len r) :
    Declares F p l len r ∨ ∃ st, F.step (p :: k, l) = some st ∧ Meets F st len r := by
  rcases h with ⟨q, k', l', hreach, hdecl⟩
  rcases ReflTransGen.cases_head hreach with heq | ⟨st, hstep, hrest⟩
  · cases heq
    exact Or.inl hdecl
  · exact Or.inr ⟨st, hstep, q, k', l', hrest, hdecl⟩

/-- A move that is not within what is left. -/
theorem Declares.halted {p : Item T} {l r : List α} {len : Int} (h : Declares F p l len r)
    (hlen : ¬(0 ≤ len ∧ len ≤ r.length)) : Halted F p l := by
  rcases h with ⟨type, rfl, hbody⟩
  intro k
  show (F.body type l).bind (Format.enter k) = none
  rw [hbody]
  exact if_neg hlen

/-! ## Programs along a scan -/

section

variable {σ : Type} (F) (On : σ → List α → Prop)

/-- A program skips the items `p` and is done in a state with `ok`, or the
scan halts on the way and `out` says what the program does then.  `out` is
given the item where the scan halts and what else of `p` it has not come
to. -/
def Follows (ok : σ → Prop) (out : Item T → List (Item T) → List α → Prop)
    (p : List (Item T)) (l : List α) : Prop :=
  (∃ s r, ok s ∧ On s r ∧ r.length ≤ l.length ∧ ∀ k, Reaches F.step (p ++ k, l) (k, r)) ∨
  ∃ q k' l', (∀ k, Reaches F.step (p ++ k, l) (q :: (k' ++ k), l')) ∧ Halted F q l' ∧
    l'.length ≤ l.length ∧ out q k' l'

variable {F On} {ok ok' : σ → Prop} {out out' : Item T → List (Item T) → List α → Prop}

theorem Follows.nil {s : σ} {l : List α} (hok : ok s) (hon : On s l) :
    Follows F On ok out [] l :=
  Or.inl ⟨s, l, hok, hon, Nat.le_refl _, fun _ => ReflTransGen.refl⟩

/-- The scan halts here. -/
theorem Follows.halt {p : Item T} {l : List α} (hhalt : Halted F p l) (hout : out p [] l) :
    Follows F On ok out [p] l :=
  Or.inr ⟨p, [], l, fun _ => ReflTransGen.refl, hhalt, Nat.le_refl _, hout⟩

theorem Follows.imp {p : List (Item T)} {l : List α} (h : Follows F On ok out p l)
    (hok : ∀ s r, ok s → On s r → r.length ≤ l.length → ok' s)
    (hout : ∀ q k r, r.length ≤ l.length → out q k r → out' q k r) :
    Follows F On ok' out' p l := by
  rcases h with ⟨s, r, hs, hon, hlen, hreach⟩ | ⟨q, k', r, hreach, hhalt, hlen, hres⟩
  · exact Or.inl ⟨s, r, hok s r hs hon hlen, hon, hlen, hreach⟩
  · exact Or.inr ⟨q, k', r, hreach, hhalt, hlen, hout q k' r hlen hres⟩

/-- A step of the scan. -/
theorem Follows.step {p p' : List (Item T)} {l l' : List α} (h : Follows F On ok out p' l')
    (hstep : ∀ k, F.step (p ++ k, l) = some (p' ++ k, l')) (hle : l'.length ≤ l.length) :
    Follows F On ok out p l := by
  rcases h with ⟨s, r, hs, hon, hlen, hreach⟩ | ⟨q, k', r, hreach, hhalt, hlen, hres⟩
  · exact Or.inl ⟨s, r, hs, hon, Nat.le_trans hlen hle,
      fun k => ReflTransGen.head (hstep k) (hreach k)⟩
  · exact Or.inr ⟨q, k', r, fun k => ReflTransGen.head (hstep k) (hreach k), hhalt,
      Nat.le_trans hlen hle, hres⟩

/-- Some items after the others. -/
theorem Follows.bind {p q : List (Item T)} {l : List α} (h : Follows F On ok out p l)
    (hout : ∀ t k r, out t k r → out' t (k ++ q) r)
    (hrest : ∀ s r, ok s → On s r → r.length ≤ l.length → Follows F On ok' out' q r) :
    Follows F On ok' out' (p ++ q) l := by
  have hassoc : ∀ k, p ++ q ++ k = p ++ (q ++ k) := fun k => List.append_assoc p q k
  rcases h with ⟨s, r, hs, hon, hlen, hreach⟩ | ⟨t, k', r, hreach, hhalt, hlen, hres⟩
  · rcases hrest s r hs hon hlen with ⟨s', r', hs', hon', hlen', hreach'⟩ |
      ⟨t, k', r', hreach', hhalt, hlen', hres⟩
    · refine Or.inl ⟨s', r', hs', hon', Nat.le_trans hlen' hlen, fun k => ?_⟩
      rw [hassoc]
      exact (hreach (q ++ k)).trans (hreach' k)
    · refine Or.inr ⟨t, k', r', fun k => ?_, hhalt, Nat.le_trans hlen' hlen, hres⟩
      rw [hassoc]
      exact (hreach (q ++ k)).trans (hreach' k)
  · refine Or.inr ⟨t, k' ++ q, r, fun k => ?_, hhalt, hlen, hout t k' r hres⟩
    rw [hassoc, List.append_assoc]
    exact hreach (q ++ k)

end

end FieldScan
