import Mathlib.Logic.Function.Basic
import OCServer.Lib.Block

/-!
# Heaps

A `Heap α` has a cell for each address.  `alloc` hands out an address that
has not been handed out before, and the cell of a released address is empty
for ever, so that a pointer that outlives its memory is seen: an access to
an empty cell is a fault.

A cell can hold anything; `memcpy` and `realloc` are for cells that hold
blocks.  Each operation has a lemma for the cell it is about and one for all
others.
-/

/-- Cells at addresses, `next` of which have been handed out. -/
structure Heap (α : Type) where
  cell : Nat → Option α
  next : Nat
  fresh : ∀ a, next ≤ a → cell a = none

namespace Heap

variable {α : Type}

/-- Nothing has been allocated. -/
def empty : Heap α := ⟨fun _ => none, 0, fun _ _ => rfl⟩

/-- A new cell that holds `v`, and its address. -/
def alloc (h : Heap α) (v : α) : Nat × Heap α :=
  (h.next, ⟨Function.update h.cell h.next (some v), h.next + 1, by
    intro a ha
    rw [Function.update_of_ne (by omega)]
    exact h.fresh a (by omega)⟩)

/-- Writes to one cell, if it is there. -/
def modify (h : Heap α) (a : Nat) (f : α → Option α) : Heap α :=
  ⟨Function.update h.cell a ((h.cell a).bind f), h.next, by
    intro b hb
    by_cases hba : b = a
    · rw [hba, Function.update_self, ← hba, h.fresh b hb]
      rfl
    · rw [Function.update_of_ne hba, h.fresh b hb]⟩

/-- `*a`. -/
def get (h : Heap α) (a : Nat) : Except Fault α :=
  match h.cell a with
  | some v => .ok v
  | none => .error .outOfBounds

/-- `*a = v`. -/
def set (h : Heap α) (a : Nat) (v : α) : Except Fault (Heap α) := do
  let _ ← h.get a
  pure (h.modify a fun _ => some v)

/-- `free( a )`. -/
def free (h : Heap α) (a : Nat) : Except Fault (Heap α) := do
  let _ ← h.get a
  pure (h.modify a fun _ => none)

/-- `memcpy( a, src, src.length )`. -/
def memcpy (h : Heap Block) (a : Nat) (src : List UInt8) : Except Fault (Heap Block) := do
  let b ← h.get a
  let b ← b.write 0 src
  h.set a b

/-- `realloc( a, n )`, which moves the block unless it can stay `inPlace`. -/
def realloc (h : Heap Block) (a n : Nat) (inPlace : Bool) : Except Fault (Nat × Heap Block) := do
  let b ← h.get a
  if inPlace then pure (a, h.modify a fun _ => some (b.realloc n))
  else pure ((h.modify a fun _ => none).alloc (b.realloc n))

section

variable {h : Heap α} {a b : Nat} {v w : α}

theorem ne_next (hcell : h.cell a = some v) : a ≠ h.next := by
  rintro rfl
  rw [h.fresh h.next (Nat.le_refl _)] at hcell
  cases hcell

@[simp] theorem alloc_cell_self (h : Heap α) (v : α) :
    (h.alloc v).2.cell h.next = some v := Function.update_self ..

theorem alloc_cell_of_ne (hne : b ≠ h.next) : (h.alloc v).2.cell b = h.cell b :=
  Function.update_of_ne hne ..

theorem modify_cell_self {f : α → Option α} (hcell : h.cell a = some v) :
    (h.modify a f).cell a = f v := by
  show Function.update _ _ _ a = _
  rw [Function.update_self, hcell]
  rfl

theorem modify_cell_of_ne {f : α → Option α} (hne : b ≠ a) :
    (h.modify a f).cell b = h.cell b :=
  Function.update_of_ne hne ..

theorem get_eq (hcell : h.cell a = some v) : h.get a = .ok v := by
  rw [get, hcell]

theorem set_eq (hcell : h.cell a = some v) (w : α) :
    h.set a w = .ok (h.modify a fun _ => some w) := by
  rw [set, get_eq hcell]
  rfl

theorem free_eq (hcell : h.cell a = some v) : h.free a = .ok (h.modify a fun _ => none) := by
  rw [free, get_eq hcell]
  rfl

end

section

variable {h : Heap Block} {a n : Nat} {b : Block}

/-- A copy that fits into its block. -/
theorem memcpy_spec {src : List UInt8} (hcell : h.cell a = some b) (hlen : src.length ≤ b.len) :
    ∃ b' h', h.memcpy a src = .ok h' ∧ h'.cell a = some b' ∧ b'.len = b.len ∧
      b'.read 0 src.length = .ok src ∧ ∀ c, c ≠ a → h'.cell c = h.cell c := by
  obtain ⟨b', hwrite, hlen', hinit, htake⟩ :=
    b.write_take (o := 0) (l := src) (by omega) (Nat.zero_le _)
  rw [Nat.zero_add] at hinit htake
  refine ⟨b', h.modify a fun _ => some b', ?_, modify_cell_self hcell, hlen', ?_,
    fun c hc => modify_cell_of_ne hc⟩
  · rw [memcpy, get_eq hcell]
    show (b.write 0 src >>= _) = _
    rw [hwrite]
    exact set_eq hcell b'
  · rw [Block.read_take (Nat.le_of_eq (Nat.zero_add _)) hinit, List.drop_zero, htake,
      List.take_zero, List.nil_append, List.take_length]

/-- The block stays, or it goes to an address that was empty. -/
theorem realloc_spec (hcell : h.cell a = some b) (n : Nat) (inPlace : Bool) :
    ∃ a' h', h.realloc a n inPlace = .ok (a', h') ∧ h'.cell a' = some (b.realloc n) ∧
      ∀ c, c ≠ a → h.cell c ≠ none → c ≠ a' ∧ h'.cell c = h.cell c := by
  unfold realloc
  rw [get_eq hcell]
  cases inPlace with
  | true =>
    exact ⟨a, _, rfl, modify_cell_self hcell, fun c hc _ => ⟨hc, modify_cell_of_ne hc⟩⟩
  | false =>
    let freed := h.modify a fun _ => none
    refine ⟨h.next, (freed.alloc (b.realloc n)).2, rfl, alloc_cell_self freed _, ?_⟩
    intro c hc hlive
    have hne : c ≠ h.next := fun heq => hlive (h.fresh c (Nat.le_of_eq heq.symm))
    exact ⟨hne, (alloc_cell_of_ne (h := freed) hne).trans (modify_cell_of_ne hc)⟩

end

end Heap
