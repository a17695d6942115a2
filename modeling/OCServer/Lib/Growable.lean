import Mathlib.Data.List.Basic
import Mathlib.Tactic.Common

/-!
# Growable buffers

A buffer of a fixed capacity that is replaced by a larger one when room is
reserved.  A caller makes two kinds of calls: `reserve len`, which sees to
it that `len` more items fit, and `put`, which appends and fails when the
items do not fit.

`Takes r ops r'` says that the calls `ops` never fail where at least `r`
more items fit, and that at least `r'` more fit after them.  It does not
name the buffer or the policy by which it grows: `Buf.run_of_takes` says
that such calls succeed on every buffer, under every policy, and that the
growing cannot be seen in the contents.
-/

namespace Growable

variable {α : Type}

/-- A call on a buffer. -/
inductive Op (α : Type)
  | reserve (len : Nat)
  | put (items : List α)

/-- The items that the calls put. -/
def puts : List (Op α) → List α
  | [] => []
  | .reserve _ :: ops => puts ops
  | .put items :: ops => items ++ puts ops

/-! ## Calls that make their own room -/

/-- Where `r` more items fit, none of the calls fails, and `r'` more items
fit after them. -/
def Takes : Nat → List (Op α) → Nat → Prop
  | r, [], r' => r' ≤ r
  | r, .reserve len :: ops, r' => Takes (max r len) ops r'
  | r, .put items :: ops, r' => items.length ≤ r ∧ Takes (r - items.length) ops r'

/-- More room before, and less asked for after. -/
theorem Takes.mono {ops : List (Op α)} {r s r' s' : Nat} (h : Takes r ops r') (hrs : r ≤ s)
    (hrs' : s' ≤ r') : Takes s ops s' := by
  induction ops generalizing r s with
  | nil =>
    have hle : r' ≤ r := h
    show s' ≤ s
    omega
  | cons op ops ih =>
    cases op with
    | reserve len => exact ih h (show max r len ≤ max s len by omega)
    | put items =>
      exact ⟨Nat.le_trans h.1 hrs, ih h.2 (Nat.sub_le_sub_right hrs items.length)⟩

/-- One list of calls after the other. -/
theorem Takes.append {ops ops' : List (Op α)} {r r' r'' : Nat} (h : Takes r ops r')
    (h' : Takes r' ops' r'') : Takes r (ops ++ ops') r'' := by
  induction ops generalizing r with
  | nil => exact h'.mono h (Nat.le_refl r'')
  | cons op ops ih =>
    cases op with
    | reserve len => exact ih h
    | put items => exact ⟨h.1, ih h.2⟩

/-! ## Buffers -/

/-- How a buffer grows: the new capacity, from the old one and the number of
items to make room for. -/
structure Policy where
  grow : Nat → Nat → Nat
  le_grow : ∀ capacity len, capacity + len ≤ grow capacity len

/-- A buffer whose contents fit. -/
structure Buf (α : Type) where
  capacity : Nat
  contents : List α
  fits : contents.length ≤ capacity

namespace Buf

/-- A buffer without contents. -/
def empty (capacity : Nat) : Buf α := ⟨capacity, [], Nat.zero_le capacity⟩

/-- How many more items fit. -/
def room (b : Buf α) : Nat := b.capacity - b.contents.length

def reserve (p : Policy) (b : Buf α) (len : Nat) : Buf α :=
  if b.room < len then
    ⟨p.grow b.capacity len, b.contents,
      Nat.le_trans b.fits (Nat.le_trans (Nat.le_add_right _ len) (p.le_grow _ len))⟩
  else b

def put (b : Buf α) (items : List α) : Option (Buf α) :=
  if h : b.contents.length + items.length ≤ b.capacity then
    some ⟨b.capacity, b.contents ++ items, by rwa [List.length_append]⟩
  else none

def step (p : Policy) (b : Buf α) : Op α → Option (Buf α)
  | .reserve len => some (b.reserve p len)
  | .put items => b.put items

def run (p : Policy) (b : Buf α) : List (Op α) → Option (Buf α)
  | [] => some b
  | op :: ops => (b.step p op).bind fun b => b.run p ops

/-- The capacities of the new buffers of a run. -/
def sizes (p : Policy) (b : Buf α) : List (Op α) → List Nat
  | [] => []
  | .reserve len :: ops =>
    if b.room < len then p.grow b.capacity len :: (b.reserve p len).sizes p ops
    else b.sizes p ops
  | .put items :: ops =>
    match b.put items with
    | some b => b.sizes p ops
    | none => []

variable {p : Policy}

@[simp] theorem reserve_contents (b : Buf α) (len : Nat) :
    (b.reserve p len).contents = b.contents := by
  unfold reserve
  split <;> rfl

theorem grow_mem_sizes {b : Buf α} {len : Nat} (h : b.room < len) (ops : List (Op α)) :
    p.grow b.capacity len ∈ b.sizes p (.reserve len :: ops) := by
  rw [sizes, if_pos h]
  exact List.mem_cons_self

theorem sizes_reserve_subset (b : Buf α) (len : Nat) (ops : List (Op α)) :
    (b.reserve p len).sizes p ops ⊆ b.sizes p (.reserve len :: ops) := by
  rw [sizes]
  split
  · exact List.subset_cons_self _ _
  · next h =>
    rw [reserve, if_neg h]
    exact List.Subset.refl _

theorem sizes_put {b b' : Buf α} {items : List α} (h : b.put items = some b')
    (ops : List (Op α)) : b.sizes p (.put items :: ops) = b'.sizes p ops := by
  rw [sizes, h]

theorem le_room_reserve (b : Buf α) (len : Nat) : max b.room len ≤ (b.reserve p len).room := by
  have hgrow := p.le_grow b.capacity len
  have hfits := b.fits
  unfold reserve
  split
  · simp only [room] at *
    omega
  · omega

theorem put_of_le {b : Buf α} {items : List α} (h : items.length ≤ b.room) :
    ∃ b', b.put items = some b' ∧ b'.contents = b.contents ++ items ∧
      b'.room = b.room - items.length := by
  have hfits := b.fits
  unfold room at h
  refine ⟨⟨b.capacity, b.contents ++ items, ?_⟩, dif_pos ?_, rfl, ?_⟩
  · simp
    omega
  · omega
  · simp [room]
    omega

/-- Calls that make their own room succeed, and the contents grow by what
they put. -/
theorem run_of_takes {ops : List (Op α)} {r r' : Nat} {b : Buf α} (h : Takes r ops r')
    (hr : r ≤ b.room) : ∃ b', b.run p ops = some b' ∧ b'.contents = b.contents ++ puts ops := by
  induction ops generalizing r b with
  | nil => exact ⟨b, rfl, (List.append_nil _).symm⟩
  | cons op ops ih =>
    cases op with
    | reserve len =>
      have hroom := b.le_room_reserve (p := p) len
      rcases ih h (show max r len ≤ (b.reserve p len).room by omega) with ⟨b', hrun, hcontents⟩
      exact ⟨b', hrun, by rw [hcontents, reserve_contents, puts]⟩
    | put items =>
      rcases put_of_le (Nat.le_trans h.1 hr) with ⟨b₁, hput, hcontents₁, hroom⟩
      have hr₁ : r - items.length ≤ b₁.room := by omega
      rcases ih h.2 hr₁ with ⟨b', hrun, hcontents⟩
      refine ⟨b', ?_, by rw [hcontents, hcontents₁, puts, List.append_assoc]⟩
      show (b.put items).bind _ = _
      rw [hput]
      exact hrun

end Buf

end Growable
