import OCServer.Lib.Heap
import OCServer.Lib.Ring

/-!
# The queue macros

The macros of `queue.h` on a heap of queue nodes.  A node is found at its
address, and a macro that goes through a pointer to a node that is not there is a
fault.

Each macro that the TLS adapter uses has one lemma about the ring that it is applied
to: `QUEUE_INIT_spec`, `QUEUE_INSERT_TAIL_spec` and `QUEUE_REMOVE_spec`.
-/

namespace OCServer.Tls

open Ring

/-- `QUEUE`: the two pointers of a node. -/
structure Queue where
  next : Nat
  prev : Nat
  deriving DecidableEq, Repr

/-- The nodes by their addresses. -/
abbrev Nodes := Heap Queue

/-- The pointers of all nodes. -/
def nextOf (m : Nodes) (q : Nat) : Option Nat := (m.cell q).map Queue.next

def prevOf (m : Nodes) (q : Nat) : Option Nat := (m.cell q).map Queue.prev

/-! ## The macros -/

def QUEUE_NEXT (m : Nodes) (q : Nat) : Except Fault Nat := do
  let node ← m.get q
  pure node.next

def QUEUE_PREV (m : Nodes) (q : Nat) : Except Fault Nat := do
  let node ← m.get q
  pure node.prev

/-- `QUEUE_NEXT( q ) = v` -/
def setNext (m : Nodes) (q v : Nat) : Except Fault Nodes := do
  let node ← m.get q
  m.set q { node with next := v }

/-- `QUEUE_PREV( q ) = v` -/
def setPrev (m : Nodes) (q v : Nat) : Except Fault Nodes := do
  let node ← m.get q
  m.set q { node with prev := v }

def QUEUE_INIT (m : Nodes) (q : Nat) : Except Fault Nodes := do
  let m ← setNext m q q
  setPrev m q q

def QUEUE_INSERT_TAIL (m : Nodes) (h q : Nat) : Except Fault Nodes := do
  let m ← setNext m q h
  let last ← QUEUE_PREV m h
  let m ← setPrev m q last
  let before ← QUEUE_PREV m q
  let m ← setNext m before q
  setPrev m h q

def QUEUE_REMOVE (m : Nodes) (q : Nat) : Except Fault Nodes := do
  let before ← QUEUE_PREV m q
  let behind ← QUEUE_NEXT m q
  let m ← setNext m before behind
  let behind ← QUEUE_NEXT m q
  let before ← QUEUE_PREV m q
  setPrev m behind before

/-! ## Single pointers -/

section

variable {m : Nodes} {q v w : Nat}

theorem QUEUE_NEXT_eq (h : nextOf m q = some v) : QUEUE_NEXT m q = .ok v := by
  obtain ⟨node, hcell, rfl⟩ := Option.map_eq_some_iff.mp h
  rw [QUEUE_NEXT, Heap.get_eq hcell]
  rfl

theorem QUEUE_PREV_eq (h : prevOf m q = some v) : QUEUE_PREV m q = .ok v := by
  obtain ⟨node, hcell, rfl⟩ := Option.map_eq_some_iff.mp h
  rw [QUEUE_PREV, Heap.get_eq hcell]
  rfl

/-- A node that is not there. -/
theorem QUEUE_NEXT_error (h : m.cell q = none) : QUEUE_NEXT m q = .error .outOfBounds := by
  rw [QUEUE_NEXT, Heap.get, h]
  rfl

/-- What `QUEUE_NEXT( q ) = v` changes. -/
theorem setNext_spec (h : (m.cell q).isSome) (v : Nat) :
    ∃ m', setNext m q v = .ok m' ∧ nextOf m' = Function.update (nextOf m) q (some v) ∧
      prevOf m' = prevOf m ∧ m'.next = m.next ∧ ∀ a, (m'.cell a).isSome = (m.cell a).isSome := by
  obtain ⟨node, hcell⟩ := Option.isSome_iff_exists.mp h
  refine ⟨m.modify q fun _ => some { node with next := v }, ?_, ?_, ?_, rfl, ?_⟩
  · rw [setNext, Heap.get_eq hcell]
    exact Heap.set_eq hcell _
  · funext a
    by_cases ha : a = q
    · subst ha
      rw [nextOf, Heap.modify_cell_self hcell, Function.update_self]
      rfl
    · rw [nextOf, Heap.modify_cell_of_ne ha, Function.update_of_ne ha, nextOf]
  · funext a
    by_cases ha : a = q
    · subst ha
      rw [prevOf, prevOf, Heap.modify_cell_self hcell, hcell]
      rfl
    · rw [prevOf, Heap.modify_cell_of_ne ha, prevOf]
  · intro a
    by_cases ha : a = q
    · subst ha
      rw [Heap.modify_cell_self hcell, hcell]
      rfl
    · rw [Heap.modify_cell_of_ne ha]

/-- What `QUEUE_PREV( q ) = v` changes. -/
theorem setPrev_spec (h : (m.cell q).isSome) (v : Nat) :
    ∃ m', setPrev m q v = .ok m' ∧ prevOf m' = Function.update (prevOf m) q (some v) ∧
      nextOf m' = nextOf m ∧ m'.next = m.next ∧ ∀ a, (m'.cell a).isSome = (m.cell a).isSome := by
  obtain ⟨node, hcell⟩ := Option.isSome_iff_exists.mp h
  refine ⟨m.modify q fun _ => some { node with prev := v }, ?_, ?_, ?_, rfl, ?_⟩
  · rw [setPrev, Heap.get_eq hcell]
    exact Heap.set_eq hcell _
  · funext a
    by_cases ha : a = q
    · subst ha
      rw [prevOf, Heap.modify_cell_self hcell, Function.update_self]
      rfl
    · rw [prevOf, Heap.modify_cell_of_ne ha, Function.update_of_ne ha, prevOf]
  · funext a
    by_cases ha : a = q
    · subst ha
      rw [nextOf, nextOf, Heap.modify_cell_self hcell, hcell]
      rfl
    · rw [nextOf, Heap.modify_cell_of_ne ha, nextOf]
  · intro a
    by_cases ha : a = q
    · subst ha
      rw [Heap.modify_cell_self hcell, hcell]
      rfl
    · rw [Heap.modify_cell_of_ne ha]

theorem isSome_of_nextOf (h : (nextOf m q).isSome) : (m.cell q).isSome := by
  rwa [nextOf, Option.isSome_map] at h

end

/-! ## Rings -/

/-- The ring with the head `h` and the elements `l`, in memory. -/
def Holds (m : Nodes) (h : Nat) (l : List Nat) : Prop := Cycle (nextOf m) (prevOf m) h l

/-- The same nodes are there. -/
def SameNodes (m m' : Nodes) : Prop :=
  m'.next = m.next ∧ ∀ a, (m'.cell a).isSome = (m.cell a).isSome

section

variable {m : Nodes} {h q : Nat} {l l₁ l₂ : List Nat}

theorem Holds.isSome (hm : Holds m h l) {a : Nat} (ha : a ∈ h :: l) : (m.cell a).isSome :=
  isSome_of_nextOf (hm.next_isSome ha)

/-- A ring stays when memory changes that it does not consist of. -/
theorem Holds.other {m' : Nodes} (hm : Holds m h l) (hcell : ∀ a ∈ h :: l, m'.cell a = m.cell a) :
    Holds m' h l :=
  hm.congr (fun a ha => by rw [nextOf, nextOf, hcell a ha])
    (fun a ha => by rw [prevOf, prevOf, hcell a ha])

/-- A ring stays when the pointers of another node change. -/
theorem Holds.updated {m' : Nodes} {v w : Option Nat} (hm : Holds m h l) (hq : q ∉ h :: l)
    (hn : nextOf m' = Function.update (nextOf m) q v)
    (hp : prevOf m' = Function.update (prevOf m) q w) : Holds m' h l := by
  refine hm.congr (fun a ha => ?_) (fun a ha => ?_)
  · have hne : a ≠ q := fun heq => hq (heq ▸ ha)
    rw [hn, Function.update_of_ne hne]
  · have hne : a ≠ q := fun heq => hq (heq ▸ ha)
    rw [hp, Function.update_of_ne hne]

/-- A node becomes a ring of its own. -/
theorem QUEUE_INIT_spec (hq : (m.cell q).isSome) :
    ∃ m', QUEUE_INIT m q = .ok m' ∧ Holds m' q [] ∧ SameNodes m m' ∧
      nextOf m' = Function.update (nextOf m) q (some q) ∧
      prevOf m' = Function.update (prevOf m) q (some q) := by
  obtain ⟨m₁, h₁, hn₁, hp₁, hx₁, hs₁⟩ := setNext_spec hq q
  obtain ⟨m₂, h₂, hp₂, hn₂, hx₂, hs₂⟩ := setPrev_spec (m := m₁) (q := q) (by rw [hs₁, hq]) q
  have hnext : nextOf m₂ = Function.update (nextOf m) q (some q) := by rw [hn₂, hn₁]
  have hprev : prevOf m₂ = Function.update (prevOf m) q (some q) := by rw [hp₂, hp₁]
  refine ⟨m₂, ?_, ?_, ⟨hx₂.trans hx₁, fun a => (hs₂ a).trans (hs₁ a)⟩, hnext, hprev⟩
  · rw [QUEUE_INIT, h₁]
    exact h₂
  · rw [Holds, hnext, hprev]
    exact Cycle.self _ _ q

/-- A node that is not in the ring becomes its last element. -/
theorem QUEUE_INSERT_TAIL_spec (hm : Holds m h l) (hq : (m.cell q).isSome) (hnew : q ∉ h :: l) :
    ∃ m', QUEUE_INSERT_TAIL m h q = .ok m' ∧ Holds m' h (l ++ [q]) ∧ SameNodes m m' := by
  obtain ⟨s, z, hz⟩ := Cycle.exists_before h l
  have hne : h ≠ q := fun heq => hnew (heq ▸ List.mem_cons_self)
  have hlast : prevOf m h = some z := hm.prev_head hz
  have hzmem : z ∈ h :: l := hz ▸ List.mem_append_right s List.mem_cons_self
  obtain ⟨m₁, h₁, hn₁, hp₁, hx₁, hs₁⟩ := setNext_spec hq h
  have hlast₁ : prevOf m₁ h = some z := by rw [hp₁, hlast]
  obtain ⟨m₂, h₂, hp₂, hn₂, hx₂, hs₂⟩ := setPrev_spec (m := m₁) (q := q) (by rw [hs₁, hq]) z
  have hbefore : prevOf m₂ q = some z := by rw [hp₂, Function.update_self]
  obtain ⟨m₃, h₃, hn₃, hp₃, hx₃, hs₃⟩ :=
    setNext_spec (m := m₂) (q := z) (by rw [hs₂, hs₁, hm.isSome hzmem]) q
  obtain ⟨m₄, h₄, hp₄, hn₄, hx₄, hs₄⟩ :=
    setPrev_spec (m := m₃) (q := h) (by rw [hs₃, hs₂, hs₁, hm.isSome List.mem_cons_self]) q
  refine ⟨m₄, ?_, ?_, by rw [hx₄, hx₃, hx₂, hx₁], fun a => by rw [hs₄, hs₃, hs₂, hs₁]⟩
  · rw [QUEUE_INSERT_TAIL, h₁]
    show (QUEUE_PREV m₁ h >>= _) = _
    rw [QUEUE_PREV_eq hlast₁]
    show (setPrev m₁ q z >>= _) = _
    rw [h₂]
    show (QUEUE_PREV m₂ q >>= _) = _
    rw [QUEUE_PREV_eq hbefore]
    show (setNext m₂ z q >>= _) = _
    rw [h₃]
    exact h₄
  · have hring := hm.insert_tail hnew hz
    rw [Holds, hn₄, hn₃, hn₂, hn₁, hp₄, hp₃, hp₂, hp₁]
    exact hring

/-- An element of a ring is taken out of it. -/
theorem QUEUE_REMOVE_spec (hm : Holds m h (l₁ ++ q :: l₂)) :
    ∃ m', QUEUE_REMOVE m q = .ok m' ∧ Holds m' h (l₁ ++ l₂) ∧ SameNodes m m' := by
  obtain ⟨s, x, hx⟩ := Cycle.exists_before h l₁
  obtain ⟨y, t, hy⟩ := Cycle.exists_after l₂ h
  have hprev : prevOf m q = some x := hm.prev_of_split hx
  have hnext : nextOf m q = some y := hm.next_of_split hy
  have hnd := hm.nodup
  rw [← List.cons_append, hx, List.append_assoc, List.singleton_append] at hnd
  have hxq : x ≠ q := by
    rintro rfl
    exact (List.nodup_cons.mp (List.nodup_append.mp hnd).2.1).1 List.mem_cons_self
  have hxmem : x ∈ h :: (l₁ ++ q :: l₂) := by
    rw [← List.cons_append, hx]
    simp
  have hymem : y ∈ h :: (l₁ ++ q :: l₂) := by
    have hmem : y ∈ l₂ ++ [h] := hy ▸ List.mem_cons_self
    simp only [List.mem_append, List.mem_cons, List.not_mem_nil, or_false] at hmem ⊢
    tauto
  obtain ⟨m₁, h₁, hn₁, hp₁, hx₁, hs₁⟩ := setNext_spec (hm.isSome hxmem) y
  have hnext₁ : nextOf m₁ q = some y := by rw [hn₁, Function.update_of_ne hxq.symm, hnext]
  have hprev₁ : prevOf m₁ q = some x := by rw [hp₁, hprev]
  obtain ⟨m₂, h₂, hp₂, hn₂, hx₂, hs₂⟩ :=
    setPrev_spec (m := m₁) (q := y) (by rw [hs₁, hm.isSome hymem]) x
  refine ⟨m₂, ?_, ?_, by rw [hx₂, hx₁], fun a => by rw [hs₂, hs₁]⟩
  · rw [QUEUE_REMOVE, QUEUE_PREV_eq hprev, QUEUE_NEXT_eq hnext]
    show (setNext m x y >>= _) = _
    rw [h₁]
    show (QUEUE_NEXT m₁ q >>= _) = _
    rw [QUEUE_NEXT_eq hnext₁, QUEUE_PREV_eq hprev₁]
    exact h₂
  · have hring := hm.remove hx hy
    rw [Holds, hn₂, hn₁, hp₂, hp₁]
    exact hring

end

end OCServer.Tls
