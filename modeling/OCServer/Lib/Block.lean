import Mathlib.Tactic.Common
import Mathlib.Data.List.Basic

/-!
# Heap blocks with checked accesses

A `Block` is one heap allocation: its length and the bytes written so far.
The bytes written so far always form a prefix of the block, which is the
case for every buffer that is filled from its start.  An access that leaves
the block, or that reads a byte nobody wrote, is a `Fault`.

The lemmas give the result of each access under its bounds check, so that a
proof about a program names the bound it needs and never unfolds an access.
-/

/-- What an access to memory can do wrong.  `outOfFuel` is not a fault of
the program: it says that a run was cut off. -/
inductive Fault
  | outOfBounds
  | uninitialised
  | outOfFuel
  deriving DecidableEq, Repr

/-- One heap allocation of `len` bytes whose written bytes are `init`. -/
structure Block where
  len : Nat
  init : List UInt8
  init_le : init.length ≤ len
  deriving DecidableEq

namespace Block

/-- `malloc( n )`. -/
def malloc (n : Nat) : Block := ⟨n, [], Nat.zero_le n⟩

/-- `realloc( b, n )`. -/
def realloc (b : Block) (n : Nat) : Block :=
  ⟨n, b.init.take n, by rw [List.length_take]; omega⟩

/-- Reads the `n` bytes from offset `off` on, the source of a `memcpy`. -/
def read (b : Block) (off n : Nat) : Except Fault (List UInt8) :=
  if off + n ≤ b.init.length then .ok ((b.init.drop off).take n)
  else if off + n ≤ b.len then .error .uninitialised
  else .error .outOfBounds

/-- `memcpy( b + off, src, src.length )`. -/
def write (b : Block) (off : Nat) (src : List UInt8) : Except Fault Block :=
  if h : off + src.length ≤ b.len ∧ off ≤ b.init.length then
    .ok ⟨b.len, b.init.take off ++ src ++ b.init.drop (off + src.length), by
      have := b.init_le
      simp only [List.length_append, List.length_take, List.length_drop]
      omega⟩
  else if off + src.length ≤ b.len then .error .uninitialised
  else .error .outOfBounds

/-- `memmove( b, b + off, n )`. -/
def memmove (b : Block) (off n : Nat) : Except Fault Block := do
  let src ← b.read off n
  b.write 0 src

/-- `memchr( b, c, n )`, as the offset of the first hit. -/
def memchr (b : Block) (c : UInt8) (n : Nat) : Except Fault (Option Nat) := do
  let src ← b.read 0 n
  pure (src.findIdx? (· == c))

/-- `b[i]`. -/
def get (b : Block) (i : Nat) : Except Fault UInt8 :=
  match b.init[i]? with
  | some c => .ok c
  | none => if i < b.len then .error .uninitialised else .error .outOfBounds

@[simp] theorem realloc_len (b : Block) (n : Nat) : (b.realloc n).len = n := rfl

/-- A larger block keeps its bytes. -/
theorem realloc_init_of_le {b : Block} {n : Nat} (h : b.len ≤ n) :
    (b.realloc n).init = b.init :=
  List.take_of_length_le (Nat.le_trans b.init_le h)

/-- A read inside the first `t` bytes, which are all written, succeeds. -/
theorem read_take {b : Block} {o n t : Nat} (hn : o + n ≤ t)
    (ht : t ≤ b.init.length) :
    b.read o n = .ok (((b.init.take t).drop o).take n) := by
  rw [read, if_pos (by omega), List.drop_take, List.take_take,
    Nat.min_eq_left (by omega)]

/-- A read past the end of the block is a fault. -/
theorem read_fault {b : Block} {o n : Nat} (h : b.len < o + n) :
    b.read o n = .error .outOfBounds := by
  have := b.init_le
  rw [read, if_neg (by omega), if_neg (by omega)]

/-- A write behind the first `o` bytes, which are all written, appends to
them when it stays inside the block. -/
theorem write_take {b : Block} {o : Nat} {l : List UInt8}
    (hlen : o + l.length ≤ b.len) (ho : o ≤ b.init.length) :
    ∃ b', b.write o l = .ok b' ∧ b'.len = b.len ∧
      o + l.length ≤ b'.init.length ∧
      b'.init.take (o + l.length) = b.init.take o ++ l := by
  have hfront : (b.init.take o ++ l).length = o + l.length := by
    rw [List.length_append, List.length_take]
    omega
  rw [write, dif_pos ⟨hlen, ho⟩]
  refine ⟨_, rfl, rfl, ?_, ?_⟩
  · simp only [List.length_append, List.length_take, List.length_drop]
    omega
  · exact List.take_left' hfront

/-- Moving `n` of the first `t` bytes to the front. -/
theorem memmove_take {b : Block} {o n t : Nat} (hn : o + n ≤ t)
    (ht : t ≤ b.init.length) :
    ∃ b', b.memmove o n = .ok b' ∧ b'.len = b.len ∧ n ≤ b'.init.length ∧
      b'.init.take n = ((b.init.take t).drop o).take n := by
  have hle := b.init_le
  have hread := read_take hn ht
  have hlen : (((b.init.take t).drop o).take n).length = n := by
    rw [List.length_take, List.length_drop, List.length_take]
    omega
  obtain ⟨b', hw, hblen, hinit, htake⟩ :=
    write_take (b := b) (o := 0) (l := ((b.init.take t).drop o).take n)
      (by omega) (Nat.zero_le _)
  rw [Nat.zero_add, hlen] at hinit htake
  refine ⟨b', ?_, hblen, hinit, ?_⟩
  · rw [memmove, hread]
    exact hw
  · rw [htake, List.take_zero, List.nil_append]

/-- Moving everything from `o` on to the front drops the first `o` of
the first `t` bytes. -/
theorem memmove_drop {b : Block} {o t : Nat} (ho : o ≤ t)
    (ht : t ≤ b.init.length) :
    ∃ b', b.memmove o (t - o) = .ok b' ∧ b'.len = b.len ∧
      t - o ≤ b'.init.length ∧
      b'.init.take (t - o) = (b.init.take t).drop o := by
  obtain ⟨b', hmove, hblen, hinit, htake⟩ :=
    memmove_take (b := b) (o := o) (n := t - o) (by omega) ht
  refine ⟨b', hmove, hblen, hinit, ?_⟩
  rw [htake]
  exact List.take_of_length_le (by rw [List.length_drop, List.length_take]; omega)

/-- A search over the first `t` bytes, which are all written, either finds
nothing, or splits them at the first hit. -/
theorem memchr_take {b : Block} {c : UInt8} {t : Nat} (ht : t ≤ b.init.length) :
    (b.memchr c t = .ok none ∧ c ∉ b.init.take t) ∨
      ∃ n s, b.memchr c t = .ok (some n.length) ∧ c ∉ n ∧
        b.init.take t = n ++ c :: s := by
  have hmem : b.memchr c t = .ok ((b.init.take t).findIdx? (· == c)) := by
    have hall : ((b.init.take t).drop 0).take t = b.init.take t := by
      rw [List.drop_zero, List.take_take, Nat.min_self]
    rw [memchr, read_take (Nat.le_of_eq (Nat.zero_add t)) ht, hall]
    rfl
  cases hidx : (b.init.take t).findIdx? (· == c) with
  | none =>
    refine Or.inl ⟨by rw [hmem, hidx], fun hc => ?_⟩
    have := List.findIdx?_eq_none_iff.mp hidx c hc
    simp at this
  | some i =>
    obtain ⟨hi, hhit, hbefore⟩ := List.findIdx?_eq_some_iff_getElem.mp hidx
    have hi' : ((b.init.take t).take i).length = i := by
      rw [List.length_take]
      omega
    refine Or.inr ⟨(b.init.take t).take i, (b.init.take t).drop (i + 1), ?_, ?_, ?_⟩
    · rw [hi', hmem, hidx]
    · intro hc
      obtain ⟨j, hj, hjc⟩ := List.getElem_of_mem hc
      rw [hi'] at hj
      have := hbefore j hj
      rw [List.getElem_take] at hjc
      simp [hjc] at this
    · rw [← eq_of_beq hhit, List.getElem_cons_drop, List.take_append_drop]

/-- An index inside the written bytes reads that byte. -/
theorem get_eq {b : Block} {i : Nat} {c : UInt8} (h : b.init[i]? = some c) :
    b.get i = .ok c := by
  rw [get, h]

/-- An index at or past the end of the block is a fault. -/
theorem get_fault {b : Block} {i : Nat} (h : b.len ≤ i) :
    b.get i = .error .outOfBounds := by
  have := b.init_le
  rw [get, List.getElem?_eq_none (by omega)]
  exact if_neg (by omega)

end Block
