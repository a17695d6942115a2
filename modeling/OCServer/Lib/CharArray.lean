import OCServer.Lib.Block
import OCServer.Lib.CString

/-!
# Character arrays with checked accesses

A `char` array is the list of its characters, as many as it has room for.  An
access outside of the array is a `Fault`.  `strcat` and `strncat` look for the
end of the string that the array holds, and write behind it.

An array that holds the string `p` is `p ++ 0 :: rest`.  `strcat_eq` says what
is in it afterwards, and `strcat_fault` that the terminating zero needs room too.
-/

namespace CharArray

open CString

/-- `a[i]`. -/
def load (a : List UInt8) (i : Nat) : Except Fault UInt8 :=
  match a[i]? with
  | some c => .ok c
  | none => .error .outOfBounds

/-- The first `n` characters. -/
def loadAll (a : List UInt8) (n : Nat) : Except Fault (List UInt8) :=
  if n ≤ a.length then .ok (a.take n) else .error .outOfBounds

/-- `a[i] = c`. -/
def store (a : List UInt8) (i : Nat) (c : UInt8) : Except Fault (List UInt8) :=
  if i < a.length then .ok (a.set i c) else .error .outOfBounds

/-- One character after the other, from `a[i]` on. -/
def storeAll (a : List UInt8) (i : Nat) : List UInt8 → Except Fault (List UInt8)
  | [] => .ok a
  | c :: cs => do
    let a ← store a i c
    storeAll a (i + 1) cs

/-- The string in the array. -/
def cstr (a : List UInt8) : Except Fault (List UInt8) :=
  if 0 ∈ a then .ok (ofBuffer a) else .error .outOfBounds

/-- `strcat( a, src )`. -/
def strcat (a src : List UInt8) : Except Fault (List UInt8) := do
  let s ← cstr a
  storeAll a (strlen s) (src ++ [0])

/-- `strncat( a, src, n )`. -/
def strncat (a src : List UInt8) (n : Nat) : Except Fault (List UInt8) := strcat a (src.take n)

variable {p q : List UInt8}

theorem load_append {c : UInt8} : load (p ++ c :: q) p.length = .ok c := by
  simp [load]

theorem loadAll_append : loadAll (p ++ q) p.length = .ok p := by
  unfold loadAll
  rw [if_pos (by simp), List.take_left]

/-! ## Writing -/

theorem store_append {c d : UInt8} : store (p ++ d :: q) p.length c = .ok (p ++ c :: q) := by
  unfold store
  rw [if_pos (by simp)]
  simp

theorem storeAll_cons_append {c d : UInt8} {cs : List UInt8} :
    storeAll (p ++ d :: q) p.length (c :: cs) =
      storeAll ((p ++ [c]) ++ q) (p ++ [c]).length cs := by
  rw [storeAll, store_append, List.append_assoc, List.length_append, List.length_singleton]
  rfl

/-- Characters that have room. -/
theorem storeAll_eq {cs : List UInt8} (h : cs.length ≤ q.length) :
    storeAll (p ++ q) p.length cs = .ok (p ++ cs ++ q.drop cs.length) := by
  induction cs generalizing p q with
  | nil => simp [storeAll]
  | cons c cs ih =>
    cases q with
    | nil => simp at h
    | cons d q =>
      rw [storeAll_cons_append, ih (by simpa using h)]
      simp

/-- Characters that have none. -/
theorem storeAll_fault {cs : List UInt8} (h : q.length < cs.length) :
    storeAll (p ++ q) p.length cs = .error .outOfBounds := by
  induction cs generalizing p q with
  | nil => simp at h
  | cons c cs ih =>
    cases q with
    | nil =>
      have hfull : store (p ++ []) p.length c = .error .outOfBounds := if_neg (by simp)
      rw [storeAll, hfull]
      rfl
    | cons d q =>
      rw [storeAll_cons_append]
      exact ih (by simpa using h)

/-! ## Appending to a string -/

theorem cstr_eq (hp : 0 ∉ p) : cstr (p ++ 0 :: q) = .ok p := by
  unfold cstr
  rw [if_pos (by simp), ofBuffer_of_zero hp]

theorem strcat_eq {src : List UInt8} (hp : 0 ∉ p) (h : src.length ≤ q.length) :
    strcat (p ++ 0 :: q) src = .ok (p ++ src ++ 0 :: q.drop src.length) := by
  have hroom : (src ++ [0]).length ≤ (0 :: q).length := by simpa using h
  unfold strcat
  rw [cstr_eq hp]
  show storeAll (p ++ 0 :: q) p.length (src ++ [0]) = _
  rw [storeAll_eq hroom]
  simp

theorem strcat_fault {src : List UInt8} (hp : 0 ∉ p) (h : q.length < src.length) :
    strcat (p ++ 0 :: q) src = .error .outOfBounds := by
  have hroom : (0 :: q).length < (src ++ [0]).length := by simpa using h
  unfold strcat
  rw [cstr_eq hp]
  exact storeAll_fault hroom

end CharArray
