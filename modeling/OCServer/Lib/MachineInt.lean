import Mathlib.Algebra.Group.Int.Defs
import Mathlib.Algebra.Group.Nat.Defs
import Mathlib.Tactic.Common

/-!
# Machine integers of the LP64 data model

`size_t` is a natural number below `2 ^ 64` and `int` is an integer between
`-2 ^ 31` and `2 ^ 31 - 1`.  The operations below wrap as the C operations
do, and the lemmas say when nothing wraps.  A proof first bounds its
operands, rewrites with these lemmas, and leaves the rest to `omega`.
-/

namespace MachineInt

/-- Addition of two `size_t` values. -/
def szAdd (a b : Nat) : Nat := (a + b) % 2 ^ 64

/-- Subtraction of two `size_t` values. -/
def szSub (a b : Nat) : Nat := (a + (2 ^ 64 - b % 2 ^ 64)) % 2 ^ 64

/-- The cast of a `size_t` or `uint32_t` value to `int`. -/
def toInt (n : Nat) : Int :=
  if n % 2 ^ 32 < 2 ^ 31 then (n % 2 ^ 32 : Nat) else (n % 2 ^ 32 : Nat) - 2 ^ 32

/-- The conversion of an `int` to `size_t`. -/
def intToSize (i : Int) : Nat := (i % 2 ^ 64).toNat

/-- A sum that fits does not wrap. -/
theorem szAdd_eq {a b : Nat} (h : a + b < 2 ^ 64) : szAdd a b = a + b :=
  Nat.mod_eq_of_lt h

/-- A difference of ordered operands does not wrap. -/
theorem szSub_eq {a b : Nat} (hb : b ≤ a) (ha : a < 2 ^ 64) :
    szSub a b = a - b := by
  unfold szSub
  omega

/-- A value below `2 ^ 31` survives the cast to `int`. -/
theorem toInt_eq {n : Nat} (h : n < 2 ^ 31) : toInt n = n := by
  have hn : n % 2 ^ 32 = n := by omega
  rw [toInt, hn, if_pos h]

/-- A 32-bit value from `2 ^ 31` up turns negative. -/
theorem toInt_neg {n : Nat} (hlo : 2 ^ 31 ≤ n) (hhi : n < 2 ^ 32) :
    toInt n = (n : Int) - 2 ^ 32 := by
  have hn : n % 2 ^ 32 = n := by omega
  rw [toInt, hn, if_neg (by omega)]

/-- An `int` is below `2 ^ 31`. -/
theorem toInt_lt (n : Nat) : toInt n < 2 ^ 31 := by
  unfold toInt
  split_ifs <;> omega

/-- A non-negative `int` is its own `size_t`. -/
theorem intToSize_natCast {n : Nat} (h : n < 2 ^ 64) :
    intToSize (n : Int) = n := by
  unfold intToSize
  omega

/-- A negative `int` turns into a huge `size_t`. -/
theorem intToSize_neg {i : Int} (hlo : -2 ^ 31 ≤ i) (hhi : i < 0) :
    2 ^ 64 - 2 ^ 31 ≤ intToSize i := by
  unfold intToSize
  omega

end MachineInt
