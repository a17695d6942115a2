import Mathlib.Data.List.TakeWhile

/-!
# C strings

A C string in a buffer ends in front of the first zero byte.  A C string is
the list of its bytes without that zero.
-/

namespace CString

/-- The C string that a buffer starts with. -/
def ofBuffer (b : List UInt8) : List UInt8 := b.takeWhile (· ≠ 0)

/-- `strlen`. -/
def strlen (s : List UInt8) : Nat := s.length

/-- `strcat( dest, src )`, into a buffer that is long enough. -/
def strcat (dest src : List UInt8) : List UInt8 := dest ++ src

/-- `strncat( dest, src, n )`. -/
def strncat (dest src : List UInt8) (n : Nat) : List UInt8 := dest ++ src.take n

/-- Bytes without a zero, in front of one. -/
theorem ofBuffer_of_zero {b rest : List UInt8} (h : 0 ∉ b) : ofBuffer (b ++ 0 :: rest) = b := by
  have hall : ∀ c ∈ b, decide (c ≠ 0) = true := by
    intro c hc
    rw [decide_eq_true_iff]
    rintro rfl
    exact h hc
  unfold ofBuffer
  rw [List.takeWhile_append_of_pos hall, List.takeWhile_cons_of_neg (by simp), List.append_nil]

/-- What is behind a zero does not matter. -/
theorem ofBuffer_append {b rest : List UInt8} :
    ofBuffer (b ++ 0 :: rest) = ofBuffer (b ++ [0]) := by
  unfold ofBuffer
  induction b with
  | nil => simp
  | cons c b ih =>
    rw [List.cons_append, List.cons_append, List.takeWhile_cons, List.takeWhile_cons, ih]

/-- A buffer with a zero behind it is one C string, unless it has a zero in it. -/
theorem ofBuffer_append_zero_iff (b : List UInt8) : ofBuffer (b ++ [0]) = b ↔ 0 ∉ b := by
  constructor
  · intro h hmem
    have hne : (0 : UInt8) ≠ 0 := by
      rw [← h] at hmem
      simpa using List.mem_takeWhile_imp hmem
    exact hne rfl
  · exact ofBuffer_of_zero

/-- It is empty if and only if its first byte is zero. -/
theorem ofBuffer_eq_nil_iff (b : List UInt8) : ofBuffer (b ++ [0]) = [] ↔ b.head?.getD 0 = 0 := by
  unfold ofBuffer
  cases b with
  | nil => simp
  | cons c b => simp

end CString
