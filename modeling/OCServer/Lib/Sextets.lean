import Mathlib.Data.List.Basic
import Mathlib.Data.Nat.Bitwise
import Mathlib.Tactic.Common

/-!
# Bytes in groups of six bits

`sextets` cuts a list of bytes into numbers of six bits, three bytes into four
numbers, and fills the last number up with zero bits.  `octets` puts bytes together
again and leaves the bits out that do not fill a byte: `octets_sextets`.

The last part are the shifts and masks of byte arithmetic as divisions and
remainders.
-/

namespace Sextets

/-- The numbers of six bits that the bytes are. -/
def sextets : List UInt8 → List Nat
  | [] => []
  | [a] => [a.toNat / 4, a.toNat % 4 * 16]
  | [a, b] => [a.toNat / 4, a.toNat % 4 * 16 + b.toNat / 16, b.toNat % 16 * 4]
  | a :: b :: c :: l =>
    a.toNat / 4 :: (a.toNat % 4 * 16 + b.toNat / 16) :: (b.toNat % 16 * 4 + c.toNat / 64) ::
      c.toNat % 64 :: sextets l

/-- The bytes that the numbers are. -/
def octets : List Nat → List UInt8
  | [] => []
  | [_] => []
  | [a, b] => [UInt8.ofNat (a * 4 + b / 16)]
  | [a, b, c] => [UInt8.ofNat (a * 4 + b / 16), UInt8.ofNat (b % 16 * 16 + c / 4)]
  | a :: b :: c :: d :: l =>
    UInt8.ofNat (a * 4 + b / 16) :: UInt8.ofNat (b % 16 * 16 + c / 4) ::
      UInt8.ofNat (c % 4 * 64 + d) :: octets l

/-- How many numbers there are. -/
theorem sextets_length (l : List UInt8) : (sextets l).length = (4 * l.length + 2) / 3 := by
  fun_induction sextets l with
  | case1 => rfl
  | case2 => simp
  | case3 => simp
  | case4 a b c l ih =>
    simp only [List.length_cons, ih]
    omega

theorem octets_length (v : List Nat) : (octets v).length = 3 * v.length / 4 := by
  fun_induction octets v with
  | case1 => rfl
  | case2 => simp
  | case3 => simp
  | case4 => simp
  | case5 a b c d v ih =>
    simp only [List.length_cons, ih]
    omega

/-- They have six bits. -/
theorem sextets_lt {l : List UInt8} {v : Nat} (h : v ∈ sextets l) : v < 64 := by
  fun_induction sextets l with
  | case1 => cases h
  | case2 a =>
    have ha := a.toNat_lt
    simp only [List.mem_cons, List.not_mem_nil, or_false] at h
    omega
  | case3 a b =>
    have ha := a.toNat_lt
    have hb := b.toNat_lt
    simp only [List.mem_cons, List.not_mem_nil, or_false] at h
    omega
  | case4 a b c l ih =>
    have ha := a.toNat_lt
    have hb := b.toNat_lt
    have hc := c.toNat_lt
    simp only [List.mem_cons] at h
    rcases h with h | h | h | h | h
    · omega
    · omega
    · omega
    · omega
    · exact ih h

theorem ofNat_eq {n : Nat} {b : UInt8} (h : n = b.toNat) : UInt8.ofNat n = b := by
  rw [h, UInt8.ofNat_toNat]

/-- The bytes come back. -/
theorem octets_sextets (l : List UInt8) : octets (sextets l) = l := by
  fun_induction sextets l with
  | case1 => rfl
  | case2 a =>
    have ha : UInt8.ofNat (a.toNat / 4 * 4 + a.toNat % 4 * 16 / 16) = a := ofNat_eq (by omega)
    rw [octets, ha]
  | case3 a b =>
    have hb' := b.toNat_lt
    have ha : UInt8.ofNat (a.toNat / 4 * 4 + (a.toNat % 4 * 16 + b.toNat / 16) / 16) = a :=
      ofNat_eq (by omega)
    have hb :
        UInt8.ofNat ((a.toNat % 4 * 16 + b.toNat / 16) % 16 * 16 + b.toNat % 16 * 4 / 4) = b :=
      ofNat_eq (by omega)
    rw [octets, ha, hb]
  | case4 a b c l ih =>
    have hb' := b.toNat_lt
    have hc' := c.toNat_lt
    have ha : UInt8.ofNat (a.toNat / 4 * 4 + (a.toNat % 4 * 16 + b.toNat / 16) / 16) = a :=
      ofNat_eq (by omega)
    have hb : UInt8.ofNat ((a.toNat % 4 * 16 + b.toNat / 16) % 16 * 16 +
        (b.toNat % 16 * 4 + c.toNat / 64) / 4) = b := ofNat_eq (by omega)
    have hc : UInt8.ofNat ((b.toNat % 16 * 4 + c.toNat / 64) % 4 * 64 + c.toNat % 64) = c :=
      ofNat_eq (by omega)
    rw [octets, ha, hb, hc, ih]

/-! ## Shifts and masks -/

theorem and_3 (n : Nat) : n &&& 3 = n % 4 := Nat.and_two_pow_sub_one_eq_mod n 2

theorem and_15 (n : Nat) : n &&& 15 = n % 16 := Nat.and_two_pow_sub_one_eq_mod n 4

theorem and_63 (n : Nat) : n &&& 63 = n % 64 := Nat.and_two_pow_sub_one_eq_mod n 6

/-- A field of `w` bits from bit `k` on, cut out by a mask before it is shifted down. -/
theorem mask_shift (n k w : Nat) : (n &&& (2 ^ w - 1) * 2 ^ k) >>> k = n / 2 ^ k % 2 ^ w := by
  rw [Nat.shiftRight_and_distrib, Nat.shiftRight_eq_div_pow ((2 ^ w - 1) * 2 ^ k),
    Nat.mul_div_cancel _ (Nat.two_pow_pos k), Nat.and_two_pow_sub_one_eq_mod,
    Nat.shiftRight_eq_div_pow]

/-- Bits that do not overlap are added. -/
theorem shift_or {a b k : Nat} (h : b < 2 ^ k) : a <<< k ||| b = a * 2 ^ k + b := by
  rw [Nat.shiftLeft_eq, Nat.mul_comm, Nat.two_pow_add_eq_or_of_lt h]

end Sextets
