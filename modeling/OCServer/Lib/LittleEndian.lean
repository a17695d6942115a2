import Mathlib.Data.List.Basic
import Mathlib.Data.Nat.Bitwise
import Mathlib.Tactic.Common

/-!
# Words in little endian order

The bytes of a list of 32-bit words, the least significant byte of each word
first, and the words that a list of bytes is in memory.  Bytes that do not
fill their last word are followed by zeros there.

Copying memory is one way to get from the one to the other, and shifting the
bytes in and out one by one is another; `fill_eq` and `spill_eq` say that both
do the same.
-/

namespace LittleEndian

/-- The word with these bytes. -/
def leWord (a b c d : UInt8) : UInt32 :=
  UInt32.ofNat (a.toNat + b.toNat * 2 ^ 8 + c.toNat * 2 ^ 16 + d.toNat * 2 ^ 24)

/-- The bytes of a word. -/
def leBytes (w : UInt32) : List UInt8 :=
  [w.toUInt8, (w >>> 8).toUInt8, (w >>> 16).toUInt8, (w >>> 24).toUInt8]

/-- The bytes of the words, one word after the other. -/
def bytes (ws : List UInt32) : List UInt8 := ws.flatMap leBytes

/-- The words that the bytes are, with zeros behind the last byte. -/
def words : List UInt8 → List UInt32
  | [] => []
  | [a] => [leWord a 0 0 0]
  | [a, b] => [leWord a b 0 0]
  | [a, b, c] => [leWord a b c 0]
  | a :: b :: c :: d :: l => leWord a b c d :: words l

/-- The zeros behind `n` bytes. -/
def padding (n : Nat) : List UInt8 := List.replicate ((4 - n % 4) % 4) 0

@[simp] theorem bytes_nil : bytes [] = [] := rfl

@[simp] theorem bytes_cons (w : UInt32) (ws : List UInt32) :
    bytes (w :: ws) = leBytes w ++ bytes ws := rfl

theorem bytes_append (ws ws' : List UInt32) : bytes (ws ++ ws') = bytes ws ++ bytes ws' :=
  List.flatMap_append

@[simp] theorem bytes_length (ws : List UInt32) : (bytes ws).length = 4 * ws.length := by
  induction ws with
  | nil => rfl
  | cons w ws ih =>
    rw [bytes_cons, List.length_append, ih, List.length_cons]
    show 4 + 4 * ws.length = _
    omega

theorem words_length (l : List UInt8) : (words l).length = (l.length + 3) / 4 := by
  fun_induction words l with
  | case1 => rfl
  | case2 => simp
  | case3 => simp
  | case4 => simp
  | case5 a b c d l ih =>
    simp only [List.length_cons, ih]
    omega

@[simp] theorem padding_length (n : Nat) : (padding n).length = (4 - n % 4) % 4 :=
  List.length_replicate

/-! ## There and back -/

theorem leWord_toNat (a b c d : UInt8) :
    (leWord a b c d).toNat = a.toNat + b.toNat * 2 ^ 8 + c.toNat * 2 ^ 16 + d.toNat * 2 ^ 24 := by
  have ha := a.toNat_lt
  have hb := b.toNat_lt
  have hc := c.toNat_lt
  have hd := d.toNat_lt
  exact UInt32.toNat_ofNat_of_lt' (by simp only [UInt32.size]; omega)

/-- A byte of a word by division. -/
theorem shift_toUInt8 (w : UInt32) (k : UInt32) (hk : k.toNat < 32) :
    (w >>> k).toUInt8.toNat = w.toNat / 2 ^ k.toNat % 2 ^ 8 := by
  rw [UInt32.toNat_toUInt8, UInt32.toNat_shiftRight, Nat.mod_eq_of_lt hk, Nat.shiftRight_eq_div_pow]

theorem leBytes_leWord (a b c d : UInt8) : leBytes (leWord a b c d) = [a, b, c, d] := by
  have ha := a.toNat_lt
  have hb := b.toNat_lt
  have hc := c.toNat_lt
  have hd := d.toNat_lt
  have hw := leWord_toNat a b c d
  have h0 : (leWord a b c d).toUInt8 = a := by
    apply UInt8.toNat_inj.mp
    rw [UInt32.toNat_toUInt8, hw]
    omega
  have h1 : (leWord a b c d >>> 8).toUInt8 = b := by
    apply UInt8.toNat_inj.mp
    rw [shift_toUInt8 _ 8 (by decide), hw]
    show _ / 2 ^ 8 % 2 ^ 8 = _
    omega
  have h2 : (leWord a b c d >>> 16).toUInt8 = c := by
    apply UInt8.toNat_inj.mp
    rw [shift_toUInt8 _ 16 (by decide), hw]
    show _ / 2 ^ 16 % 2 ^ 8 = _
    omega
  have h3 : (leWord a b c d >>> 24).toUInt8 = d := by
    apply UInt8.toNat_inj.mp
    rw [shift_toUInt8 _ 24 (by decide), hw]
    show _ / 2 ^ 24 % 2 ^ 8 = _
    omega
  rw [leBytes, h0, h1, h2, h3]

/-- Four bytes of a word give the word. -/
theorem leWord_leBytes (w : UInt32) :
    leWord w.toUInt8 (w >>> 8).toUInt8 (w >>> 16).toUInt8 (w >>> 24).toUInt8 = w := by
  have hlt := w.toNat_lt
  apply UInt32.toNat_inj.mp
  rw [leWord_toNat, UInt32.toNat_toUInt8, shift_toUInt8 _ 8 (by decide),
    shift_toUInt8 _ 16 (by decide), shift_toUInt8 _ 24 (by decide)]
  show w.toNat % 2 ^ 8 + w.toNat / 2 ^ 8 % 2 ^ 8 * 2 ^ 8 + w.toNat / 2 ^ 16 % 2 ^ 8 * 2 ^ 16 +
    w.toNat / 2 ^ 24 % 2 ^ 8 * 2 ^ 24 = _
  omega

theorem words_bytes (ws : List UInt32) : words (bytes ws) = ws := by
  induction ws with
  | nil => rfl
  | cons w ws ih =>
    show leWord _ _ _ _ :: words (bytes ws) = _
    rw [leWord_leBytes, ih]

theorem padding_add_four (n : Nat) : padding (n + 4) = padding n := by
  rw [padding, padding, Nat.add_mod_right]

theorem bytes_words (l : List UInt8) : bytes (words l) = l ++ padding l.length := by
  fun_induction words l with
  | case1 => rfl
  | case2 a => rw [bytes_cons, leBytes_leWord]; rfl
  | case3 a b => rw [bytes_cons, leBytes_leWord]; rfl
  | case4 a b c => rw [bytes_cons, leBytes_leWord]; rfl
  | case5 a b c d l ih =>
    rw [bytes_cons, leBytes_leWord, ih]
    simp only [List.length_cons, Nat.add_assoc, Nat.reduceAdd, padding_add_four]
    rfl

/-- Bytes with their zeros are the same words. -/
theorem words_append_padding (l : List UInt8) : words (l ++ padding l.length) = words l := by
  rw [← bytes_words, words_bytes]

/-! ## Byte by byte -/

/-- Shifts byte `i` into its word. -/
def orByte (out : List UInt32) (i : Nat) (b : UInt8) : List UInt32 :=
  out.modify (i / 4) fun w => w ||| b.toUInt32 <<< UInt32.ofNat (i % 4 * 8)

/-- Shifts the bytes in one by one, from byte `i` on. -/
def fillFrom (i : Nat) : List UInt8 → List UInt32 → List UInt32
  | [], out => out
  | b :: l, out => fillFrom (i + 1) l (orByte out i b)

/-- Byte `i` of the words, shifted out of its word. -/
def spillByte (ws : List UInt32) (i : Nat) : UInt8 :=
  (ws.getD (i / 4) 0 >>> UInt32.ofNat (i % 4 * 8)).toUInt8

/-- A byte that is shifted above all the others is added to them. -/
theorem or_shift_toNat {w : UInt32} {b : UInt8} {k : Nat} (hk : k ≤ 24) (hw : w.toNat < 2 ^ k) :
    (w ||| b.toUInt32 <<< UInt32.ofNat k).toNat = w.toNat + b.toNat * 2 ^ k := by
  have hb := b.toNat_lt
  have hshift : (b.toUInt32 <<< UInt32.ofNat k).toNat = 2 ^ k * b.toNat := by
    have hlt : b.toNat * 2 ^ k < 2 ^ 32 :=
      calc b.toNat * 2 ^ k < 2 ^ 8 * 2 ^ k := Nat.mul_lt_mul_of_pos_right hb (Nat.two_pow_pos k)
        _ ≤ 2 ^ 8 * 2 ^ 24 := Nat.mul_le_mul_left _ (Nat.pow_le_pow_right (by decide) hk)
    have hk' : (UInt32.ofNat k).toNat % 32 = k := by
      rw [UInt32.toNat_ofNat_of_lt' (by simp only [UInt32.size]; omega)]
      omega
    rw [UInt32.toNat_shiftLeft, hk', UInt8.toNat_toUInt32, Nat.shiftLeft_eq, Nat.mod_eq_of_lt hlt,
      Nat.mul_comm]
  rw [UInt32.toNat_or, hshift, Nat.lor_comm, ← Nat.two_pow_add_eq_or_of_lt hw, Nat.add_comm,
    Nat.mul_comm]

theorem or_first (a : UInt8) : (0 : UInt32) ||| a.toUInt32 <<< UInt32.ofNat 0 = leWord a 0 0 0 := by
  apply UInt32.toNat_inj.mp
  rw [or_shift_toNat (by decide) (by decide), leWord_toNat]
  simp

theorem or_second (a b : UInt8) :
    leWord a 0 0 0 ||| b.toUInt32 <<< UInt32.ofNat 8 = leWord a b 0 0 := by
  have ha := a.toNat_lt
  have hw := leWord_toNat a 0 0 0
  simp only [UInt8.toNat_zero, Nat.zero_mul, Nat.add_zero] at hw
  apply UInt32.toNat_inj.mp
  rw [or_shift_toNat (by decide) (by omega), hw, leWord_toNat]
  simp

theorem or_third (a b c : UInt8) :
    leWord a b 0 0 ||| c.toUInt32 <<< UInt32.ofNat 16 = leWord a b c 0 := by
  have ha := a.toNat_lt
  have hb := b.toNat_lt
  have hw := leWord_toNat a b 0 0
  simp only [UInt8.toNat_zero, Nat.zero_mul, Nat.add_zero] at hw
  apply UInt32.toNat_inj.mp
  rw [or_shift_toNat (by decide) (by omega), hw, leWord_toNat]
  simp

theorem or_fourth (a b c d : UInt8) :
    leWord a b c 0 ||| d.toUInt32 <<< UInt32.ofNat 24 = leWord a b c d := by
  have ha := a.toNat_lt
  have hb := b.toNat_lt
  have hc := c.toNat_lt
  have hw := leWord_toNat a b c 0
  simp only [UInt8.toNat_zero, Nat.zero_mul, Nat.add_zero] at hw
  apply UInt32.toNat_inj.mp
  rw [or_shift_toNat (by decide) (by omega), hw, leWord_toNat]

/-- A word in front is not touched by the bytes behind it. -/
theorem fillFrom_cons (l : List UInt8) (i : Nat) (w : UInt32) (out : List UInt32) :
    fillFrom (i + 4) l (w :: out) = w :: fillFrom i l out := by
  induction l generalizing i out with
  | nil => rfl
  | cons b l ih =>
    have hdiv : (i + 4) / 4 = i / 4 + 1 := by omega
    have hor : orByte (w :: out) (i + 4) b = w :: orByte out i b := by
      rw [orByte, hdiv, Nat.add_mod_right, List.modify_succ_cons, orByte]
    rw [fillFrom, fillFrom, hor, Nat.add_right_comm, ih]

/-- The bytes shifted in one by one are the bytes copied. -/
theorem fill_eq (l : List UInt8) (out : List UInt32) :
    fillFrom 0 l (List.replicate ((l.length + 3) / 4) 0 ++ out) = words l ++ out := by
  fun_induction words l with
  | case1 => rfl
  | case2 a =>
    have hlen : ([a].length + 3) / 4 = 1 := by simp
    rw [hlen]
    exact congrArg (· :: out) (or_first a)
  | case3 a b =>
    have hlen : ([a, b].length + 3) / 4 = 1 := by simp
    rw [hlen]
    show (0 ||| a.toUInt32 <<< UInt32.ofNat 0 ||| b.toUInt32 <<< UInt32.ofNat 8) :: out = _
    rw [or_first, or_second]
    rfl
  | case4 a b c =>
    have hlen : ([a, b, c].length + 3) / 4 = 1 := by simp
    rw [hlen]
    show (0 ||| a.toUInt32 <<< UInt32.ofNat 0 ||| b.toUInt32 <<< UInt32.ofNat 8 |||
      c.toUInt32 <<< UInt32.ofNat 16) :: out = _
    rw [or_first, or_second, or_third]
    rfl
  | case5 a b c d l ih =>
    have hlen : ((a :: b :: c :: d :: l).length + 3) / 4 = (l.length + 3) / 4 + 1 := by
      simp only [List.length_cons]
      omega
    rw [hlen, List.replicate_succ, List.cons_append]
    show fillFrom (0 + 4) l ((0 ||| a.toUInt32 <<< UInt32.ofNat 0 |||
      b.toUInt32 <<< UInt32.ofNat 8 ||| c.toUInt32 <<< UInt32.ofNat 16 |||
      d.toUInt32 <<< UInt32.ofNat 24) :: _) = _
    rw [or_first, or_second, or_third, or_fourth, fillFrom_cons, ih, List.cons_append]

/-- Byte `i` of the words, copied. -/
theorem bytes_getElem? (ws : List UInt32) (i : Nat) (hi : i < 4 * ws.length) :
    (bytes ws)[i]? = some (spillByte ws i) := by
  induction ws generalizing i with
  | nil => simp at hi
  | cons w ws ih =>
    by_cases h4 : i < 4
    · have hcase : i = 0 ∨ i = 1 ∨ i = 2 ∨ i = 3 := by omega
      rcases hcase with rfl | rfl | rfl | rfl
      · show some w.toUInt8 = some (w >>> 0).toUInt8
        rw [UInt32.shiftRight_zero]
      · rfl
      · rfl
      · rfl
    · obtain ⟨j, rfl⟩ : ∃ j, i = j + 4 := ⟨i - 4, by omega⟩
      have hj : j < 4 * ws.length := by
        rw [List.length_cons] at hi
        omega
      have hspill : spillByte (w :: ws) (j + 4) = spillByte ws j := by
        have hdiv : (j + 4) / 4 = j / 4 + 1 := by omega
        rw [spillByte, hdiv, Nat.add_mod_right, List.getD_cons_succ, spillByte]
      rw [hspill, ← ih j hj]
      rfl

/-- The bytes shifted out one by one are the bytes copied. -/
theorem spill_eq (ws : List UInt32) (n : Nat) (hn : n ≤ 4 * ws.length) :
    (List.range n).map (spillByte ws) = (bytes ws).take n := by
  apply List.ext_getElem?
  intro i
  by_cases hi : i < n
  · rw [List.getElem?_map, List.getElem?_range hi, List.getElem?_take_of_lt hi,
      bytes_getElem? ws i (by omega)]
    rfl
  · rw [List.getElem?_eq_none (by simp; omega), List.getElem?_eq_none (by simp; omega)]

end LittleEndian
