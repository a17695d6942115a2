import Mathlib.Data.List.Basic
import Mathlib.Tactic.Common
import Mathlib.Tactic.Ring

/-!
# Numbers in network byte order

`beBytes w n` are the low `w` bytes of `n`, the most significant first.
`beVal` is the number that a list of bytes spells: the value of a loop that
shifts the bytes in one after the other.

The lemmas for `BitVec` are the ones that a reader or a writer of
fixed-width integers needs: `beVal_bytes` for a number that is read at its
own width, and `signExtend_narrow` for a number that was written narrower.
-/

namespace BigEndian

/-- The low `w` bytes of `n`, the most significant first. -/
def beBytes : Nat → Nat → List UInt8
  | 0, _ => []
  | w + 1, n => UInt8.ofNat (n / 256 ^ w) :: beBytes w n

/-- The number that the bytes spell. -/
def beVal (bs : List UInt8) : Nat :=
  bs.foldl (fun res b => res * 256 + b.toNat) 0

/-- A number of `w` bytes at the start of a list, and what is behind it. -/
def numberAt (k w : Nat) (l : List UInt8) : Option (BitVec k × List UInt8) :=
  if w ≤ l.length then some (BitVec.ofNat k (beVal (l.take w)), l.drop w) else none

@[simp] theorem beBytes_length (w n : Nat) : (beBytes w n).length = w := by
  induction w with
  | zero => rfl
  | succ w ih => simp [beBytes, ih]

theorem beBytes_one (b : UInt8) : beBytes 1 b.toNat = [b] := by
  simp [beBytes]

/-- Bytes that follow a number of `w` bytes scale it. -/
theorem foldl_beBytes (w n res : Nat) :
    (beBytes w n).foldl (fun res b => res * 256 + b.toNat) res =
      res * 256 ^ w + n % 256 ^ w := by
  induction w generalizing res with
  | zero => simp [beBytes, Nat.mod_one]
  | succ w ih =>
    have hbyte : (UInt8.ofNat (n / 256 ^ w)).toNat = n / 256 ^ w % 256 := by simp
    have hmod : n % 256 ^ (w + 1) = n / 256 ^ w % 256 * 256 ^ w + n % 256 ^ w := by
      rw [Nat.pow_succ, Nat.mod_mul, Nat.mul_comm, Nat.add_comm]
    rw [beBytes, List.foldl_cons, ih, hbyte, hmod, Nat.pow_succ]
    ring

/-- Reading back gives the number, reduced to its width. -/
theorem beVal_beBytes (w n : Nat) : beVal (beBytes w n) = n % 256 ^ w := by
  rw [beVal, foldl_beBytes, Nat.zero_mul, Nat.zero_add]

/-- Reading back a value that has the width of its bytes. -/
theorem beVal_bytes {w k : Nat} (hk : k = 8 * w) (v : BitVec k) :
    BitVec.ofNat k (beVal (beBytes w v.toNat)) = v := by
  subst hk
  have hlt := v.isLt
  rw [Nat.pow_mul] at hlt
  rw [beVal_beBytes, Nat.mod_eq_of_lt hlt, BitVec.ofNat_toNat, BitVec.setWidth_eq]

/-- `n` bytes spell a number below `256 ^ n`. -/
theorem beVal_lt (bs : List UInt8) : beVal bs < 256 ^ bs.length := by
  have hgen : ∀ (l : List UInt8) (res m : Nat), res < 256 ^ m →
      l.foldl (fun res b => res * 256 + b.toNat) res < 256 ^ (m + l.length) := by
    intro l
    induction l with
    | nil => simp
    | cons b l ih =>
      intro res m hres
      have hb : b.toNat < 256 := b.toNat_lt
      have hstep := ih (res * 256 + b.toNat) (m + 1) (by rw [Nat.pow_succ]; omega)
      rwa [Nat.add_assoc, Nat.add_comm 1] at hstep
  have h := hgen bs 0 0 (by simp)
  rwa [Nat.zero_add] at h

/-- The low bytes do not depend on what is above them. -/
theorem beBytes_add_mul (w k n : Nat) : beBytes w (k * 256 ^ w + n) = beBytes w n := by
  induction w generalizing k with
  | zero => rfl
  | succ w ih =>
    have hpow : k * 256 ^ (w + 1) = k * 256 * 256 ^ w := by
      rw [Nat.pow_succ]
      ring
    have hpos : 0 < 256 ^ w := Nat.pow_pos (by decide)
    have hhead : UInt8.ofNat (k * 256 + n / 256 ^ w) = UInt8.ofNat (n / 256 ^ w) := by
      apply UInt8.toNat_inj.mp
      simp only [UInt8.toNat_ofNat']
      omega
    rw [beBytes, beBytes, hpow, ih, Nat.mul_comm (k * 256), Nat.mul_add_div hpos, hhead]

/-- Writing back gives the bytes. -/
theorem beBytes_beVal (bs : List UInt8) : beBytes bs.length (beVal bs) = bs := by
  have hfold : ∀ (bs : List UInt8) (res : Nat),
      bs.foldl (fun res b => res * 256 + b.toNat) res = res * 256 ^ bs.length + beVal bs := by
    intro bs
    induction bs with
    | nil => simp [beVal]
    | cons b bs ih =>
      intro res
      have hb := ih b.toNat
      unfold beVal at *
      rw [List.foldl_cons, List.foldl_cons, ih, Nat.zero_mul, Nat.zero_add, hb, List.length_cons,
        Nat.pow_succ]
      ring
  induction bs with
  | nil => rfl
  | cons b bs ih =>
    have hval : beVal (b :: bs) = b.toNat * 256 ^ bs.length + beVal bs := by
      rw [beVal, List.foldl_cons, hfold, Nat.zero_mul, Nat.zero_add]
    have hlt := beVal_lt bs
    rw [List.length_cons, beBytes, hval, beBytes_add_mul, ih, Nat.mul_comm,
      Nat.mul_add_div (Nat.pow_pos (by decide)), Nat.div_eq_of_lt hlt, Nat.add_zero,
      UInt8.ofNat_toNat]
/-- The value of a number that fits `w` bytes. -/
theorem beVal_beBytes_of_lt {w n : Nat} (h : n < 256 ^ w) : beVal (beBytes w n) = n := by
  rw [beVal_beBytes, Nat.mod_eq_of_lt h]

/-- Narrowing keeps a value that fits. -/
theorem toInt_narrow {m k : Nat} (x : BitVec m) (hk : 0 < k) (hkm : k ≤ m)
    (hlo : -(2 ^ (k - 1) : Int) ≤ x.toInt) (hhi : x.toInt < 2 ^ (k - 1)) :
    (x.signExtend k).toInt = x.toInt := by
  have hpow : (2 : Int) ^ k = 2 * 2 ^ (k - 1) := by
    obtain ⟨j, rfl⟩ := Nat.exists_eq_add_of_lt hk
    rw [Nat.zero_add, Nat.add_sub_cancel, pow_succ]
    ring
  rw [BitVec.toInt_signExtend_eq_toInt_bmod_of_le x hkm]
  apply Int.bmod_eq_of_le
  · push_cast
    omega
  · push_cast
    omega

/-- Widening a number that fits the narrow width. -/
theorem signExtend_ofInt {j k : Nat} {n : Int} (hj : 0 < j) (hjk : j ≤ k)
    (hlo : -(2 ^ (j - 1) : Int) ≤ n) (hhi : n < 2 ^ (j - 1)) :
    (BitVec.ofInt j n).signExtend k = BitVec.ofInt k n := by
  have hmono : (2 : Int) ^ (j - 1) ≤ 2 ^ (k - 1) := by
    exact_mod_cast Nat.pow_le_pow_right (n := 2) (by decide) (show j - 1 ≤ k - 1 by omega)
  apply BitVec.eq_of_toInt_eq
  rw [BitVec.toInt_signExtend_of_le hjk, BitVec.toInt_ofInt_eq_self hj hlo hhi,
    BitVec.toInt_ofInt_eq_self (by omega) (by omega) (by omega)]

/-- Widening without the sign. -/
theorem toInt_widen {j k : Nat} (x : BitVec j) (hjk : j < k) :
    (x.setWidth k).toInt = x.toNat := by
  have hlt : x.toNat < 2 ^ (k - 1) :=
    Nat.lt_of_lt_of_le x.isLt (Nat.pow_le_pow_right (by decide) (by omega))
  have hpow : 2 ^ (k - 1) + 2 ^ (k - 1) = 2 ^ k :=
    Nat.two_pow_pred_add_two_pow_pred (by omega)
  rw [BitVec.toInt_setWidth]
  exact Int.bmod_eq_of_le (by omega) (by omega)

theorem beVal_singleton (b : UInt8) : BitVec.ofNat 8 (beVal [b]) = b.toBitVec := by
  have h := beVal_bytes (w := 1) (k := 8) rfl b.toBitVec
  rwa [show beBytes 1 b.toBitVec.toNat = [b] from beBytes_one b] at h

theorem numberAt_cons (b : UInt8) (r : List UInt8) :
    numberAt 8 1 (b :: r) = some (b.toBitVec, r) := by
  unfold numberAt
  rw [if_pos (by simp)]
  simp only [List.take_succ_cons, List.take_zero, List.drop_succ_cons, List.drop_zero]
  rw [beVal_singleton]

theorem numberAt_length {k w : Nat} {l : List UInt8} {p : BitVec k × List UInt8}
    (h : numberAt k w l = some p) : p.2.length + w = l.length := by
  unfold numberAt at h
  rw [Option.ite_none_right_eq_some] at h
  rcases h with ⟨hle, h⟩
  cases h
  rw [List.length_drop]
  omega

/-- A value that was narrowed comes back without its sign unless it is
negative. -/
theorem widen_ofInt_eq {j k : Nat} (v : BitVec k) (hjk : j < k) (hhi : v.toInt < 2 ^ j) :
    (BitVec.ofInt j v.toInt).setWidth k = v ↔ 0 ≤ v.toInt := by
  rw [← BitVec.toInt_inj, toInt_widen _ hjk, BitVec.toNat_ofInt]
  constructor
  · intro h
    omega
  · intro h
    have hmod : v.toInt % (2 ^ j : Nat) = v.toInt :=
      Int.emod_eq_of_lt h (by exact_mod_cast hhi)
    rw [hmod, Int.toNat_of_nonneg h]

end BigEndian
