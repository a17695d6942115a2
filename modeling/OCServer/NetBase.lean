import Mathlib.Tactic.Common
import Mathlib.Data.Nat.Bitwise
import OCServer.Lib.BigEndian

/-!
# Network packet headers

The packet header of `src/src/net_base.h` and its eight-byte wire form.
`netPacketToChar` and `charToNetPacket` are the two inline functions of the
same names.  Both return `true` on every path of the source, so the result
here is the header or its bytes.

`charToNetPacket_netPacketToChar` is the round trip, and
`netPacketToChar_length` is `NET_PACKAGE_HEADLEN`.

`Int64ToChar` and `CharToInt64` are next to them in the source.  The lower half
of `CharToInt64` is computed with `int`s: `int64_returns_iff` says which
numbers are read back.
-/

namespace OCServer

open BigEndian

/-- `NetPacket`, packed to eight bytes. -/
structure NetPacket where
  version : UInt8
  header : UInt8
  tail : UInt8
  type : UInt8
  datalen : UInt32
  deriving DecidableEq, Repr

/-- `NET_PACKAGE_HEADLEN`, the size of the packed `NetPacket`. -/
abbrev headLen : Nat := 8

/-- `Int32ToChar`: the four bytes of `intnum`, most significant first.  The
source widens `intnum` to `unsigned long` before it masks. -/
def int32ToChar (intnum : UInt32) : List UInt8 :=
  let networkByteorder := intnum.toUInt64
  [ ((networkByteorder &&& 0xff000000) >>> 24).toUInt8
  , ((networkByteorder &&& 0x00ff0000) >>> 16).toUInt8
  , ((networkByteorder &&& 0x0000ff00) >>> 8).toUInt8
  , (networkByteorder &&& 0x000000ff).toUInt8 ]

/-- `CharToInt32` on four bytes.  The source adds four `int` values and
stores the sum in a `uint32_t`, which is addition modulo `2 ^ 32`. -/
def charToInt32 (c0 c1 c2 c3 : UInt8) : UInt32 :=
  (c0.toUInt32 <<< 24) + (c1.toUInt32 <<< 16) + (c2.toUInt32 <<< 8) + c3.toUInt32

/-- `NetPacketToChar`. -/
def netPacketToChar (package : NetPacket) : List UInt8 :=
  [package.version, package.header, package.tail, package.type] ++
    int32ToChar package.datalen

/-- `CharToNetPacket`.  It reads eight bytes; a shorter list does not occur,
because every caller checks the length first. -/
def charToNetPacket : List UInt8 → NetPacket
  | c0 :: c1 :: c2 :: c3 :: c4 :: c5 :: c6 :: c7 :: _ =>
    { version := c0, header := c1, tail := c2, type := c3,
      datalen := charToInt32 c4 c5 c6 c7 }
  | _ => { version := 0, header := 0, tail := 0, type := 0, datalen := 0 }

/-- A byte cut out of a number with a mask is the byte at that position. -/
private theorem and_mask_shiftRight (n k : Nat) :
    (n &&& (0xff <<< k)) >>> k = n / 2 ^ k % 2 ^ 8 := by
  have hmask : (0xff <<< k) >>> k = 2 ^ 8 - 1 := Nat.shiftLeft_shiftRight 0xff k
  rw [Nat.shiftRight_and_distrib, hmask, Nat.and_two_pow_sub_one_eq_mod,
    Nat.shiftRight_eq_div_pow]

/-- `CharToInt32` reads back what `Int32ToChar` wrote. -/
theorem charToInt32_int32ToChar (n : UInt32) :
    ∃ c0 c1 c2 c3, int32ToChar n = [c0, c1, c2, c3] ∧ charToInt32 c0 c1 c2 c3 = n := by
  refine ⟨_, _, _, _, rfl, ?_⟩
  have hn := n.toNat_lt
  have h24 := and_mask_shiftRight n.toNat 24
  have h16 := and_mask_shiftRight n.toNat 16
  have h8 := and_mask_shiftRight n.toNat 8
  have h0 := and_mask_shiftRight n.toNat 0
  simp only [Nat.reduceShiftLeft, Nat.shiftLeft_zero, Nat.shiftRight_zero, Nat.pow_zero,
    Nat.div_one] at h24 h16 h8 h0
  apply UInt32.toNat_inj.mp
  simp only [charToInt32, UInt32.toNat_add, UInt32.toNat_shiftLeft, UInt8.toNat_toUInt32,
    UInt64.toNat_toUInt8, UInt64.toNat_shiftRight, UInt64.toNat_and, UInt32.toNat_toUInt64,
    UInt64.reduceToNat, UInt32.reduceToNat, Nat.reduceMod, h24, h16, h8, h0,
    Nat.shiftLeft_eq]
  omega

/-- A header takes `NET_PACKAGE_HEADLEN` bytes. -/
@[simp] theorem netPacketToChar_length (p : NetPacket) :
    (netPacketToChar p).length = headLen := rfl

/-- Reading a header back gives the header, whatever bytes follow. -/
theorem charToNetPacket_netPacketToChar (p : NetPacket) (s : List UInt8) :
    charToNetPacket (netPacketToChar p ++ s) = p := by
  obtain ⟨c0, c1, c2, c3, hbytes, hval⟩ := charToInt32_int32ToChar p.datalen
  simp only [netPacketToChar, hbytes, List.cons_append, List.nil_append,
    charToNetPacket, hval]

/-- `CharToNetPacket` reads the first eight bytes and no more. -/
theorem charToNetPacket_take (s : List UInt8) (h : headLen ≤ s.length) :
    charToNetPacket (s.take headLen) = charToNetPacket s := by
  match s, h with
  | c0 :: c1 :: c2 :: c3 :: c4 :: c5 :: c6 :: c7 :: _, _ => rfl

/-! ## Numbers of 64 bits -/

/-- `Int64ToChar`: the eight bytes of `intnum`, most significant first. -/
def int64ToChar (intnum : UInt64) : List UInt8 :=
  let networkByteorder := intnum
  [ ((networkByteorder &&& 0xff00000000000000) >>> 56).toUInt8
  , ((networkByteorder &&& 0x00ff000000000000) >>> 48).toUInt8
  , ((networkByteorder &&& 0x0000ff0000000000) >>> 40).toUInt8
  , ((networkByteorder &&& 0x000000ff00000000) >>> 32).toUInt8
  , ((networkByteorder &&& 0x00000000ff000000) >>> 24).toUInt8
  , ((networkByteorder &&& 0x0000000000ff0000) >>> 16).toUInt8
  , ((networkByteorder &&& 0x000000000000ff00) >>> 8).toUInt8
  , (networkByteorder &&& 0x00000000000000ff).toUInt8 ]

/-- The promotion of an `unsigned char` to `int`. -/
def promote (c : UInt8) : BitVec 32 := c.toBitVec.setWidth 32

/-- The conversion of an `int` to `uint64_t`, which extends the sign. -/
def intToUint64 (i : BitVec 32) : UInt64 := UInt64.ofBitVec (i.signExtend 64)

/-- `CharToInt64` on eight bytes.  The first four are cast to `uint64_t` before
they are shifted, the others are shifted as `int`s. -/
def charToInt64 (c0 c1 c2 c3 c4 c5 c6 c7 : UInt8) : UInt64 :=
  (c0.toUInt64 <<< 56) + (c1.toUInt64 <<< 48) + (c2.toUInt64 <<< 40) + (c3.toUInt64 <<< 32) +
    intToUint64 (promote c4 <<< 24) + intToUint64 (promote c5 <<< 16) +
    intToUint64 (promote c6 <<< 8) + intToUint64 (promote c7)

theorem maskedByte_eq (intnum : UInt64) {mask k : UInt64} (hk : k.toNat < 64)
    (hmask : mask.toNat = 0xff <<< k.toNat) :
    ((intnum &&& mask) >>> k).toUInt8 = UInt8.ofNat (intnum.toNat / 2 ^ k.toNat) := by
  have hbyte := and_mask_shiftRight intnum.toNat k.toNat
  rw [← UInt8.toNat_inj, UInt64.toNat_toUInt8, UInt64.toNat_shiftRight, UInt64.toNat_and, hmask,
    Nat.mod_eq_of_lt hk, hbyte, Nat.mod_mod, UInt8.toNat_ofNat']

/-- `Int64ToChar` is the number in network byte order. -/
theorem int64ToChar_eq (intnum : UInt64) : int64ToChar intnum = beBytes 8 intnum.toNat := by
  have hlast : ((intnum &&& 0x00000000000000ff) >>> 0).toUInt8 =
      UInt8.ofNat (intnum.toNat / 2 ^ (0 : UInt64).toNat) := maskedByte_eq intnum (by decide) rfl
  rw [UInt64.shiftRight_zero] at hlast
  unfold int64ToChar
  simp only [beBytes, hlast]
  rw [maskedByte_eq intnum (by decide) rfl, maskedByte_eq intnum (by decide) rfl,
    maskedByte_eq intnum (by decide) rfl, maskedByte_eq intnum (by decide) rfl,
    maskedByte_eq intnum (by decide) rfl, maskedByte_eq intnum (by decide) rfl,
    maskedByte_eq intnum (by decide) rfl]
  rfl

theorem int64ToChar_eq_iff (intnum : UInt64) {cs : List UInt8} (hlen : cs.length = 8) :
    int64ToChar intnum = cs ↔ intnum.toNat = beVal cs := by
  rw [int64ToChar_eq]
  constructor
  · rintro rfl
    exact (beVal_beBytes_of_lt intnum.toNat_lt).symm
  · intro h
    have hback := beBytes_beVal cs
    rwa [hlen, ← h] at hback

/-- A shifted byte as a `uint64_t`: one that reaches the sign bit turns negative. -/
theorem intToUint64_toNat (c : UInt8) {k : Nat} (hk : k ≤ 24) :
    (intToUint64 (promote c <<< k)).toNat =
      c.toNat * 2 ^ k + if 2 ^ 31 ≤ c.toNat * 2 ^ k then 2 ^ 64 - 2 ^ 32 else 0 := by
  have hc := c.toNat_lt
  have hpow : 2 ^ k ≤ 2 ^ 24 := Nat.pow_le_pow_right (by decide) hk
  have hle : c.toNat * 2 ^ k ≤ c.toNat * 2 ^ 24 := Nat.mul_le_mul_left _ hpow
  have hval : (promote c <<< k).toNat = c.toNat * 2 ^ k := by
    have hbyte : (promote c).toNat = c.toNat := by
      unfold promote
      rw [BitVec.toNat_setWidth, UInt8.toNat_toBitVec]
      omega
    rw [BitVec.toNat_shiftLeft, hbyte, Nat.shiftLeft_eq]
    omega
  show (BitVec.signExtend 64 _).toNat = _
  rw [BitVec.toNat_signExtend, BitVec.msb_eq_decide, BitVec.toNat_setWidth, hval]
  simp only [decide_eq_true_eq]
  split_ifs <;> omega

/-- `CharToInt64` is `2 ^ 32` too small when the fifth byte has its top bit. -/
theorem charToInt64_toNat (c0 c1 c2 c3 c4 c5 c6 c7 : UInt8) :
    (charToInt64 c0 c1 c2 c3 c4 c5 c6 c7).toNat =
      (beVal [c0, c1, c2, c3, c4, c5, c6, c7] + if 128 ≤ c4.toNat then 2 ^ 64 - 2 ^ 32 else 0) %
        2 ^ 64 := by
  have h4 := intToUint64_toNat c4 (k := 24) (by decide)
  have h5 := intToUint64_toNat c5 (k := 16) (by decide)
  have h6 := intToUint64_toNat c6 (k := 8) (by decide)
  have h7 := intToUint64_toNat c7 (k := 0) (by decide)
  have hzero : promote c7 <<< 0 = promote c7 := BitVec.shiftLeft_zero _
  rw [hzero] at h7
  have := c0.toNat_lt
  have := c1.toNat_lt
  have := c2.toNat_lt
  have := c3.toNat_lt
  have := c4.toNat_lt
  have := c5.toNat_lt
  have := c6.toNat_lt
  have := c7.toNat_lt
  unfold charToInt64 beVal
  simp only [UInt64.toNat_add, UInt64.toNat_shiftLeft, UInt8.toNat_toUInt64, UInt64.reduceToNat,
    Nat.reduceMod, Nat.shiftLeft_eq, h4, h5, h6, h7, List.foldl_cons, List.foldl_nil]
  split_ifs <;> omega

theorem charToInt64_eq_iff (c0 c1 c2 c3 c4 c5 c6 c7 : UInt8) :
    (charToInt64 c0 c1 c2 c3 c4 c5 c6 c7).toNat = beVal [c0, c1, c2, c3, c4, c5, c6, c7] ↔
      c4 < 128 := by
  have hpow : 256 ^ [c0, c1, c2, c3, c4, c5, c6, c7].length = 2 ^ 64 := by
    simp only [List.length_cons, List.length_nil]
    norm_num
  have hlt := beVal_lt [c0, c1, c2, c3, c4, c5, c6, c7]
  have hbyte : c4 < 128 ↔ ¬128 ≤ c4.toNat := by
    rw [UInt8.lt_iff_toNat_lt, Nat.not_le]
    rfl
  rw [hpow] at hlt
  rw [charToInt64_toNat, hbyte]
  split_ifs <;> omega

theorem bit31_iff (intnum : UInt64) {c0 c1 c2 c3 c4 c5 c6 c7 : UInt8}
    (h : intnum.toNat = beVal [c0, c1, c2, c3, c4, c5, c6, c7]) :
    intnum &&& 0x80000000 = 0 ↔ c4 < 128 := by
  have hand : intnum &&& 0x80000000 = 0 ↔ intnum.toNat.testBit 31 = false := by
    rw [← UInt64.toNat_inj, UInt64.toNat_and]
    show intnum.toNat &&& 2 ^ 31 = 0 ↔ _
    rw [Nat.and_two_pow]
    cases intnum.toNat.testBit 31 <;> simp
  have := c4.toNat_lt
  have := c5.toNat_lt
  have := c6.toNat_lt
  have := c7.toNat_lt
  rw [hand, Nat.testBit_eq_decide_div_mod_eq, h, decide_eq_false_iff_not, UInt8.lt_iff_toNat_lt]
  unfold beVal
  simp only [List.foldl_cons, List.foldl_nil, UInt8.reduceToNat]
  omega

/-- `CharToInt64` reads the number back from what `Int64ToChar` wrote. -/
def NumberReturns (intnum : UInt64) : Prop :=
  ∀ c0 c1 c2 c3 c4 c5 c6 c7, int64ToChar intnum = [c0, c1, c2, c3, c4, c5, c6, c7] →
    charToInt64 c0 c1 c2 c3 c4 c5 c6 c7 = intnum

/-- For every number and all bytes: the number is read back if and only if its
bit 31 is clear, and the bytes are written back if and only if the fifth of
them is below 128. -/
theorem int64_returns_iff (intnum : UInt64) (c0 c1 c2 c3 c4 c5 c6 c7 : UInt8) :
    (NumberReturns intnum ↔ intnum &&& 0x80000000 = 0) ∧
      (int64ToChar (charToInt64 c0 c1 c2 c3 c4 c5 c6 c7) = [c0, c1, c2, c3, c4, c5, c6, c7] ↔
        c4 < 128) := by
  constructor
  · obtain ⟨b0, b1, b2, b3, b4, b5, b6, b7, hbytes⟩ : ∃ b0 b1 b2 b3 b4 b5 b6 b7,
      int64ToChar intnum = [b0, b1, b2, b3, b4, b5, b6, b7] := ⟨_, _, _, _, _, _, _, _, rfl⟩
    have hval := (int64ToChar_eq_iff intnum rfl).mp hbytes
    rw [bit31_iff intnum hval, ← charToInt64_eq_iff b0 b1 b2 b3 b4 b5 b6 b7, ← hval,
      UInt64.toNat_inj]
    constructor
    · intro h
      exact h _ _ _ _ _ _ _ _ hbytes
    · intro h d0 d1 d2 d3 d4 d5 d6 d7 hbytes'
      rw [hbytes] at hbytes'
      simp only [List.cons.injEq, and_true] at hbytes'
      obtain ⟨rfl, rfl, rfl, rfl, rfl, rfl, rfl, rfl⟩ := hbytes'
      exact h
  · rw [int64ToChar_eq_iff _ rfl, charToInt64_eq_iff]

/-- The number `2 ^ 31` is read back as `2 ^ 64 - 2 ^ 31`. -/
theorem not_always_int64_returns :
    ¬((∀ intnum, NumberReturns intnum) ∧
      ∀ c0 c1 c2 c3 c4 c5 c6 c7,
        int64ToChar (charToInt64 c0 c1 c2 c3 c4 c5 c6 c7) = [c0, c1, c2, c3, c4, c5, c6, c7]) := by
  rintro ⟨hnumber, -⟩
  have h := hnumber 0x80000000 0 0 0 0 128 0 0 0 rfl
  revert h
  decide

end OCServer
