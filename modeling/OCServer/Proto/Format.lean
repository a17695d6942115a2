import OCServer.Lib.BigEndian
import OCServer.Proto.Value

/-!
# The wire format

`enc` is the format that the two implementations of the protocol share,
stated on its own: the bytes of a value at a tag.  An integer takes the
narrowest of four signed widths, or no byte at all when it is zero.  A
string of at most 255 bytes has a length of one byte, a longer one has four.

The two writers differ in one place only: `ProtoOut` ends a struct with a
header at the tag of the struct, and `ProtoOutputStream` with a header at
tag 0.  `enc` takes that tag as a parameter, and no reader looks at it.
-/

namespace OCServer

open BigEndian

/-- A field header: one byte for a tag below 15, two for the others. -/
def encHead (type tag : UInt8) : List UInt8 :=
  if tag < 15 then [tag <<< 4 ||| type] else [0xF0 ||| type, tag]

/-- An integer in the narrowest width. -/
def encInt (tag : UInt8) (n : Int) : List UInt8 :=
  if n = 0 then encHead protoZeroTag tag
  else if -128 ≤ n ∧ n < 128 then
    encHead protoByte tag ++ beBytes 1 (BitVec.ofInt 8 n).toNat
  else if -32768 ≤ n ∧ n < 32768 then
    encHead protoShort tag ++ beBytes 2 (BitVec.ofInt 16 n).toNat
  else if -2147483648 ≤ n ∧ n < 2147483648 then
    encHead protoInt tag ++ beBytes 4 (BitVec.ofInt 32 n).toNat
  else encHead protoLong tag ++ beBytes 8 (BitVec.ofInt 64 n).toNat

/-- A string. -/
def encString (tag : UInt8) (s : List UInt8) : List UInt8 :=
  if 255 < s.length then encHead protoString4 tag ++ beBytes 4 s.length ++ s
  else encHead protoString1 tag ++ beBytes 1 s.length ++ s

/-- A scalar. -/
def encPrim (tag : UInt8) : (p : Prim) → PrimVal p → List UInt8
  | .bool, v => encInt tag (if v then 1 else 0)
  | .short, v => encInt tag v.toInt
  | .int, v => encInt tag v.toInt
  | .long, v => encInt tag v.toInt
  | .float, v => encHead protoFloat tag ++ beBytes 4 v.toNat
  | .double, v => encHead protoDouble tag ++ beBytes 8 v.toNat

/-- The size of a container, as the `int` that both languages write. -/
def encSize (n : Nat) : List UInt8 := encInt 0 (BitVec.ofNat 32 n).toInt

mutual

/-- A value at a tag.  `endTag` gives the tag that ends a struct. -/
def enc (endTag : UInt8 → UInt8) : (t : Ty) → UInt8 → Val t → List UInt8
  | .byte, tag, v => encInt tag v.toInt
  | .prim p, tag, v => encPrim tag p v
  | .string, tag, s => encString tag s
  | .bytes, tag, b =>
    encHead protoSimpleList tag ++ encHead protoByte 0 ++ encSize b.length ++ b
  | .array p, tag, vs =>
    encHead protoList tag ++ encSize vs.length ++ vs.flatMap (encPrim 0 p)
  | .list t, tag, vs =>
    encHead protoList tag ++ encSize vs.length ++ vs.flatMap (enc endTag t 0)
  | .strMap, tag, m =>
    encHead protoMap tag ++ encSize m.length ++
      m.flatMap fun e => encString 0 e.1 ++ encString 1 e.2
  | .map k v, tag, m =>
    encHead protoMap tag ++ encSize m.length ++
      m.flatMap fun e => enc endTag k 0 e.1 ++ enc endTag v 1 e.2
  | .struct fs, tag, v =>
    encHead protoStructBegin tag ++ encFields endTag fs v ++
      encHead protoStructEnd (endTag tag)

/-- The fields of a struct in order. -/
def encFields (endTag : UInt8 → UInt8) : (fs : Fields) → FieldVals fs → List UInt8
  | .nil, _ => []
  | .cons tag t fs, v => enc endTag t tag v.1 ++ encFields endTag fs v.2

end

/-! ## Headers -/

/-- The number in a one-byte header. -/
theorem head_toNat {type tag : UInt8} (htype : type.toNat < 16) (htag : tag.toNat < 16) :
    (tag <<< 4 ||| type).toNat = tag.toNat * 16 + type.toNat := by
  rw [UInt8.toNat_or, UInt8.toNat_shiftLeft]
  have h4 : (4 : UInt8).toNat % 8 = 4 := rfl
  have hmod : (tag.toNat <<< 4) % 2 ^ 8 = tag.toNat <<< 4 := by
    rw [Nat.shiftLeft_eq]
    omega
  rw [h4, hmod, ← Nat.shiftLeft_add_eq_or_of_lt htype, Nat.shiftLeft_eq]

/-- The low half of a header byte. -/
theorem head_type {b : UInt8} : (b &&& 0xF).toNat = b.toNat % 16 := by
  rw [UInt8.toNat_and]
  exact Nat.and_two_pow_sub_one_eq_mod b.toNat 4

/-- The high half of a header byte. -/
theorem head_tag {b : UInt8} : ((b &&& 0xF0) >>> 4).toNat = b.toNat / 16 := by
  rw [UInt8.toNat_shiftRight, UInt8.toNat_and]
  have h4 : (4 : UInt8).toNat % 8 = 4 := rfl
  have hmask : (0xF0 : UInt8).toNat >>> 4 = 2 ^ 4 - 1 := rfl
  have hb := b.toNat_lt
  rw [h4, Nat.shiftRight_and_distrib, hmask, Nat.and_two_pow_sub_one_eq_mod,
    Nat.shiftRight_eq_div_pow]
  omega

/-- A header is one byte that shows its type and its tag, or two bytes. -/
theorem encHead_cases {type : UInt8} (htype : type.toNat < 16) (tag : UInt8) :
    (∃ b, encHead type tag = [b] ∧ (b &&& 0xF) = type ∧ ((b &&& 0xF0) >>> 4) = tag ∧
      tag ≠ 15) ∨
    (∃ b, encHead type tag = [b, tag] ∧ (b &&& 0xF) = type ∧ ((b &&& 0xF0) >>> 4) = 15 ∧
      15 ≤ tag.toNat) := by
  by_cases h : tag < 15
  · left
    have hlt : tag.toNat < 15 := h
    refine ⟨tag <<< 4 ||| type, if_pos h, ?_, ?_, fun heq => ?_⟩
    · apply UInt8.toNat_inj.mp
      rw [head_type, head_toNat htype (by omega)]
      omega
    · apply UInt8.toNat_inj.mp
      rw [head_tag, head_toNat htype (by omega)]
      omega
    · rw [heq] at hlt
      exact absurd hlt (by decide)
  · right
    have hor : (0xF0 ||| type).toNat = 240 + type.toNat := @head_toNat type 15 htype (by decide)
    refine ⟨0xF0 ||| type, if_neg h, ?_, ?_, Nat.le_of_not_lt h⟩
    · apply UInt8.toNat_inj.mp
      rw [head_type, hor]
      omega
    · apply UInt8.toNat_inj.mp
      rw [head_tag, hor]
      show (240 + type.toNat) / 16 = 15
      omega

theorem encHead_length_pos (type tag : UInt8) : 0 < (encHead type tag).length := by
  unfold encHead
  split <;> simp

theorem encInt_length_pos (tag : UInt8) (n : Int) : 0 < (encInt tag n).length := by
  have h := fun type => encHead_length_pos type tag
  unfold encInt
  repeat' split
  all_goals simp [h]

/-- A string takes a header and a length. -/
theorem two_le_encString_length (tag : UInt8) (s : List UInt8) :
    2 ≤ (encString tag s).length := by
  have h1 := encHead_length_pos protoString1 tag
  have h4 := encHead_length_pos protoString4 tag
  unfold encString
  split <;> simp only [List.length_append, beBytes_length] <;> omega

theorem encString_length_pos (tag : UInt8) (s : List UInt8) :
    0 < (encString tag s).length :=
  Nat.lt_of_lt_of_le (by decide) (two_le_encString_length tag s)

theorem encPrim_length_pos (tag : UInt8) (p : Prim) (v : PrimVal p) :
    0 < (encPrim tag p v).length := by
  have h := fun type => encHead_length_pos type tag
  cases p <;> simp [encPrim, encInt_length_pos, h]

/-- Every value takes a byte at least. -/
theorem enc_length_pos (endTag : UInt8 → UInt8) (t : Ty) (tag : UInt8) (v : Val t) :
    0 < (enc endTag t tag v).length := by
  have h := fun type => encHead_length_pos type tag
  cases t <;> simp [enc, encInt_length_pos, encPrim_length_pos, encString_length_pos, h]

/-- A size below `2 ^ 31` is its own `int`. -/
theorem toInt_size {n : Nat} (hn : n < 2 ^ 31) : (BitVec.ofNat 32 n).toInt = n := by
  rw [BitVec.toInt_ofNat']
  exact Int.bmod_eq_of_le (by omega) (by omega)

/-- Items of `k` bytes at least. -/
theorem mul_length_le_flatMap {α : Type} {f : α → List UInt8} {k : Nat}
    (hle : ∀ a, k ≤ (f a).length) (items : List α) :
    k * items.length ≤ (items.flatMap f).length := by
  induction items with
  | nil => simp
  | cons a items ih =>
    have := hle a
    rw [List.flatMap_cons, List.length_append, List.length_cons, Nat.mul_succ]
    omega

/-- A container has no more items than bytes. -/
theorem length_le_flatMap {α : Type} {f : α → List UInt8} (hpos : ∀ a, 0 < (f a).length)
    (items : List α) : items.length ≤ (items.flatMap f).length := by
  have h := mul_length_le_flatMap (k := 1) hpos items
  rwa [Nat.one_mul] at h

/-- An item takes no more bytes than its container. -/
theorem length_le_of_mem {α : Type} (f : α → List UInt8) {items : List α} {a : α}
    (h : a ∈ items) : (f a).length ≤ (items.flatMap f).length := by
  induction items with
  | nil => simp at h
  | cons b items ih =>
    rw [List.flatMap_cons, List.length_append]
    rcases List.mem_cons.mp h with rfl | h
    · omega
    · have := ih h
      omega

end OCServer
