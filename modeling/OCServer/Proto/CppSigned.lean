import OCServer.Proto.CppRead

/-!
# Signed integers between `ProtoOut` and `ProtoIn`

The overloads of `write` and `read` for `char`, `short`, `int` and `long`.
The writer writes a number in the narrowest type that it fits, and the
reader widens what it finds without looking at the sign.  `ReadsBack t r`
says that what the overload for `t` writes is read by the overload for `r`
as the same number; `readsBack_iff` says when it is.
-/

namespace OCServer.Cpp

open BigEndian ByteIO ByteSource

/-- The signed integer types. -/
inductive Signed
  | char
  | short
  | int
  | long
  deriving DecidableEq, Repr

namespace Signed

/-- The bits of the type. -/
def width : Signed → Nat
  | .char => 8
  | .short => 16
  | .int => 32
  | .long => 64

/-- The numbers of the type. -/
def Fits (t : Signed) (n : Int) : Prop := -2 ^ (t.width - 1) ≤ n ∧ n < 2 ^ (t.width - 1)

instance (t : Signed) (n : Int) : Decidable (t.Fits n) := inferInstanceAs (Decidable (_ ∧ _))

/-- `write` of the type. -/
def write : (t : Signed) → BitVec t.width → UInt8 → CppOut Unit
  | .char => writeChar
  | .short => writeShort
  | .int => writeInt
  | .long => writeLong

/-- `read` of the type. -/
def read : (t : Signed) → CppIn (BitVec t.width × UInt8)
  | .char => readChar
  | .short => readShort
  | .int => readInt
  | .long => readLong

/-- What the overload for `t` writes for `v` at `tag` is read by the overload
for `r` as the same number, with that tag and with the position right behind
it. -/
def ReadsBack (t r : Signed) (tag : UInt8) (v : BitVec t.width) : Prop :=
  ∃ bs, t.write v tag [] = .ok () bs ∧
    ∀ (s : IStream) (rest : List UInt8), s.fail = false → s.pos ≤ s.data.length →
      s.data.drop s.pos = bs ++ rest →
      ∃ u s', r.read s = .ok (u, tag) s' ∧ u.toInt = v.toInt ∧ s'.fail = false ∧
        s'.pos = s.pos + bs.length ∧ s'.data = s.data

section

variable {t r : Signed} {tag : UInt8}

/-- The writer writes the format. -/
theorem write_writes (v : BitVec t.width) (htag : tag.toNat < 128) :
    Writes (t.write v tag) (encInt tag v.toInt) := by
  cases t with
  | char => exact writeChar_writes v htag
  | short => exact writeShort_writes v htag
  | int => exact writeInt_writes v htag
  | long => exact writeLong_writes v htag

/-- The reader reads what has been widened with zeros. -/
theorem read_reads (tag : UInt8) {n : Int} (hfits : r.Fits n) :
    Reads r.read (encInt tag n) (zeroExtended r.width n, tag) := by
  cases r with
  | char =>
    have hfits : -128 ≤ n ∧ n < 128 := hfits
    exact readInteger_reads 8 "char" " ." protoByte tag n (by omega) (by omega) (by omega)
  | short =>
    have hfits : -32768 ≤ n ∧ n < 32768 := hfits
    exact readInteger_reads 16 "short" " ." protoShort tag n (fun _ => by decide) (by omega)
      (by omega)
  | int =>
    have hfits : -2147483648 ≤ n ∧ n < 2147483648 := hfits
    exact readInteger_reads 32 "int" " ." protoInt tag n (fun _ => by decide)
      (fun _ => by decide) (by omega)
  | long =>
    exact readInteger_reads 64 "long" "." protoLong tag n (fun _ => by decide)
      (fun _ => by decide) (fun _ => by decide)

/-- A number of the type, as its bits. -/
theorem toInt_ofInt {n : Int} (hfits : r.Fits n) : (BitVec.ofInt r.width n).toInt = n := by
  rw [BitVec.toInt_ofInt]
  cases r with
  | char =>
    have hfits : -128 ≤ n ∧ n < 128 := hfits
    exact Int.bmod_eq_of_le (by show -128 ≤ n; omega) (by show n < 128; omega)
  | short =>
    have hfits : -32768 ≤ n ∧ n < 32768 := hfits
    exact Int.bmod_eq_of_le (by show -32768 ≤ n; omega) (by show n < 32768; omega)
  | int =>
    have hfits : -2147483648 ≤ n ∧ n < 2147483648 := hfits
    exact Int.bmod_eq_of_le (by show -2147483648 ≤ n; omega) (by show n < 2147483648; omega)
  | long =>
    have hfits : -9223372036854775808 ≤ n ∧ n < 9223372036854775808 := hfits
    exact Int.bmod_eq_of_le (by show -9223372036854775808 ≤ n; omega)
      (by show n < 9223372036854775808; omega)

theorem zeroExtended_toInt_iff {n : Int} (hfits : r.Fits n) :
    (zeroExtended r.width n).toInt = n ↔ zeroExtended r.width n = BitVec.ofInt r.width n := by
  have hn := toInt_ofInt hfits
  constructor
  · intro h
    exact BitVec.eq_of_toInt_eq (h.trans hn.symm)
  · intro h
    rw [h, hn]

/-- The sign is kept when there is none, or when the number was not
narrowed. -/
theorem zeroExtended_toInt {n : Int} (hfits : r.Fits n) :
    (zeroExtended r.width n).toInt = n ↔
      0 ≤ n ∨ ∀ s : Signed, s.width < r.width → ¬s.Fits n := by
  rw [zeroExtended_toInt_iff hfits]
  have hchar : Signed.char.Fits n ↔ -128 ≤ n ∧ n < 128 := Iff.rfl
  have hshort : Signed.short.Fits n ↔ -32768 ≤ n ∧ n < 32768 := Iff.rfl
  have hint : Signed.int.Fits n ↔ -2147483648 ≤ n ∧ n < 2147483648 := Iff.rfl
  cases r with
  | char =>
    have hn : (BitVec.ofInt 8 n).toInt = n := toInt_ofInt (r := .char) hfits
    have hkept := zeroExtended_byte (BitVec.ofInt 8 n)
    rw [hn] at hkept
    refine iff_of_true hkept (Or.inr fun s hs => ?_)
    cases s <;> exact absurd hs (by decide)
  | short =>
    have hn : (BitVec.ofInt 16 n).toInt = n := toInt_ofInt (r := .short) hfits
    have hkept := zeroExtended_eq_short (BitVec.ofInt 16 n)
    rw [hn] at hkept
    refine hkept.trans (or_congr_right' fun hneg => ?_)
    constructor
    · intro h s hs
      cases s with
      | char => rw [hchar]; omega
      | _ => exact absurd hs (by decide)
    · intro h
      have hnarrow := h .char (by decide)
      rw [hchar] at hnarrow
      omega
  | int =>
    have hn : (BitVec.ofInt 32 n).toInt = n := toInt_ofInt (r := .int) hfits
    have hkept := zeroExtended_eq_int (BitVec.ofInt 32 n)
    rw [hn] at hkept
    refine hkept.trans (or_congr_right' fun hneg => ?_)
    constructor
    · intro h s hs
      cases s with
      | char => rw [hchar]; omega
      | short => rw [hshort]; omega
      | _ => exact absurd hs (by decide)
    · intro h
      have hnarrow := h .short (by decide)
      rw [hshort] at hnarrow
      omega
  | long =>
    have hn : (BitVec.ofInt 64 n).toInt = n := toInt_ofInt (r := .long) hfits
    have hkept := zeroExtended_eq_long (BitVec.ofInt 64 n)
    rw [hn] at hkept
    refine hkept.trans (or_congr_right' fun hneg => ?_)
    constructor
    · intro h s hs
      cases s with
      | char => rw [hchar]; omega
      | short => rw [hshort]; omega
      | int => rw [hint]; omega
      | long => exact absurd hs (by decide)
    · intro h
      have hnarrow := h .int (by decide)
      rw [hint] at hnarrow
      omega

/-- For every pair of types, every tag below 128 and every number that the
reader's type has: the number comes back if and only if it is not negative,
or fits no type that is narrower than the reader's. -/
theorem readsBack_iff (t r : Signed) (tag : UInt8) (v : BitVec t.width)
    (htag : tag.toNat < 128) (hfits : r.Fits v.toInt) :
    ReadsBack t r tag v ↔
      0 ≤ v.toInt ∨ ∀ s : Signed, s.width < r.width → ¬s.Fits v.toInt := by
  obtain ⟨_, hwrite, rfl⟩ := write_writes v htag []
  rw [← zeroExtended_toInt hfits]
  constructor
  · intro h
    rcases h with ⟨bs, hwrite', hread⟩
    rw [hwrite] at hwrite'
    cases hwrite'
    let s : IStream := ⟨encInt tag v.toInt, 0, false, true, fun _ => 0⟩
    have hs : At s (encInt tag v.toInt ++ []) := by
      refine ⟨rfl, Nat.zero_le _, ?_⟩
      rw [List.append_nil]
      rfl
    obtain ⟨u, s', hrun, hu, _⟩ := hread s [] hs.1 hs.2.1 hs.2.2
    obtain ⟨s'', hrun', _⟩ := read_reads tag hfits s [] hs
    rw [hrun] at hrun'
    cases hrun'
    exact hu
  · intro hkept
    refine ⟨_, hwrite, fun s rest hfail hpos hdrop => ?_⟩
    have hs : At s (encInt tag v.toInt ++ rest) := ⟨hfail, hpos, hdrop⟩
    obtain ⟨s', hrun, hs', hdata, _⟩ := read_reads tag hfits s rest hs
    refine ⟨_, s', hrun, hkept, hs'.1, ?_, hdata⟩
    have hlen := at_length hs
    have hlen' := at_length hs'
    rw [List.length_append] at hlen
    rw [hdata] at hlen'
    show s'.pos = s.pos + (encInt tag v.toInt).length
    omega

end

/-- An `int` that fits a `short` and is read as a `long`. -/
theorem readsBack_iff_wide : ReadsBack .int .long 100 300 ↔
    0 ≤ (300 : BitVec 32).toInt ∨
      ∀ s : Signed, s.width < Signed.long.width → ¬s.Fits (300 : BitVec 32).toInt :=
  readsBack_iff .int .long 100 300 (by decide) (by decide)

/-- The `short` -5 is written as a `char` and read as 251. -/
theorem not_always_readsBack :
    ¬∀ (t r : Signed) (tag : UInt8) (v : BitVec t.width), tag.toNat < 128 → r.Fits v.toInt →
      ReadsBack t r tag v := by
  intro h
  obtain ⟨bs, hwrite, hread⟩ := h .short .short 1 (-5 : BitVec 16) (by decide) (by decide)
  have hbytes : writeShort (-5) 1 [] = .ok () [0x10, 0xFB] := rfl
  have hbs := hbytes.symm.trans hwrite
  cases hbs
  obtain ⟨u, s', hrun, hu, _⟩ :=
    hread ⟨[0x10, 0xFB], 0, false, true, fun _ => 0⟩ [] rfl (by decide) rfl
  have hval : readShort ⟨[0x10, 0xFB], 0, false, true, fun _ => 0⟩ =
      .ok (251, 1) ⟨[0x10, 0xFB], 2, false, true, fun _ => 0⟩ := rfl
  have heq := hval.symm.trans hrun
  injection heq with hpair _
  obtain rfl : (251 : BitVec 16) = u := congrArg Prod.fst hpair
  exact absurd hu (by decide)

end Signed

end OCServer.Cpp
