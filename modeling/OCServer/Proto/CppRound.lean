import OCServer.Proto.CppRead

/-!
# Round trips between `ProtoOut` and `ProtoIn`

When the overload of `write` for a type is undone by the overload of `read`
for that type: an unsigned integer below the sign bit, a string whose length
byte is not negative, and a `std::vector<char>` whose size fits in a byte.

A writer of an unsigned type hands its value to the writer of a wider signed
type, which takes a wider type code from the sign bit on.
-/

namespace OCServer.Cpp

open BigEndian ByteIO ByteSource

section

variable {α : Type} {w : CppOut Unit} {m : CppIn α} {bs : List UInt8} {a : α}

/-- A writer appends the same bytes to every output. -/
theorem writes_unique {bs' : List UInt8} (h : Writes w bs) (h' : Writes w bs') : bs = bs' := by
  rcases h [] with ⟨_, hrun, rfl⟩
  rcases h' [] with ⟨_, hrun', rfl⟩
  cases hrun.symm.trans hrun'
  rfl

/-- What is written is read, wherever it stands. -/
theorem reads_of_roundTrips (h : RoundTrips w m a) (hw : Writes w bs) : Reads m bs a := by
  rcases h with ⟨bs', hw', hread⟩
  rw [writes_unique hw hw']
  exact hread

theorem not_roundTrips_of_misses (hw : Writes w bs) (hm : Misses m bs fun b => b = a) :
    ¬RoundTrips w m a := by
  intro h
  let s : IStream := ⟨bs, 0, false, true, fun _ => 0⟩
  have hs : At s (bs ++ []) := by
    rw [List.append_nil]
    exact ⟨rfl, Nat.zero_le _, rfl⟩
  rcases reads_of_roundTrips h hw s [] hs with ⟨s', hok, _⟩
  exact hm s [] _ s' hs hok rfl

end

/-! ## Unsigned integers -/

theorem writeUShort_writes (s : BitVec 16) {tag : UInt8} (h : tag.toNat < 128) :
    Writes (writeUShort s tag) (encInt tag s.toNat) := by
  have hwrite := writeInt_writes (s.setWidth 32) h
  rwa [toInt_widen s (by decide)] at hwrite

theorem writeUInt_writes (u : BitVec 32) {tag : UInt8} (h : tag.toNat < 128) :
    Writes (writeUInt u tag) (encInt tag u.toNat) := by
  have hwrite := writeLong_writes (u.setWidth 64) h
  rwa [toInt_widen u (by decide)] at hwrite

theorem readUShort_reads (tag : UInt8) {s : BitVec 16} (hs : s.toNat < 2 ^ 15) :
    Reads readUShort (encInt tag s.toNat) (s, tag) := by
  have hint : s.toInt = s.toNat := BitVec.toInt_eq_toNat_of_lt (by omega)
  have h := readInteger_reads 16 "short" " ." protoShort tag s.toInt (fun _ => by decide)
    (by omega) (by omega)
  rwa [(zeroExtended_eq_short s).mpr (Or.inl (by omega)), hint] at h

theorem readUInt_reads (tag : UInt8) {u : BitVec 32} (hu : u.toNat < 2 ^ 31) :
    Reads readUInt (encInt tag u.toNat) (u, tag) := by
  have hint : u.toInt = u.toNat := BitVec.toInt_eq_toNat_of_lt (by omega)
  have h := readInteger_reads 32 "int" " ." protoInt tag u.toInt (fun _ => by decide)
    (fun _ => by decide) (by omega)
  rwa [(zeroExtended_eq_int u).mpr (Or.inl (by omega)), hint] at h

/-- From `2 ^ 15` on the field is an `INT`, which the reader rejects. -/
theorem readUShort_misses (tag : UInt8) {s : BitVec 16} (hs : ¬s.toNat < 2 ^ 15)
    (P : BitVec 16 × UInt8 → Prop) : Misses readUShort (encInt tag s.toNat) P := by
  have hlt := s.isLt
  unfold encInt readUShort readInteger
  rw [if_neg (by omega), if_neg (by omega), if_neg (by omega), if_pos (by omega)]
  refine (readHead_reads (by decide) tag).bind_misses ?_
  apply Misses.of_error
  intro s' r _
  rcases error_tell (α := BitVec 16 × UInt8) _ s' with ⟨text, herr⟩
  exact ⟨.protoError text, herr⟩

/-- From `2 ^ 31` on the field is a `LONG`, which the reader rejects. -/
theorem readUInt_misses (tag : UInt8) {u : BitVec 32} (hu : ¬u.toNat < 2 ^ 31)
    (P : BitVec 32 × UInt8 → Prop) : Misses readUInt (encInt tag u.toNat) P := by
  unfold encInt readUInt readInteger
  rw [if_neg (by omega), if_neg (by omega), if_neg (by omega), if_neg (by omega)]
  refine (readHead_reads (by decide) tag).bind_misses ?_
  apply Misses.of_error
  intro s r _
  rcases error_tell (α := BitVec 32 × UInt8) _ s with ⟨text, herr⟩
  exact ⟨.protoError text, herr⟩

/-- The unsigned integer types. -/
inductive Unsigned
  | short
  | int
  deriving DecidableEq, Repr

namespace Unsigned

/-- The bits of the type. -/
def width : Unsigned → Nat
  | .short => 16
  | .int => 32

/-- `write` of the type. -/
def write : (t : Unsigned) → BitVec t.width → UInt8 → CppOut Unit
  | .short => writeUShort
  | .int => writeUInt

/-- `read` of the type. -/
def read : (t : Unsigned) → CppIn (BitVec t.width × UInt8)
  | .short => readUShort
  | .int => readUInt

/-- For both types, every tag below 128 and every value: it comes back with
its tag if and only if its highest bit is not set. -/
theorem roundTrips_iff (t : Unsigned) (tag : UInt8) (v : BitVec t.width)
    (htag : tag.toNat < 128) :
    RoundTrips (t.write v tag) t.read (v, tag) ↔ v.toNat < 2 ^ (t.width - 1) := by
  cases t with
  | short =>
    by_cases hv : v.toNat < 2 ^ 15
    · exact iff_of_true ⟨_, writeUShort_writes v htag, readUShort_reads tag hv⟩ hv
    · exact iff_of_false (not_roundTrips_of_misses (writeUShort_writes v htag)
        (readUShort_misses tag hv _)) hv
  | int =>
    by_cases hv : v.toNat < 2 ^ 31
    · exact iff_of_true ⟨_, writeUInt_writes v htag, readUInt_reads tag hv⟩ hv
    · exact iff_of_false (not_roundTrips_of_misses (writeUInt_writes v htag)
        (readUInt_misses tag hv _)) hv

theorem roundTrips_iff_max :
    RoundTrips (Unsigned.short.write 32767 100) Unsigned.short.read (32767, 100) ↔
      (32767 : BitVec 16).toNat < 2 ^ (Unsigned.short.width - 1) :=
  roundTrips_iff .short 100 32767 (by decide)

/-- An `unsigned short` of 32768 is written as an `INT`. -/
theorem not_always_roundTrips :
    ¬∀ (t : Unsigned) (tag : UInt8) (v : BitVec t.width), tag.toNat < 128 →
      RoundTrips (t.write v tag) t.read (v, tag) := by
  intro h
  have hlow : ¬(32768 : BitVec 16).toNat < 2 ^ 15 := by decide
  exact not_roundTrips_of_misses (writeUShort_writes 32768 (show (1 : UInt8).toNat < 128 by decide))
    (readUShort_misses 1 hlow _) (h .short 1 32768 (by decide))

end Unsigned

/-! ## Strings -/

/-- For every tag below 128 and every string of at most
`Proto_MAX_STRING_LENGTH` bytes: it comes back with its tag if and only if
its length is not from 128 to 255. -/
theorem string_roundTrips_iff [FloatOps] (tag : UInt8) (s : List UInt8) (htag : tag.toNat < 128)
    (hs : s.length ≤ protoMaxStringLength) :
    RoundTrips (writeString s tag) readString (s, tag) ↔ s.length < 128 ∨ 255 < s.length := by
  by_cases hkept : KeptString s
  · exact iff_of_true ⟨_, writeString_writes hs htag, readString_reads tag hs hkept⟩ hkept
  · exact iff_of_false (not_roundTrips_of_misses (writeString_writes hs htag)
      (readString_misses tag hkept _)) hkept

theorem string_roundTrips_iff_zeros :
    RoundTrips (writeString [104, 0, 105] 20)
        (@readString ⟨fun v => v.setWidth 64, fun _ => [], fun _ => []⟩) ([104, 0, 105], 20) ↔
      ([104, 0, 105] : List UInt8).length < 128 ∨ 255 < ([104, 0, 105] : List UInt8).length :=
  @string_roundTrips_iff ⟨fun v => v.setWidth 64, fun _ => [], fun _ => []⟩ 20 [104, 0, 105]
    (by decide) (by decide)

/-- The length of 128 bytes is a negative `char`. -/
theorem string_not_always_roundTrips :
    ¬∀ (f : FloatOps) (tag : UInt8) (s : List UInt8), tag.toNat < 128 →
      s.length ≤ protoMaxStringLength →
      RoundTrips (writeString s tag) (@readString f) (s, tag) := by
  intro h
  have hlen : (List.replicate 128 (0 : UInt8)).length = 128 := List.length_replicate
  have hs : (List.replicate 128 (0 : UInt8)).length ≤ protoMaxStringLength := by
    rw [hlen]
    decide
  have hkept : ¬KeptString (List.replicate 128 0) := by
    unfold KeptString
    rw [hlen]
    decide
  let f : FloatOps := ⟨fun v => v.setWidth 64, fun _ => [], fun _ => []⟩
  exact not_roundTrips_of_misses (writeString_writes hs (show (1 : UInt8).toNat < 128 by decide))
    (readString_misses 1 hkept _) (h f 1 _ (by decide) hs)

/-! ## Byte arrays -/

/-- The size of a `std::vector<char>` is written as a `char`. -/
theorem writeChars_writes_byte (v : List UInt8) {tag : UInt8} (h : tag.toNat < 128) :
    Writes (writeChars v tag) (encHead protoSimpleList tag ++ (encHead protoByte 0 ++
      (encInt 0 (BitVec.ofNat 8 v.length).toInt ++ v))) :=
  Writes.bind (writeHead_writes _ h) (Writes.bind (writeHead_writes _ (by decide))
    (Writes.bind (writeChar_writes _ (by decide)) (put_writes v)))

/-- A `char` is read as an `int` without its sign. -/
theorem readInt_byte (n : Nat) :
    Reads readInt (encInt 0 (BitVec.ofNat 8 n).toInt) (BitVec.ofNat 32 (n % 256), 0) := by
  have hlo := BitVec.le_toInt (x := BitVec.ofNat 8 n)
  have hhi := BitVec.toInt_lt (x := BitVec.ofNat 8 n)
  have hread := readInteger_reads 32 "int" " ." protoInt 0 (BitVec.ofNat 8 n).toInt (by omega)
    (by omega) (by omega)
  have hval : zeroExtended 32 (BitVec.ofNat 8 n).toInt = BitVec.ofNat 32 (n % 256) := by
    apply BitVec.eq_of_toNat_eq
    unfold zeroExtended
    split
    · next hzero =>
      have hz : BitVec.ofNat 8 n = 0 := BitVec.eq_of_toInt_eq hzero
      have hmod : n % 256 = 0 := congrArg BitVec.toNat hz
      rw [hmod]
      rfl
    · rw [if_pos (by omega), BitVec.ofInt_toInt, BitVec.toNat_setWidth, BitVec.toNat_ofNat,
        BitVec.toNat_ofNat]
  rwa [hval] at hread

/-- The reader takes as many bytes as the size byte says. -/
theorem readChars_reads_byte (tag : UInt8) {v : List UInt8} {n : Nat}
    (hv : v.length = n % 256) :
    Reads readChars (encHead protoSimpleList tag ++ (encHead protoByte 0 ++
      (encInt 0 (BitVec.ofNat 8 n).toInt ++ v))) (v, tag) := by
  have hlen : (BitVec.ofNat 32 (n % 256)).toInt = v.length := by
    rw [hv]
    exact toInt_size (by omega)
  unfold readChars
  refine (readHead_reads (by decide) tag).bind ?_
  refine (readHead_reads (by decide) 0).bind ?_
  refine (readInt_byte n).bind ?_
  apply declare_reads
  intro a
  simp only [hlen, Int.toNat_natCast]
  exact (getLoop_reads v a).then (Reads.pure _)

/-- Of 256 elements or more, only a prefix is read. -/
theorem readChars_misses_byte (tag : UInt8) {v : List UInt8} (hv : ¬v.length < 256) :
    Misses readChars (encHead protoSimpleList tag ++ (encHead protoByte 0 ++
      (encInt 0 (BitVec.ofNat 8 v.length).toInt ++ v))) fun p => p = (v, tag) := by
  have htake : (v.take (v.length % 256)).length = v.length % 256 := by
    rw [List.length_take]
    omega
  have hne : ¬(v.take (v.length % 256), tag) = (v, tag) := by
    intro heq
    have hlen := congrArg (fun p : List UInt8 × UInt8 => p.1.length) heq
    simp only [htake] at hlen
    omega
  have hmiss := ((readChars_reads_byte tag htake).misses (P := fun p => p = (v, tag)) hne).append
    (v.drop (v.length % 256))
  simpa only [List.append_assoc, List.take_append_drop] using hmiss

/-- For every tag below 128 and every `std::vector<char>`: it comes back with
its tag and its end if and only if it has less than 256 elements. -/
theorem chars_roundTrips_iff (tag : UInt8) (v : List UInt8) (htag : tag.toNat < 128) :
    RoundTrips (writeChars v tag) readChars (v, tag) ↔ v.length < 256 := by
  have hwrite := writeChars_writes_byte v htag
  by_cases hv : v.length < 256
  · exact iff_of_true ⟨_, hwrite, readChars_reads_byte tag (by omega)⟩ hv
  · exact iff_of_false (not_roundTrips_of_misses hwrite (readChars_misses_byte tag hv)) hv

theorem chars_roundTrips_iff_long :
    RoundTrips (writeChars (List.replicate 200 7) 3) readChars (List.replicate 200 7, 3) ↔
      (List.replicate 200 (7 : UInt8)).length < 256 :=
  chars_roundTrips_iff 3 (List.replicate 200 7) (by decide)

/-- Of 256 bytes none is read. -/
theorem chars_not_always_roundTrips :
    ¬∀ (tag : UInt8) (v : List UInt8), tag.toNat < 128 → v.length < 2 ^ 31 →
      RoundTrips (writeChars v tag) readChars (v, tag) := by
  intro h
  have hlen : (List.replicate 256 (0 : UInt8)).length = 256 := List.length_replicate
  have hv : ¬(List.replicate 256 (0 : UInt8)).length < 256 := by
    rw [hlen]
    decide
  refine not_roundTrips_of_misses (writeChars_writes_byte _ (by decide))
    (readChars_misses_byte 1 hv) (h 1 _ (by decide) ?_)
  rw [hlen]
  decide

end OCServer.Cpp
