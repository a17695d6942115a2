import OCServer.Proto.JavaOut

/-!
# Integers of the four widths

`ProtoOutputStream` has one writer for each of `byte`, `short`, `int` and
`long`, and `ProtoInputStream` one reader.  The encoding depends on the
number only: `read_integer` says that the four writers agree, and that a
reader gives the number back if and only if it is in its own range.
-/

namespace OCServer.Java

open BigEndian ByteIO ByteSource

/-- The integer types. -/
inductive IntegerType
  | byte
  | short
  | int
  | long
  deriving DecidableEq, Repr

/-- The type as a type of fields. -/
def IntegerType.ty : IntegerType → Ty
  | .byte => .byte
  | .short => .prim .short
  | .int => .prim .int
  | .long => .prim .long

/-- The number of bits. -/
def IntegerType.width : IntegerType → Nat
  | .byte => 8
  | .short => 16
  | .int => 32
  | .long => 64

/-- The widest type code that the reader of the type knows. -/
def IntegerType.widest : IntegerType → UInt8
  | .byte => protoByte
  | .short => protoShort
  | .int => protoInt
  | .long => protoLong

/-- The number that a value is. -/
def IntegerType.number : (t : IntegerType) → Val t.ty → Int
  | .byte => fun v : BitVec 8 => v.toInt
  | .short => fun v : BitVec 16 => v.toInt
  | .int => fun v : BitVec 32 => v.toInt
  | .long => fun v : BitVec 64 => v.toInt

/-- The type has a value for the number. -/
def IntegerType.InRange (t : IntegerType) (n : Int) : Prop :=
  -2 ^ (t.width - 1) ≤ n ∧ n < 2 ^ (t.width - 1)

/-- A number is in the range of a type if and only if the type has it. -/
theorem IntegerType.inRange_iff (t : IntegerType) (n : Int) :
    t.InRange n ↔ ∃ v, t.number v = n := by
  have hbits : ∀ w, 0 < w → ((-2 ^ (w - 1) ≤ n ∧ n < 2 ^ (w - 1)) ↔
      ∃ v : BitVec w, v.toInt = n) := by
    intro w hw
    constructor
    · intro h
      exact ⟨BitVec.ofInt w n, BitVec.toInt_ofInt_eq_self hw h.1 h.2⟩
    · intro h
      rcases h with ⟨v, rfl⟩
      exact ⟨BitVec.le_toInt (x := v), BitVec.toInt_lt (x := v)⟩
  cases t with
  | byte => exact hbits 8 (by decide)
  | short => exact hbits 16 (by decide)
  | int => exact hbits 32 (by decide)
  | long => exact hbits 64 (by decide)

/-- Every number of any of the types is a `long`. -/
theorem IntegerType.number_long (t : IntegerType) (v : Val t.ty) :
    IntegerType.long.InRange (t.number v) := by
  have h := (t.inRange_iff _).mpr ⟨v, rfl⟩
  cases t <;> simp only [InRange, width] at h ⊢ <;> omega

/-- The writers write the number. -/
theorem IntegerType.write_writes (t : IntegerType) (v : Val t.ty) (tag : UInt8) :
    Writes (write t.ty v tag.toNat) (encInt tag (t.number v)) := by
  cases t with
  | byte => exact writeByte_writes v tag
  | short => exact writeShort_writes v tag
  | int => exact writeInt_writes v tag
  | long => exact writeLong_writes v tag

/-- A reader reads what the writer of its own type writes. -/
theorem IntegerType.read_reads [FloatOps] (fuel : Nat) (t : IntegerType) (v : Val t.ty)
    (dflt : Option (Val t.ty)) (tag : UInt8) (isRequire : Bool) :
    Reads (read (fuel + 2) t.ty dflt tag.toNat isRequire) (encInt tag (t.number v)) (some v) := by
  cases t with
  | byte => exact Java.read_reads fuel endTag .byte tag v dflt isRequire trivial
  | short => exact Java.read_reads fuel endTag (.prim .short) tag v dflt isRequire trivial
  | int => exact Java.read_reads fuel endTag (.prim .int) tag v dflt isRequire trivial
  | long => exact Java.read_reads fuel endTag (.prim .long) tag v dflt isRequire trivial

/-- A number that is not zero is written as one of the integer types. -/
theorem IntegerType.encInt_nonzero {n : Int} (hne : n ≠ 0) (hlong : IntegerType.long.InRange n)
    (tag : UInt8) :
    ∃ (t : IntegerType) (value : List UInt8), encInt tag n = encHead t.widest tag ++ value ∧
      t.InRange n := by
  unfold encInt
  rw [if_neg hne]
  repeat' split
  · refine ⟨.byte, _, rfl, ?_⟩
    simp only [InRange, width]
    omega
  · refine ⟨.short, _, rfl, ?_⟩
    simp only [InRange, width]
    omega
  · refine ⟨.int, _, rfl, ?_⟩
    simp only [InRange, width]
    omega
  · exact ⟨.long, _, rfl, hlong⟩

/-! ## Numbers out of range -/

/-- The type code of a number that a type does not have. -/
theorem IntegerType.encInt_wide {t : IntegerType} {n : Int} (h : ¬t.InRange n)
    (hlong : IntegerType.long.InRange n) (tag : UInt8) :
    ∃ type value, encInt tag n = encHead type tag ++ value ∧ t.widest < type ∧
      type ≤ protoLong := by
  have hbyte : ¬(-128 ≤ n ∧ n < 128) := by
    cases t <;> simp only [InRange, width] at h <;> omega
  unfold encInt
  rw [if_neg (by omega), if_neg hbyte]
  split
  · next hshort =>
    refine ⟨protoShort, _, rfl, ?_, by decide⟩
    cases t with
    | byte => decide
    | short | int | long =>
      simp only [InRange, width] at h
      omega
  split
  · next hshort hint =>
    refine ⟨protoInt, _, rfl, ?_, by decide⟩
    cases t with
    | byte | short => decide
    | int | long =>
      simp only [InRange, width] at h
      omega
  · next hshort hint =>
    refine ⟨protoLong, _, rfl, ?_, by decide⟩
    cases t with
    | byte | short | int => decide
    | long => exact absurd hlong h

/-- The reader of a type throws in front of a type code that is too wide. -/
theorem IntegerType.readBody_wide [FloatOps] (fuel : Nat) {t : IntegerType} {type : UInt8}
    (hwide : t.widest < type) (hle : type ≤ protoLong) (tag : UInt8) (i : Int) {b : JBuf}
    {r : List UInt8} (hb : At b (encHead type tag ++ r)) :
    ∃ b', readBody fuel t.ty i b = .error (.decode "type mismatch.") b' := by
  have htype : type.toNat ≤ 3 := hle
  have hpos : t.widest.toNat < type.toNat := hwide
  have hne : type ≠ protoZeroTag := by
    intro h
    rw [h] at htype
    exact absurd htype (by decide)
  -- the arms of the type end with the widest code
  have hunknown : type ∉ arms t.ty := by
    intro h
    have hle : type ≤ t.widest := by
      cases t <;> simp only [ty, arms, List.mem_cons, List.not_mem_nil, or_false, hne, false_or]
        at h
      · exact UInt8.le_of_eq h
      · rcases h with rfl | rfl <;> decide
      · rcases h with rfl | rfl | rfl <;> decide
      · rcases h with rfl | rfl | rfl | rfl <;> decide
    exact absurd hwide (UInt8.not_lt.mpr hle)
  rcases readHead_reads (by omega) tag b r hb with ⟨b₁, hhead, -⟩
  exact ⟨b₁, readBody_unknown fuel i hhead hunknown⟩

/-- A number out of range is not read. -/
theorem IntegerType.read_wide [FloatOps] (fuel : Nat) {t : IntegerType} {n : Int}
    (h : ¬t.InRange n) (hlong : IntegerType.long.InRange n) (dflt : Option (Val t.ty))
    (tag : UInt8) (isRequire : Bool) {b : JBuf} {r : List UInt8} (hb : At b (encInt tag n ++ r)) :
    ∃ b', read (fuel + 2) t.ty dflt tag.toNat isRequire b =
      .error (.decode "type mismatch.") b' := by
  have hhit := skipToTag_hit (fuel + 1) (fieldAt_int tag n) hb
  rcases IntegerType.encInt_wide h hlong tag with ⟨type, value, henc, hwide, hle⟩
  rw [henc, List.append_assoc] at hb
  rcases IntegerType.readBody_wide (fuel + 2) hwide hle tag tag.toNat hb with ⟨b', hbody⟩
  refine ⟨b', ?_⟩
  unfold read optional
  rw [bind_of_ok hhit]
  exact map_of_error some hbody

/-! ## Writers and readers -/

/-- A number that is written at a tag from any of the four types: every type
that has the number writes the same bytes, and a read as any of the four,
whatever follows, gives the number when it is in the range of that type and
throws a `DecodeException` otherwise. -/
theorem read_integer [FloatOps] (fuel : Nat) (t : IntegerType) (v : Val t.ty) (tag : UInt8)
    (ops : List BufOp) :
    ∃ ops' bs, write t.ty v tag.toNat ops = .ok () ops' ∧
      toByteArray ops' = toByteArray ops ++ bs ∧
      (∀ (u : IntegerType) (w : Val u.ty), u.number w = t.number v → ∀ opsᵤ, ∃ opsᵤ',
        write u.ty w tag.toNat opsᵤ = .ok () opsᵤ' ∧
          toByteArray opsᵤ' = toByteArray opsᵤ ++ bs) ∧
      ∀ (u : IntegerType) (dflt : Option (Val u.ty)) (isRequire : Bool) (b : JBuf)
        (r : List UInt8),
        (b.data.take b.limit).drop b.pos = bs ++ r →
        (u.InRange (t.number v) → ∃ w b',
          read (fuel + 2) u.ty dflt tag.toNat isRequire b = .ok (some w) b' ∧
            u.number w = t.number v ∧ b'.pos = b.pos + bs.length) ∧
        (¬u.InRange (t.number v) → ∃ b',
          read (fuel + 2) u.ty dflt tag.toNat isRequire b =
            .error (.decode "type mismatch.") b') := by
  rcases t.write_writes v tag ops with ⟨ops', hwrite, hbytes⟩
  refine ⟨ops', _, hwrite, hbytes, ?_, ?_⟩
  · intro u w hw opsᵤ
    have h := u.write_writes w tag opsᵤ
    rwa [hw] at h
  · intro u dflt isRequire b r hb
    constructor
    · intro hin
      rcases (u.inRange_iff _).mp hin with ⟨w, hw⟩
      have hreads := u.read_reads fuel w dflt tag isRequire
      rw [hw] at hreads
      rcases hreads b r hb with ⟨b', hread, hat, hsame⟩
      exact ⟨w, b', hread, hw, pos_of_at hb hat hsame⟩
    · intro hout
      exact IntegerType.read_wide fuel hout (t.number_long v) dflt tag isRequire hb

end OCServer.Java
