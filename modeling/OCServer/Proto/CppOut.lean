import OCServer.Lib.ByteIO
import OCServer.Proto.Format

/-!
# `ProtoOut`

The C++ writer, over the bytes of its output stream.  `char` is signed, so
the test `tag < 15` of `writeHead` takes a tag from 128 up for a small one,
and the size of a `std::vector<char>` is cast to `char`.

`Faithful` is what a value needs so that neither shows: field tags below
128 and vectors of less than 128 bytes.  `write_writes` says that the writer
then writes the format.
-/

namespace OCServer.Cpp

open BigEndian ByteIO

/-- What the C++ code throws.  `outOfFuel` says that a run was cut off. -/
inductive CppExc
  | protoError (message : String)
  | lengthError
  | outOfFuel
  deriving DecidableEq, Repr

/-- A write to the output stream. -/
abbrev CppOut := EStateM CppExc (List UInt8)

/-- `stream->put` and `stream->write`. -/
def put (bs : List UInt8) : CppOut Unit := fun out => .ok () (out ++ bs)

/-- `writeHead`.  The tag is a signed `char`. -/
def writeHead (type tag : UInt8) : CppOut Unit := do
  if tag.toBitVec.toInt < 15 then put [tag <<< 4 ||| type]
  else
    put [type ||| 240]
    put [tag]

/-- `write( char, tag )`. -/
def writeChar (c : BitVec 8) (tag : UInt8) : CppOut Unit := do
  if c = 0 then writeHead protoZeroTag tag
  else
    writeHead protoByte tag
    put (beBytes 1 c.toNat)

/-- `write( bool, tag )`. -/
def writeBool (b : Bool) (tag : UInt8) : CppOut Unit := writeChar (if b then 1 else 0) tag

/-- `write( short, tag )`. -/
def writeShort (s : BitVec 16) (tag : UInt8) : CppOut Unit := do
  if s.toInt < -128 ∨ s.toInt > 127 then
    writeHead protoShort tag
    put (beBytes 2 s.toNat)
  else writeChar (s.signExtend 8) tag

/-- `write( int, tag )`. -/
def writeInt (i : BitVec 32) (tag : UInt8) : CppOut Unit := do
  if i.toInt < -32768 ∨ i.toInt > 32767 then
    writeHead protoInt tag
    put (beBytes 4 i.toNat)
  else writeShort (i.signExtend 16) tag

/-- `write( long, tag )`. -/
def writeLong (l : BitVec 64) (tag : UInt8) : CppOut Unit := do
  if l.toInt < -2147483648 ∨ l.toInt > 2147483647 then
    writeHead protoLong tag
    put (beBytes 8 l.toNat)
  else writeInt (l.signExtend 32) tag

/-- `write( unsigned short, tag )`. -/
def writeUShort (s : BitVec 16) (tag : UInt8) : CppOut Unit := writeInt (s.setWidth 32) tag

/-- `write( unsigned int, tag )`. -/
def writeUInt (u : BitVec 32) (tag : UInt8) : CppOut Unit := writeLong (u.setWidth 64) tag

/-- `write( float, tag )`. -/
def writeFloat (f : BitVec 32) (tag : UInt8) : CppOut Unit := do
  writeHead protoFloat tag
  put (beBytes 4 f.toNat)

/-- `write( double, tag )`. -/
def writeDouble (d : BitVec 64) (tag : UInt8) : CppOut Unit := do
  writeHead protoDouble tag
  put (beBytes 8 d.toNat)

/-- `write( std::string, tag )`.  The length is an `int`. -/
def writeString (s : List UInt8) (tag : UInt8) : CppOut Unit := do
  let len := BitVec.ofNat 32 s.length
  if len.toInt > protoMaxStringLength then
    throw (.protoError
      s!"String length greater than Proto_MAX_STRING_LENGTH, size {len.toInt}")
  if len.toInt > 255 then
    writeHead protoString4 tag
    put (beBytes 4 len.toNat)
    put (s.take len.toInt.toNat)
  else
    writeHead protoString1 tag
    put (beBytes 1 len.toNat)
    put (s.take len.toInt.toNat)

/-- `write( std::vector<char>, tag )`.  The size is cast to `char`. -/
def writeChars (v : List UInt8) (tag : UInt8) : CppOut Unit := do
  writeHead protoSimpleList tag
  writeHead protoByte 0
  writeChar (BitVec.ofNat 8 v.length) 0
  put v

/-- The scalars. -/
def writePrim : (p : Prim) → PrimVal p → UInt8 → CppOut Unit
  | .bool => writeBool
  | .short => writeShort
  | .int => writeInt
  | .long => writeLong
  | .float => writeFloat
  | .double => writeDouble

/-- `write( T const &, tag )` for a vector. -/
def writeVector {α : Type} (element : α → UInt8 → CppOut Unit) (v : List α) (tag : UInt8) :
    CppOut Unit := do
  writeHead protoList tag
  writeInt (BitVec.ofNat 32 v.length) 0
  writeAll (fun it => element it 0) v

/-- `write( T const &, tag )` for a map. -/
def writeMap {κ ν : Type} (key : κ → UInt8 → CppOut Unit) (value : ν → UInt8 → CppOut Unit)
    (m : List (κ × ν)) (tag : UInt8) : CppOut Unit := do
  writeHead protoMap tag
  writeInt (BitVec.ofNat 32 m.length) 0
  writeAll (fun it => do
    key it.1 0
    value it.2 1) m

mutual

/-- The overloads of `write` by type.  A vector of `char` has the writer of
`bytes`. -/
def write : (t : Ty) → Val t → UInt8 → CppOut Unit
  | .byte => writeChar
  | .prim p => writePrim p
  | .string => writeString
  | .bytes => writeChars
  | .array p => writeVector (writePrim p)
  | .list .byte => fun v => writeChars (v.map UInt8.ofBitVec)
  | .list t => writeVector (write t)
  | .strMap => writeMap writeString writeString
  | .map k v => writeMap (write k) (write v)
  | .struct fs => fun v tag => do
    writeHead protoStructBegin tag
    writeTo fs v
    writeHead protoStructEnd tag

/-- `writeTo`: every field of the struct at its tag. -/
def writeTo : (fs : Fields) → FieldVals fs → CppOut Unit
  | .nil => fun _ => pure ()
  | .cons tag t fs => fun v => do
    write t v.1 tag
    writeTo fs v.2

end

/-! ## The writer writes the format -/

mutual

/-- No field tag and no size of a `std::vector<char>` leaves the range of a
signed `char`, and no list of bytes, which is not written as a list. -/
def Faithful : (t : Ty) → Val t → Prop
  | .byte, _ => True
  | .prim _, _ => True
  | .string, _ => True
  | .bytes, v => v.length < 128
  | .array _, _ => True
  | .list .byte, _ => False
  | .list t, vs => ∀ v ∈ vs, Faithful t v
  | .strMap, _ => True
  | .map k v, m => ∀ e ∈ m, Faithful k e.1 ∧ Faithful v e.2
  | .struct fs, v => FaithfulFields fs v

def FaithfulFields : (fs : Fields) → FieldVals fs → Prop
  | .nil, _ => True
  | .cons tag t fs, v => tag.toNat < 128 ∧ Faithful t v.1 ∧ FaithfulFields fs v.2

end

instance : ByteSink (List UInt8) where
  Wrote out bs out' := out' = out ++ bs
  nil out := (List.append_nil out).symm
  append h h' := by rw [h', h, List.append_assoc]

theorem put_writes (bs : List UInt8) : Writes (put bs) bs := fun _ => ⟨_, rfl, rfl⟩

theorem writeHead_writes (type : UInt8) {tag : UInt8} (h : tag.toNat < 128) :
    Writes (writeHead type tag) (encHead type tag) := by
  have hint : tag.toBitVec.toInt = tag.toNat :=
    BitVec.toInt_eq_toNat_of_lt (by show 2 * tag.toNat < 2 ^ 8; omega)
  unfold writeHead encHead
  rw [hint]
  by_cases hlt : tag < 15
  · have h' : (tag.toNat : Int) < 15 := by exact_mod_cast hlt
    rw [if_pos hlt, if_pos h']
    exact put_writes _
  · have h' : ¬(tag.toNat : Int) < 15 := by exact_mod_cast hlt
    rw [if_neg hlt, if_neg h', UInt8.or_comm]
    exact Writes.bind (put_writes [0xF0 ||| type]) (put_writes [tag])

theorem writeChar_writes (c : BitVec 8) {tag : UInt8} (h : tag.toNat < 128) :
    Writes (writeChar c tag) (encInt tag c.toInt) := by
  have hlo := BitVec.le_toInt (x := c)
  have hhi := BitVec.toInt_lt (x := c)
  unfold writeChar encInt
  by_cases hc : c = 0
  · rw [if_pos hc, if_pos (by rw [hc]; rfl)]
    exact writeHead_writes _ h
  · have hne : c.toInt ≠ 0 := fun heq => hc (BitVec.eq_of_toInt_eq (heq.trans rfl))
    rw [if_neg hc, if_neg hne, if_pos ⟨by omega, by omega⟩, BitVec.ofInt_toInt]
    exact Writes.bind (writeHead_writes _ h) (put_writes _)

theorem writeShort_writes (s : BitVec 16) {tag : UInt8} (h : tag.toNat < 128) :
    Writes (writeShort s tag) (encInt tag s.toInt) := by
  have hlo := BitVec.le_toInt (x := s)
  have hhi := BitVec.toInt_lt (x := s)
  unfold writeShort
  by_cases hwide : s.toInt < -128 ∨ s.toInt > 127
  · unfold encInt
    rw [if_pos hwide, if_neg (by omega), if_neg (by omega), if_pos ⟨by omega, by omega⟩,
      BitVec.ofInt_toInt]
    exact Writes.bind (writeHead_writes _ h) (put_writes _)
  · rw [if_neg hwide, ← toInt_narrow s (k := 8) (by omega) (by omega) (by omega) (by omega)]
    exact writeChar_writes _ h

theorem writeInt_writes (i : BitVec 32) {tag : UInt8} (h : tag.toNat < 128) :
    Writes (writeInt i tag) (encInt tag i.toInt) := by
  have hlo := BitVec.le_toInt (x := i)
  have hhi := BitVec.toInt_lt (x := i)
  unfold writeInt
  by_cases hwide : i.toInt < -32768 ∨ i.toInt > 32767
  · unfold encInt
    rw [if_pos hwide, if_neg (by omega), if_neg (by omega), if_neg (by omega),
      if_pos ⟨by omega, by omega⟩, BitVec.ofInt_toInt]
    exact Writes.bind (writeHead_writes _ h) (put_writes _)
  · rw [if_neg hwide, ← toInt_narrow i (k := 16) (by omega) (by omega) (by omega) (by omega)]
    exact writeShort_writes _ h

theorem writeLong_writes (l : BitVec 64) {tag : UInt8} (h : tag.toNat < 128) :
    Writes (writeLong l tag) (encInt tag l.toInt) := by
  unfold writeLong
  by_cases hwide : l.toInt < -2147483648 ∨ l.toInt > 2147483647
  · unfold encInt
    rw [if_pos hwide, if_neg (by omega), if_neg (by omega), if_neg (by omega),
      if_neg (by omega), BitVec.ofInt_toInt]
    exact Writes.bind (writeHead_writes _ h) (put_writes _)
  · rw [if_neg hwide, ← toInt_narrow l (k := 32) (by omega) (by omega) (by omega) (by omega)]
    exact writeInt_writes _ h

theorem writePrim_writes (p : Prim) (v : PrimVal p) {tag : UInt8} (h : tag.toNat < 128) :
    Writes (writePrim p v tag) (encPrim tag p v) := by
  cases p with
  | bool =>
    have hchar := writeChar_writes (if v then 1 else 0) h
    cases v <;> exact hchar
  | short => exact writeShort_writes v h
  | int => exact writeInt_writes v h
  | long => exact writeLong_writes v h
  | float => exact Writes.bind (writeHead_writes _ h) (put_writes _)
  | double => exact Writes.bind (writeHead_writes _ h) (put_writes _)

theorem writeString_writes {s : List UInt8} {tag : UInt8}
    (hs : s.length ≤ protoMaxStringLength) (h : tag.toNat < 128) :
    Writes (writeString s tag) (encString tag s) := by
  have hmax : s.length ≤ 104857600 := hs
  have hint : (BitVec.ofNat 32 s.length).toInt = s.length := toInt_size (by omega)
  have hnat : (BitVec.ofNat 32 s.length).toNat = s.length := by
    rw [BitVec.toNat_ofNat]
    omega
  unfold writeString encString
  simp only [hint, hnat, Int.toNat_natCast, List.take_length]
  rw [if_neg (by omega)]
  by_cases hlong : 255 < s.length
  · rw [if_pos hlong, if_pos (by omega), List.append_assoc]
    exact Writes.bind (writeHead_writes _ h) (Writes.bind (put_writes _) (put_writes _))
  · rw [if_neg hlong, if_neg (by omega), List.append_assoc]
    exact Writes.bind (writeHead_writes _ h) (Writes.bind (put_writes _) (put_writes _))

theorem writeChars_writes {v : List UInt8} {tag : UInt8} (hv : v.length < 128)
    (h : tag.toNat < 128) :
    Writes (writeChars v tag)
      (encHead protoSimpleList tag ++ encHead protoByte 0 ++ encSize v.length ++ v) := by
  have hsize : (BitVec.ofNat 8 v.length).toInt = (BitVec.ofNat 32 v.length).toInt := by
    rw [toInt_size (by omega), BitVec.toInt_ofNat']
    exact Int.bmod_eq_of_le (by omega) (by omega)
  unfold writeChars encSize
  rw [← hsize, List.append_assoc, List.append_assoc]
  exact Writes.bind (writeHead_writes _ h) (Writes.bind (writeHead_writes _ (by decide))
    (Writes.bind (writeChar_writes _ (by decide)) (put_writes v)))

theorem writeVector_writes {α : Type} {element : α → UInt8 → CppOut Unit}
    {encElem : α → List UInt8} (v : List α) {tag : UInt8} (htag : tag.toNat < 128)
    (h : ∀ e ∈ v, Writes (element e 0) (encElem e)) :
    Writes (writeVector element v tag)
      (encHead protoList tag ++ encSize v.length ++ v.flatMap encElem) := by
  unfold writeVector
  rw [List.append_assoc]
  exact Writes.bind (writeHead_writes _ htag)
    (Writes.bind (writeInt_writes _ (by decide)) (Writes.writeAll v h))

theorem writeMap_writes {κ ν : Type} {key : κ → UInt8 → CppOut Unit}
    {value : ν → UInt8 → CppOut Unit} {encKey : κ → List UInt8} {encValue : ν → List UInt8}
    (m : List (κ × ν)) {tag : UInt8} (htag : tag.toNat < 128)
    (hk : ∀ e ∈ m, Writes (key e.1 0) (encKey e.1))
    (hv : ∀ e ∈ m, Writes (value e.2 1) (encValue e.2)) :
    Writes (writeMap key value m tag)
      (encHead protoMap tag ++ encSize m.length ++
        m.flatMap fun e => encKey e.1 ++ encValue e.2) := by
  unfold writeMap
  rw [List.append_assoc]
  exact Writes.bind (writeHead_writes _ htag)
    (Writes.bind (writeInt_writes _ (by decide))
      (Writes.writeAll m fun e he => Writes.bind (hk e he) (hv e he)))

theorem write_list {t : Ty} (ht : t ≠ .byte) : write (.list t) = writeVector (write t) := by
  cases t with
  | byte => exact absurd rfl ht
  | _ => rfl

theorem faithful_list {t : Ty} {vs : List (Val t)} (h : Faithful (.list t) vs) :
    t ≠ .byte ∧ ∀ v ∈ vs, Faithful t v := by
  cases t with
  | byte => exact h.elim
  | _ => exact ⟨nofun, h⟩

mutual

/-- The writer writes the format, for every faithful value. -/
theorem write_writes : ∀ (t : Ty) (v : Val t) {tag : UInt8}, tag.toNat < 128 → Ok t v →
    Faithful t v → Writes (write t v tag) (enc id t tag v)
  | .byte, v, _, h, _, _ => writeChar_writes v h
  | .prim p, v, _, h, _, _ => writePrim_writes p v h
  | .string, _, _, h, hok, _ => writeString_writes hok h
  | .bytes, _, _, h, _, hf => writeChars_writes hf h
  | .array p, v, _, h, _, _ =>
    writeVector_writes v h fun e _ => writePrim_writes p e (by decide)
  | .list t, v, _, h, hok, hf => by
    rw [write_list (faithful_list hf).1]
    exact writeVector_writes v h fun e he =>
      write_writes t e (by decide) (hok e he) ((faithful_list hf).2 e he)
  | .strMap, m, _, h, hok, _ =>
    writeMap_writes m h (fun e he => writeString_writes (hok.2 e he).1 (by decide))
      (fun e he => writeString_writes (hok.2 e he).2 (by decide))
  | .map k v, m, _, h, hok, hf =>
    writeMap_writes m h
      (fun e he => write_writes k e.1 (by decide) (hok.2 e he).1 (hf e he).1)
      (fun e he => write_writes v e.2 (by decide) (hok.2 e he).2 (hf e he).2)
  | .struct fs, v, tag, h, hok, hf => by
    unfold write enc
    rw [List.append_assoc]
    exact Writes.bind (writeHead_writes _ h)
      (Writes.bind (writeTo_writes fs v hok hf) (writeHead_writes _ h))

theorem writeTo_writes : ∀ (fs : Fields) (v : FieldVals fs), OkFields fs v →
    FaithfulFields fs v → Writes (writeTo fs v) (encFields id fs v)
  | .nil, _, _, _ => Writes.pure
  | .cons _ t fs, v, hok, hf => by
    unfold writeTo encFields
    exact Writes.bind (write_writes t v.1 hf.1 hok.1 hf.2.1) (writeTo_writes fs v.2 hok.2 hf.2.2)

end

end OCServer.Cpp
