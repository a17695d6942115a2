import OCServer.Lib.ByteIO
import OCServer.Proto.JavaRead

/-!
# `ProtoOutputStream`

The Java writer.  A write is recorded as the calls that it makes on the
buffer: `reserve`, which may replace the buffer by a larger one, and `put`.
The bytes of the stream are those of its `put` calls.

`write_writes` says that it writes the format, and `read_write` is the round
trip through `ProtoInputStream`.
-/

namespace OCServer.Java

open BigEndian ByteIO ByteSource

/-- A call that a write makes on the buffer. -/
inductive BufOp
  | reserve (len : Nat)
  | put (bs : List UInt8)
  deriving DecidableEq, Repr

/-- `toByteArray`: the bytes that have been put. -/
def toByteArray (ops : List BufOp) : List UInt8 :=
  ops.flatMap fun
    | .reserve _ => []
    | .put bs => bs

/-- What a write throws. -/
inductive JOutExc
  | encode (message : String)
  deriving DecidableEq, Repr

/-- A write. -/
abbrev JOut := EStateM JOutExc (List BufOp)

/-- `reserve`. -/
def reserve (len : Nat) : JOut Unit := fun ops => .ok () (ops ++ [.reserve len])

/-- `bs.put`, `bs.putShort` and the like. -/
def put (bs : List UInt8) : JOut Unit := fun ops => .ok () (ops ++ [.put bs])

/-- `writeHead`. -/
def writeHead (type : UInt8) (tag : Int) : JOut Unit := do
  if tag < 15 then
    put [UInt8.ofBitVec (BitVec.ofInt 8 tag <<< 4 ||| type.toBitVec)]
  else if tag < 256 then
    put [0xF0 ||| type]
    put [UInt8.ofBitVec (BitVec.ofInt 8 tag)]
  else throw (.encode s!"tag is too large: {tag}")

/-- `write( byte, tag )`. -/
def writeByte (b : BitVec 8) (tag : Int) : JOut Unit := do
  reserve 3
  if b = 0 then writeHead protoZeroTag tag
  else
    writeHead protoByte tag
    put (beBytes 1 b.toNat)

/-- `write( boolean, tag )`. -/
def writeBool (b : Bool) (tag : Int) : JOut Unit :=
  writeByte (if b then 1 else 0) tag

/-- `write( short, tag )`. -/
def writeShort (n : BitVec 16) (tag : Int) : JOut Unit := do
  reserve 4
  if -128 ≤ n.toInt ∧ n.toInt ≤ 127 then writeByte (n.signExtend 8) tag
  else
    writeHead protoShort tag
    put (beBytes 2 n.toNat)

/-- `write( int, tag )`. -/
def writeInt (n : BitVec 32) (tag : Int) : JOut Unit := do
  reserve 6
  if -32768 ≤ n.toInt ∧ n.toInt ≤ 32767 then writeShort (n.signExtend 16) tag
  else
    writeHead protoInt tag
    put (beBytes 4 n.toNat)

/-- `write( long, tag )`. -/
def writeLong (n : BitVec 64) (tag : Int) : JOut Unit := do
  reserve 10
  if -2147483648 ≤ n.toInt ∧ n.toInt ≤ 2147483647 then writeInt (n.signExtend 32) tag
  else
    writeHead protoLong tag
    put (beBytes 8 n.toNat)

/-- `write( float, tag )`. -/
def writeFloat (n : BitVec 32) (tag : Int) : JOut Unit := do
  reserve 6
  writeHead protoFloat tag
  put (beBytes 4 n.toNat)

/-- `write( double, tag )`. -/
def writeDouble (n : BitVec 64) (tag : Int) : JOut Unit := do
  reserve 10
  writeHead protoDouble tag
  put (beBytes 8 n.toNat)

/-- `write( String, tag )`, after the string was turned into bytes. -/
def writeString (by_ : List UInt8) (tag : Int) : JOut Unit := do
  reserve (10 + by_.length)
  if 255 < by_.length then
    writeHead protoString4 tag
    put (beBytes 4 by_.length)
    put by_
  else
    writeHead protoString1 tag
    put (beBytes 1 by_.length)
    put by_

/-- `write( byte[], tag )`. -/
def writeByteArray (l : List UInt8) (tag : Int) : JOut Unit := do
  reserve (8 + l.length)
  writeHead protoSimpleList tag
  writeHead protoByte 0
  writeInt (BitVec.ofNat 32 l.length) 0
  put l

/-- The scalars. -/
def writePrim : (p : Prim) → PrimVal p → Int → JOut Unit
  | .bool => writeBool
  | .short => writeShort
  | .int => writeInt
  | .long => writeLong
  | .float => writeFloat
  | .double => writeDouble

/-- The arrays of scalars, `writeArray` and `write( Collection, tag )`. -/
def writeList {α : Type} (element : α → Int → JOut Unit) (l : List α) (tag : Int) :
    JOut Unit := do
  reserve 8
  writeHead protoList tag
  writeInt (BitVec.ofNat 32 l.length) 0
  writeAll (fun e => element e 0) l

/-- `write( Map, tag )`. -/
def writeMap {κ ν : Type} (key : κ → Int → JOut Unit) (value : ν → Int → JOut Unit)
    (m : List (κ × ν)) (tag : Int) : JOut Unit := do
  reserve 8
  writeHead protoMap tag
  writeInt (BitVec.ofNat 32 m.length) 0
  writeAll (fun en => do
    key en.1 0
    value en.2 1) m

mutual

/-- `write( Object, tag )`. -/
def write : (t : Ty) → Val t → Int → JOut Unit
  | .byte => writeByte
  | .prim p => writePrim p
  | .string => writeString
  | .bytes => writeByteArray
  | .array p => writeList (writePrim p)
  | .list t => writeList (write t)
  | .strMap => writeMap writeString writeString
  | .map k v => writeMap (write k) (write v)
  | .struct fs => fun v tag => do
    reserve 2
    writeHead protoStructBegin tag
    writeTo fs v
    reserve 2
    writeHead protoStructEnd 0

/-- `writeTo`: every field of the struct at its tag. -/
def writeTo : (fs : Fields) → FieldVals fs → JOut Unit
  | .nil => fun _ => pure ()
  | .cons tag t fs => fun v => do
    write t v.1 tag.toNat
    writeTo fs v.2

end

/-! ## The writer writes the format -/

instance : ByteSink (List BufOp) where
  Wrote ops bs ops' := toByteArray ops' = toByteArray ops ++ bs
  nil ops := (List.append_nil _).symm
  append h h' := by rw [h', h, List.append_assoc]

theorem reserve_writes (len : Nat) : Writes (reserve len) [] := by
  intro ops
  refine ⟨_, rfl, ?_⟩
  show toByteArray (ops ++ [.reserve len]) = toByteArray ops ++ []
  simp [toByteArray]

theorem put_writes (bs : List UInt8) : Writes (put bs) bs := by
  intro ops
  refine ⟨_, rfl, ?_⟩
  show toByteArray (ops ++ [.put bs]) = toByteArray ops ++ bs
  simp [toByteArray]

/-- Reserving room writes nothing. -/
theorem reserve_then {len : Nat} {f : Unit → JOut Unit} {bs : List UInt8}
    (h : Writes (f ()) bs) : Writes (reserve len >>= f) bs :=
  Writes.bind (reserve_writes len) h

theorem writeHead_writes (type tag : UInt8) :
    Writes (writeHead type tag.toNat) (encHead type tag) := by
  have htag : BitVec.ofInt 8 tag.toNat = tag.toBitVec := by
    rw [BitVec.ofInt_natCast]
    exact BitVec.ofNat_toNat _ tag.toBitVec
  have hlt := tag.toNat_lt
  unfold writeHead encHead
  rw [htag]
  by_cases h : tag < 15
  · have h' : (tag.toNat : Int) < 15 := by exact_mod_cast h
    rw [if_pos h, if_pos h']
    exact put_writes _
  · have h' : ¬(tag.toNat : Int) < 15 := by exact_mod_cast h
    rw [if_neg h, if_neg h', if_pos (by omega)]
    exact Writes.bind (put_writes [0xF0 ||| type]) (put_writes [tag])

theorem writeByte_writes (b : BitVec 8) (tag : UInt8) :
    Writes (writeByte b tag.toNat) (encInt tag b.toInt) := by
  have hlo := BitVec.le_toInt (x := b)
  have hhi := BitVec.toInt_lt (x := b)
  unfold writeByte encInt
  apply reserve_then
  by_cases hb : b = 0
  · rw [if_pos hb, if_pos (by rw [hb]; rfl)]
    exact writeHead_writes _ tag
  · have hne : b.toInt ≠ 0 := fun h => hb (BitVec.eq_of_toInt_eq (h.trans rfl))
    rw [if_neg hb, if_neg hne, if_pos ⟨by omega, by omega⟩, BitVec.ofInt_toInt]
    exact Writes.bind (writeHead_writes _ tag) (put_writes _)

theorem writeShort_writes (n : BitVec 16) (tag : UInt8) :
    Writes (writeShort n tag.toNat) (encInt tag n.toInt) := by
  have hlo := BitVec.le_toInt (x := n)
  have hhi := BitVec.toInt_lt (x := n)
  unfold writeShort
  apply reserve_then
  by_cases h : -128 ≤ n.toInt ∧ n.toInt ≤ 127
  · rw [if_pos h, ← toInt_narrow n (k := 8) (by omega) (by omega) h.1 (by omega)]
    exact writeByte_writes _ tag
  · unfold encInt
    rw [if_neg h, if_neg (by omega), if_neg (by omega), if_pos ⟨by omega, by omega⟩,
      BitVec.ofInt_toInt]
    exact Writes.bind (writeHead_writes _ tag) (put_writes _)

theorem writeInt_writes (n : BitVec 32) (tag : UInt8) :
    Writes (writeInt n tag.toNat) (encInt tag n.toInt) := by
  have hlo := BitVec.le_toInt (x := n)
  have hhi := BitVec.toInt_lt (x := n)
  unfold writeInt
  apply reserve_then
  by_cases h : -32768 ≤ n.toInt ∧ n.toInt ≤ 32767
  · rw [if_pos h, ← toInt_narrow n (k := 16) (by omega) (by omega) h.1 (by omega)]
    exact writeShort_writes _ tag
  · unfold encInt
    rw [if_neg h, if_neg (by omega), if_neg (by omega), if_neg (by omega),
      if_pos ⟨by omega, by omega⟩, BitVec.ofInt_toInt]
    exact Writes.bind (writeHead_writes _ tag) (put_writes _)

theorem writeLong_writes (n : BitVec 64) (tag : UInt8) :
    Writes (writeLong n tag.toNat) (encInt tag n.toInt) := by
  unfold writeLong
  apply reserve_then
  by_cases h : -2147483648 ≤ n.toInt ∧ n.toInt ≤ 2147483647
  · rw [if_pos h, ← toInt_narrow n (k := 32) (by omega) (by omega) h.1 (by omega)]
    exact writeInt_writes _ tag
  · unfold encInt
    rw [if_neg h, if_neg (by omega), if_neg (by omega), if_neg (by omega),
      if_neg (by omega), BitVec.ofInt_toInt]
    exact Writes.bind (writeHead_writes _ tag) (put_writes _)

theorem writePrim_writes (p : Prim) (v : PrimVal p) (tag : UInt8) :
    Writes (writePrim p v tag.toNat) (encPrim tag p v) := by
  cases p with
  | bool =>
    have h := writeByte_writes (if v then 1 else 0) tag
    cases v <;> exact h
  | short => exact writeShort_writes v tag
  | int => exact writeInt_writes v tag
  | long => exact writeLong_writes v tag
  | float => exact reserve_then (Writes.bind (writeHead_writes _ tag) (put_writes _))
  | double => exact reserve_then (Writes.bind (writeHead_writes _ tag) (put_writes _))

theorem writeString_writes (s : List UInt8) (tag : UInt8) :
    Writes (writeString s tag.toNat) (encString tag s) := by
  unfold writeString encString
  apply reserve_then
  split <;> rw [List.append_assoc] <;>
    exact Writes.bind (writeHead_writes _ tag) (Writes.bind (put_writes _) (put_writes _))

theorem writeByteArray_writes (l : List UInt8) (tag : UInt8) :
    Writes (writeByteArray l tag.toNat)
      (encHead protoSimpleList tag ++ encHead protoByte 0 ++ encSize l.length ++ l) := by
  rw [List.append_assoc, List.append_assoc]
  apply reserve_then
  refine Writes.bind (writeHead_writes _ tag) (Writes.bind (writeHead_writes _ 0) ?_)
  exact Writes.bind (writeInt_writes _ 0) (put_writes l)

/-- A container, when the loop writes what is in it. -/
theorem writeContainer_writes {w : JOut Unit} {bs : List UInt8} (type tag : UInt8) (n : Nat)
    (h : Writes w bs) :
    Writes (do reserve 8; writeHead type tag.toNat; writeInt (BitVec.ofNat 32 n) 0; w)
      (encHead type tag ++ encSize n ++ bs) := by
  rw [List.append_assoc]
  apply reserve_then
  exact Writes.bind (writeHead_writes _ tag) (Writes.bind (writeInt_writes _ 0) h)

theorem writeList_writes {α : Type} {element : α → Int → JOut Unit}
    {encElem : α → List UInt8} (l : List α) (tag : UInt8)
    (h : ∀ e ∈ l, Writes (element e (0 : UInt8).toNat) (encElem e)) :
    Writes (writeList element l tag.toNat)
      (encHead protoList tag ++ encSize l.length ++ l.flatMap encElem) := by
  unfold writeList
  exact writeContainer_writes protoList tag l.length (Writes.writeAll l h)

theorem writeMap_writes {κ ν : Type} {key : κ → Int → JOut Unit}
    {value : ν → Int → JOut Unit} {encKey : κ → List UInt8} {encValue : ν → List UInt8}
    (m : List (κ × ν)) (tag : UInt8)
    (hk : ∀ e ∈ m, Writes (key e.1 (0 : UInt8).toNat) (encKey e.1))
    (hv : ∀ e ∈ m, Writes (value e.2 (1 : UInt8).toNat) (encValue e.2)) :
    Writes (writeMap key value m tag.toNat)
      (encHead protoMap tag ++ encSize m.length ++
        m.flatMap fun e => encKey e.1 ++ encValue e.2) := by
  unfold writeMap
  exact writeContainer_writes protoMap tag m.length
    (Writes.writeAll m fun e he => Writes.bind (hk e he) (hv e he))

/-- The tag with which the Java writer ends a struct. -/
def endTag (_ : UInt8) : UInt8 := 0

mutual

/-- The writer writes the format, for every value. -/
theorem write_writes : ∀ (t : Ty) (v : Val t) (tag : UInt8),
    Writes (write t v tag.toNat) (enc endTag t tag v)
  | .byte, v, tag => writeByte_writes v tag
  | .prim p, v, tag => writePrim_writes p v tag
  | .string, v, tag => writeString_writes v tag
  | .bytes, v, tag => writeByteArray_writes v tag
  | .array p, v, tag => writeList_writes v tag fun e _ => writePrim_writes p e 0
  | .list t, v, tag => writeList_writes v tag fun e _ => write_writes t e 0
  | .strMap, m, tag =>
    writeMap_writes m tag (fun e _ => writeString_writes e.1 0)
      (fun e _ => writeString_writes e.2 1)
  | .map k v, m, tag =>
    writeMap_writes m tag (fun e _ => write_writes k e.1 0) (fun e _ => write_writes v e.2 1)
  | .struct fs, v, tag => by
    unfold write enc
    apply reserve_then
    rw [List.append_assoc]
    exact Writes.bind (writeHead_writes _ tag)
      (Writes.bind (writeTo_writes fs v) (reserve_then (writeHead_writes _ 0)))

theorem writeTo_writes : ∀ (fs : Fields) (v : FieldVals fs),
    Writes (writeTo fs v) (encFields endTag fs v)
  | .nil, _ => Writes.pure
  | .cons tag t fs, v => by
    unfold writeTo encFields
    exact Writes.bind (write_writes t v.1 tag) (writeTo_writes fs v.2)

end

/-! ## The round trip -/

/-- A value that is written at a tag is read back at that tag, whatever
bytes follow, and the position is right behind the written bytes. -/
theorem read_write [FloatOps] (fuel : Nat) (t : Ty) (tag : UInt8) (v : Val t)
    (dflt : Option (Val t)) (isRequire : Bool) (h : Ok t v) (ops : List BufOp) :
    ∃ ops' bs, write t v tag.toNat ops = .ok () ops' ∧
      toByteArray ops' = toByteArray ops ++ bs ∧
      ∀ (b : JBuf) (r : List UInt8), (b.data.take b.limit).drop b.pos = bs ++ r →
        ∃ b', read (fuel + 2) t dflt tag.toNat isRequire b = .ok (some v) b' ∧
          b'.pos = b.pos + bs.length ∧ b'.data = b.data ∧ b'.limit = b.limit := by
  obtain ⟨ops', hops', hbytes⟩ := write_writes t v tag ops
  refine ⟨ops', _, hops', hbytes, fun b r hb => ?_⟩
  obtain ⟨b', hread, hat, hdata, hlimit⟩ := read_reads fuel endTag t tag v dflt isRequire h b r hb
  exact ⟨b', hread, pos_of_at hb hat ⟨hdata, hlimit⟩, hdata, hlimit⟩

/-- A list of two strings, at a tag that takes a header of two bytes. -/
theorem read_write_strings : ∃ ops' bs,
    write (.list .string) [[104, 105], []] 200 [] = .ok () ops' ∧
    toByteArray ops' = toByteArray [] ++ bs ∧
    ∀ (b : JBuf) (r : List UInt8), (b.data.take b.limit).drop b.pos = bs ++ r →
      ∃ b', @read ⟨fun v => v.setWidth 64, fun _ => [], fun _ => []⟩ 2 (.list .string)
          (some [[97]]) 200 true b = .ok (some [[104, 105], []]) b' ∧
        b'.pos = b.pos + bs.length ∧ b'.data = b.data ∧ b'.limit = b.limit :=
  @read_write ⟨fun v => v.setWidth 64, fun _ => [], fun _ => []⟩ 0 (.list .string) 200
    [[104, 105], []] (some [[97]]) true (by simp [Ok, protoMaxStringLength]) []

end OCServer.Java
