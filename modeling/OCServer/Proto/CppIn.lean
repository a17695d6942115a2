import OCServer.Proto.CppOut

/-!
# `ProtoIn`

The C++ reader, over a model of `std::istream`.  A `get` that finds no byte
sets the fail state and leaves its target as it was; no reader looks at that
state.  A local variable that is declared without a value takes the next
byte of `junk`, so that a statement for every `junk` holds whatever such a
variable contains.

Bytes are `char`s, whose sign only shows where the source converts them.
The overloads of `read` that read one integer are `readInteger` with the
widest type code that they accept.
-/

namespace OCServer.Cpp

open BigEndian ByteIO

/-! ## The stream -/

/-- A `std::istream`: its buffer and position, and whether a `get` has
failed.  A `std::stringbuf` can seek, a `membuf` cannot. -/
structure IStream where
  data : List UInt8
  pos : Nat
  fail : Bool
  seekable : Bool
  junk : Nat → UInt8

/-- A program over the stream. -/
abbrev CppIn := EStateM CppExc IStream

/-- `char a;` -/
def declare : CppIn UInt8 := fun s =>
  .ok (s.junk 0) { s with junk := fun i => s.junk (i + 1) }

/-- `stream->get( a )`, where `a` holds `target`. -/
def getInto (target : UInt8) : CppIn UInt8 := fun s =>
  if s.fail then .ok target s
  else match s.data[s.pos]? with
    | some b => .ok b { s with pos := s.pos + 1 }
    | none => .ok target { s with fail := true }

/-- `stream->read( &str[0], n )` into `n` zero bytes. -/
def readInto (n : Nat) : CppIn (List UInt8) := fun s =>
  let got := (s.data.drop s.pos).take n
  if s.fail then .ok (List.replicate n 0) s
  else if got.length = n then .ok got { s with pos := s.pos + n }
  else .ok (got ++ List.replicate (n - got.length) 0)
    { s with pos := s.data.length, fail := true }

/-- `good`. -/
def good : CppIn Bool := fun s => .ok (!s.fail) s

/-- `tell`: `tellg` cast to `int`, and -1 when the stream cannot say. -/
def tell : CppIn Int := fun s =>
  .ok (if s.fail ∨ ¬s.seekable then -1 else (BitVec.ofNat 32 s.pos).toInt) s

/-- `seek`. -/
def seek (pos : Int) : CppIn Unit := fun s =>
  if s.seekable ∧ 0 ≤ pos ∧ pos.toNat ≤ s.data.length then
    .ok () { s with pos := pos.toNat, fail := false }
  else .ok () { s with fail := true }

/-- `n` times `stream->get( a )` with one variable. -/
def getLoop : Nat → UInt8 → CppIn (List UInt8)
  | 0, _ => pure []
  | n + 1, a => do
    let a ← getInto a
    let as ← getLoop n a
    pure (a :: as)

/-- `n` times `stream->get( p[i] )` with variables that hold zero. -/
def getEach : Nat → CppIn (List UInt8)
  | 0 => pure []
  | n + 1 => do
    let p ← getInto 0
    let ps ← getEach n
    pure (p :: ps)

/-- `get_char`. -/
def getChar : CppIn UInt8 := do
  let a ← declare
  getInto a

/-- `get_short`. -/
def getShort : CppIn (BitVec 16) := do
  let a ← declare
  let b ← declare
  let a ← getInto a
  let b ← getInto b
  pure (BitVec.ofNat 16 (beVal [a, b]))

/-- A number of `w` bytes that go through one variable. -/
def getNumber (k w : Nat) : CppIn (BitVec k) := do
  let a ← declare
  let as ← getLoop w a
  pure (BitVec.ofNat k (beVal as))

/-- `get_int`. -/
def getInt : CppIn (BitVec 32) := getNumber 32 4

/-- `get_long`. -/
def getLong : CppIn (BitVec 64) := getNumber 64 8

/-- `get_float`, as bits. -/
def getFloat : CppIn (BitVec 32) := getNumber 32 4

/-- `get_double`, as bits. -/
def getDouble : CppIn (BitVec 64) := getNumber 64 8

/-- `get_string`.  `std::string( length, '\0' )` throws when `length` is
negative, which is a `size_t` above `max_size`. -/
def getString (length : BitVec 32) : CppIn (List UInt8) := do
  if length.toInt < 0 then throw .lengthError
  readInto length.toInt.toNat

/-! ## Errors -/

/-- `util::Buffer2String`. -/
def buffer2String (src : List UInt8) : String :=
  String.ofList (src.flatMap fun b => [(b.toNat / 16).digitChar, (b.toNat % 16).digitChar])

/-- `error`: the message, and 30 bytes of context while the stream is
good. -/
def error {α : Type} (message : String) (offset : Int) : CppIn α := do
  if !(← good) then throw (.protoError message)
  let currentP ← tell
  if 15 ≤ offset then seek (offset - 15)
  let strbuf ← readInto 30
  let margin := if 15 ≤ offset then String.ofList (List.replicate 30 ' ') else ""
  seek currentP
  throw (.protoError s!"{message}\n{buffer2String strbuf}\n{margin}^.{offset}")

/-! ## Scalars -/

/-- `ProtoHead`. -/
structure ProtoHead where
  type : UInt8
  tag : UInt8
  len : Nat
  deriving DecidableEq, Repr

/-- `readHead`. -/
def readHead : CppIn ProtoHead := do
  let b ← getInto 0
  if (b &&& 0xF0) >>> 4 = 15 then
    let t ← getInto b
    pure ⟨b &&& 0xF, t, 2⟩
  else pure ⟨b &&& 0xF, (b &&& 0xF0) >>> 4, 1⟩

/-- The integers up to the width of the type code `widest`.  `get_char`,
`get_short` and `get_int` are unsigned. -/
def readInteger (k : Nat) (name : String) (widest : UInt8) (stop : String) :
    CppIn (BitVec k × UInt8) := do
  let head ← readHead
  if head.type = protoZeroTag then pure (0, head.tag)
  else if head.type = protoByte then
    let c ← getChar
    pure (c.toBitVec.setWidth k, head.tag)
  else if head.type = protoShort ∧ protoShort ≤ widest then
    let s ← getShort
    pure (s.setWidth k, head.tag)
  else if head.type = protoInt ∧ protoInt ≤ widest then
    let i ← getInt
    pure (i.setWidth k, head.tag)
  else if head.type = protoLong ∧ protoLong ≤ widest then
    let l ← getLong
    pure (l.setWidth k, head.tag)
  else error s!"Proto: unknown type when read {name}, got type {head.type}{stop}" (← tell)

/-- `read( char & )`. -/
def readChar : CppIn (BitVec 8 × UInt8) := readInteger 8 "char" protoByte " ."

/-- `read( short int & )`. -/
def readShort : CppIn (BitVec 16 × UInt8) := readInteger 16 "short" protoShort " ."

/-- `read( unsigned short & )`. -/
def readUShort : CppIn (BitVec 16 × UInt8) := readInteger 16 "short" protoShort " ."

/-- `read( int & )`. -/
def readInt : CppIn (BitVec 32 × UInt8) := readInteger 32 "int" protoInt " ."

/-- `read( unsigned int & )`. -/
def readUInt : CppIn (BitVec 32 × UInt8) := readInteger 32 "int" protoInt " ."

/-- `read( long & )`. -/
def readLong : CppIn (BitVec 64 × UInt8) := readInteger 64 "long" protoLong "."

/-- `read( bool & )`, which answers `true` and not the tag. -/
def readBool : CppIn (Bool × UInt8) := do
  let (a, _) ← readChar
  pure (a != 0, 1)

/-- `read( float & )`. -/
def readFloat : CppIn (BitVec 32 × UInt8) := do
  let head ← readHead
  if head.type = protoZeroTag then pure (0, head.tag)
  else if head.type = protoFloat then
    let f ← getFloat
    pure (f, head.tag)
  else error s!"Proto: unknown type when read float, got type {head.type} ." (← tell)

section

variable [FloatOps]

/-- `read( double & )`. -/
def readDouble : CppIn (BitVec 64 × UInt8) := do
  let head ← readHead
  if head.type = protoZeroTag then pure (0, head.tag)
  else if head.type = protoFloat then
    let f ← getFloat
    pure (FloatOps.widen f, head.tag)
  else if head.type = protoDouble then
    let d ← getDouble
    pure (d, head.tag)
  else error s!"Proto: unknown type when read double, got type {head.type} ." (← tell)

/-- The scalars. -/
def readPrim : (p : Prim) → CppIn (PrimVal p × UInt8)
  | .bool => readBool
  | .short => readShort
  | .int => readInt
  | .long => readLong
  | .float => readFloat
  | .double => readDouble

/-! ## Strings and containers -/

/-- The digits that `operator<<` and `std::to_string` print. -/
def decimal (n : Nat) : List UInt8 := (Nat.toDigits 10 n).map fun c => UInt8.ofNat c.toNat

/-- The text of a field that is not a string.  A type that has no text gives
the empty string. -/
def readText (type : UInt8) : CppIn (List UInt8) := do
  if type = protoByte then return [← getChar]
  else if type = protoShort then return decimal (← getShort).toNat
  else if type = protoInt then return decimal (← getInt).toNat
  else if type = protoLong then return decimal (← getLong).toNat
  else if type = protoFloat then return FloatOps.floatText (← getFloat)
  else if type = protoDouble then return FloatOps.doubleText (← getDouble)
  else return []

/-- The end of `read( std::string & )`, where the length is known. -/
def readContent (len : BitVec 32) (tag : UInt8) : CppIn (List UInt8 × UInt8) := do
  if len.toInt > protoMaxStringLength then
    error s!"Proto: String too long:{len.toInt} ." (← tell)
  let s ← getString len
  pure (s, tag)

/-- `read( std::string & )`.  The length of a `STRING1` is a signed
`char`. -/
def readString : CppIn (List UInt8 × UInt8) := do
  let head ← readHead
  if head.type = protoZeroTag then pure ([], head.tag)
  else if head.type = protoString1 then
    let a ← declare
    let a ← getInto a
    readContent (a.toBitVec.signExtend 32) head.tag
  else if head.type = protoString4 then
    let p ← getEach 4
    readContent (BitVec.ofNat 32 (beVal p)) head.tag
  else
    let s ← readText head.type
    pure (s, head.tag)

/-- `read( std::vector<char> & )`. -/
def readChars : CppIn (List UInt8 × UInt8) := do
  let head ← readHead
  if head.type = protoSimpleList then
    let ihead ← readHead
    if ihead.type ≠ protoByte then
      throw (.protoError
        s!"Proto: type mismatch, tag: {head.tag.toInt8} type: {head.type},{ihead.type}")
  let (len, _) ← readInt
  let a ← declare
  let bl ← getLoop len.toInt.toNat a
  pure (bl, head.tag)

/-- `read( T & )` for a vector. -/
def readVector {α : Type} (element : CppIn α) : CppIn (List α) := do
  let head ← readHead
  if head.type ≠ protoList then
    error s!"Proto: unknown type when read array struct, got type {head.type}" (← tell)
  let (len, _) ← readInt
  if len.toInt < 0 then
    error s!"Proto: size invalid when read array, got size {len.toInt}" (← tell)
  repeatM element len.toInt.toNat

/-- One round of the loop of `read( Map & )`: the value is not read when the
key does not have tag 0. -/
def readEntry {κ ν : Type} (key : CppIn (κ × UInt8)) (value : CppIn (ν × UInt8)) :
    CppIn (Option (κ × ν)) := do
  let (k, ktag) ← key
  if ktag = 0 then
    let (v, vtag) ← value
    pure (if vtag = 1 then some (k, v) else none)
  else pure none

/-- `m[k] = v` for the entries that were read. -/
def putEntries {κ ν : Type} [DecidableEq κ] (entries : List (Option (κ × ν))) :
    List (κ × ν) :=
  (entries.filterMap id).foldl (fun m e => mapPut m e.1 e.2) []

/-- `read( Map & )`. -/
def readMap {κ ν : Type} [DecidableEq κ] (key : CppIn (κ × UInt8))
    (value : CppIn (ν × UInt8)) : CppIn (List (κ × ν) × UInt8) := do
  let head ← readHead
  if head.type ≠ protoMap then
    error s!"Proto: unknown type when read map, got type {head.type}" (← tell)
  let (len, _) ← readInt
  let entries ← repeatM (readEntry key value) len.toInt.toNat
  pure (putEntries entries, head.tag)

/-! ## Structs -/

/-- `n` times the same skip. -/
def repeatSkip (m : CppIn Unit) : Nat → CppIn Unit
  | 0 => pure ()
  | n + 1 => do
    m
    repeatSkip m n

/-- `seek( tell() + len )`. -/
def skip (len : Int) : CppIn Unit := do
  seek ((← tell) + len)

mutual

/-- `skipField( char type )`. -/
def skipField : Nat → UInt8 → CppIn Unit
  | 0, _ => throw .outOfFuel
  | fuel + 1, type => do
    if type = protoByte then skip 1
    else if type = protoShort then skip 2
    else if type = protoInt ∨ type = protoFloat then skip 4
    else if type = protoLong ∨ type = protoDouble then skip 8
    else if type = protoString1 then skip (← getChar).toNat
    else if type = protoString4 then skip (← getInt).toInt
    else if type = protoMap then
      let len ← getInt
      repeatSkip (skipAny fuel) (len * 2).toInt.toNat
    else if type = protoList then
      let len ← getInt
      repeatSkip (skipAny fuel) len.toInt.toNat
    else if type = protoStructBegin ∨ type = protoStructEnd ∨ type = protoZeroTag then pure ()
    else if type = protoSimpleList then
      let head ← readHead
      if head.type ≠ protoByte then
        error s!"Proto: skipField with invalid type, type value: {head.type} ." (← tell)
      let (len, _) ← readInt
      skip len.toInt
    else
      let code := Char.ofNat type.toNat
      error s!"Proto: unknown type when skipField, got type {code} ." (← tell)

/-- `skipField()`. -/
def skipAny : Nat → CppIn Unit
  | 0 => throw .outOfFuel
  | fuel + 1 => do
    let head ← readHead
    skipField fuel head.type

/-- `skipToStructEnd`. -/
def skipToStructEnd : Nat → CppIn Unit
  | 0 => throw .outOfFuel
  | fuel + 1 => do
    let head ← readHead
    skipField fuel head.type
    if head.type = protoStructEnd then pure () else skipToStructEnd fuel

end

/-- The loop of `skipToTag`.  The tag of a header is a signed `char`. -/
def skipToTagLoop : Nat → Int → CppIn Bool
  | 0, _ => throw .outOfFuel
  | fuel + 1, tag => do
    if !(← good) then pure false
    else
      let head ← readHead
      if head.type = protoStructEnd then pure false
      else if tag ≤ head.tag.toBitVec.toInt then
        if tag = head.tag.toBitVec.toInt then
          seek ((← tell) - head.len)
          pure true
        else pure false
      else
        skipField fuel head.type
        skipToTagLoop fuel tag

/-- `catch( const ProtoError & )` with `return false`. -/
def catchError (m : CppIn Bool) : CppIn Bool := fun s =>
  match m s with
  | .ok a s => .ok a s
  | .error (.protoError _) s => .ok false s
  | .error e s => .error e s

/-- `skipToTag`. -/
def skipToTag (fuel : Nat) (tag : Int) : CppIn Bool := catchError (skipToTagLoop fuel tag)

variable (fuel : Nat)

mutual

/-- The overloads of `read` by type, with what they answer: the tag, or
`true` for a vector, or nothing for a struct.  A vector of `char` has the
reader of `bytes`. -/
def read : (t : Ty) → CppIn (Val t × UInt8)
  | .byte => readChar
  | .prim p => readPrim p
  | .string => readString
  | .bytes => readChars
  | .array p => do
    let v ← readVector (Prod.fst <$> readPrim p)
    pure (v, 1)
  | .list .byte => do
    let (bl, tag) ← readChars
    pure (bl.map UInt8.toBitVec, tag)
  | .list t => do
    let v ← readVector (Prod.fst <$> read t)
    pure (v, 1)
  | .strMap => readMap readString readString
  | .map k v => readMap (read k) (read v)
  | .struct fs => do
    let head ← readHead
    if head.type ≠ protoStructBegin then
      error s!"Proto: read 'struct' type mismatch, get type: {head.type}." (← tell)
    let v ← readFrom fs
    skipToStructEnd fuel
    pure (v, 0)

/-- `readFrom`: every field of the struct, in order. -/
def readFrom : (fs : Fields) → CppIn (FieldVals fs)
  | .nil => pure ()
  | .cons _ t fs => do
    let (v, _) ← read t
    let vs ← readFrom fs
    pure (v, vs)

end

end

end OCServer.Cpp
