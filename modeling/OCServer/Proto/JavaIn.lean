import OCServer.Lib.ByteIO
import OCServer.Proto.Format

/-!
# `ProtoInputStream`

The Java reader, over a model of `ByteBuffer`.  A reader is a program over
the buffer that may throw, and the buffer keeps its position when it does.

Every `read` of the source has the same frame: it looks for its tag, it
throws or gives up when the tag is missing, and otherwise reads the field.
`optional` is that frame and the functions named `…Body` are the fields.
`readBody` is the generic `read( T o, … )`, which picks a body by the type of
its sample; the sample is the type here.  What a `read` without its field
answers is not the same in every overload: `absent`.

Skipping is recursive and may move the position backwards, so it takes fuel
and `outOfFuel` says that it was cut off.
-/

namespace OCServer.Java

open BigEndian ByteIO

/-! ## The buffer -/

/-- A `ByteBuffer`: its bytes, position and limit. -/
structure JBuf where
  data : List UInt8
  pos : Nat
  limit : Nat
  pos_le : pos ≤ limit
  limit_le : limit ≤ data.length
  size_lt : data.length < 2 ^ 31
  deriving DecidableEq

/-- What a read throws. -/
inductive JExc
  | decode (message : String)
  | bufferUnderflow
  | illegalArgument
  | outOfFuel
  deriving DecidableEq

/-- A program over the buffer. -/
abbrev JIn := EStateM JExc JBuf

/-- `ByteBuffer.wrap`. -/
def JBuf.wrap (data : List UInt8) (h : data.length < 2 ^ 31) : JBuf :=
  ⟨data, 0, data.length, Nat.zero_le _, Nat.le_refl _, h⟩

/-- `bs.get( ss )` for an array of `n` bytes. -/
def getBytes (n : Nat) : JIn (List UInt8) := fun b =>
  if h : b.pos + n ≤ b.limit then
    .ok ((b.data.drop b.pos).take n) { b with pos := b.pos + n, pos_le := h }
  else .error .bufferUnderflow b

/-- The relative `get` of a number of `w` bytes. -/
def getBits (k w : Nat) : JIn (BitVec k) := do
  let bs ← getBytes w
  pure (BitVec.ofNat k (beVal bs))

/-- `bs.get()`. -/
def get : JIn (BitVec 8) := getBits 8 1

/-- `bs.getShort()`. -/
def getShort : JIn (BitVec 16) := getBits 16 2

/-- `bs.getInt()`. -/
def getInt : JIn (BitVec 32) := getBits 32 4

/-- `bs.getLong()`. -/
def getLong : JIn (BitVec 64) := getBits 64 8

/-- `bs.getFloat()`, as bits. -/
def getFloat : JIn (BitVec 32) := getBits 32 4

/-- `bs.getDouble()`, as bits. -/
def getDouble : JIn (BitVec 64) := getBits 64 8

/-- `bs.position( p )`. -/
def position (p : Int) : JIn Unit := fun b =>
  if h : 0 ≤ p ∧ p.toNat ≤ b.limit then .ok () { b with pos := p.toNat, pos_le := h.2 }
  else .error .illegalArgument b

/-- `bs.capacity()`. -/
def capacity : JIn Nat := fun b => .ok b.data.length b

/-! ## Skipping -/

/-- `HeadData`. -/
structure HeadData where
  type : UInt8
  tag : Int
  deriving DecidableEq, Repr

/-- `readHead`: the header, and how many bytes it took. -/
def readHead : JIn (HeadData × Nat) := do
  let b ← get
  let b := UInt8.ofBitVec b
  let type := b &&& 0xF
  if (b &&& 0xF0) >>> 4 = 15 then
    let t ← get
    pure (⟨type, t.toNat⟩, 2)
  else pure (⟨type, ((b &&& 0xF0) >>> 4).toNat⟩, 1)

/-- `peakHead`: the header is read from a duplicate of the buffer. -/
def peakHead : JIn (HeadData × Nat) := fun b =>
  match readHead b with
  | .ok r _ => .ok r b
  | .error e _ => .error e b

/-- `skip`.  The sum is an `int`. -/
def skip (len : Int) : JIn Unit := fun b =>
  position (BitVec.ofInt 32 (b.pos + len)).toInt b

/-- `try` and `catch`: the buffer stays as the exception left it. -/
def catchIn {α : Type} (m : JIn α) (handle : JExc → JIn α) : JIn α := fun b =>
  match m b with
  | .ok a b => .ok a b
  | .error e b => handle e b

/-- A field that may be missing: `skipTo` is the call of `skipToTag`. -/
def optional {α : Type} (skipTo : JIn Bool) (isRequire : Bool) (dflt : α) (body : JIn α) :
    JIn α := do
  if ← skipTo then body
  else if isRequire then throw (.decode "require field not exist.")
  else pure dflt

/-- A field that may not be missing. -/
def required {α : Type} (skipTo : JIn Bool) (body : JIn α) : JIn α := do
  if ← skipTo then body else throw (.decode "require field not exist.")

/-- The integers up to the width of the type code `widest`. -/
def integerBody (k : Nat) (widest : UInt8) : JIn (BitVec k) := do
  let (hd, _) ← readHead
  if hd.type = protoZeroTag then pure 0
  else if hd.type = protoByte then return (← get).signExtend k
  else if hd.type = protoShort ∧ protoShort ≤ widest then return (← getShort).signExtend k
  else if hd.type = protoInt ∧ protoInt ≤ widest then return (← getInt).signExtend k
  else if hd.type = protoLong ∧ protoLong ≤ widest then return (← getLong).signExtend k
  else throw (.decode "type mismatch.")

/-- `n` times the same skip. -/
def repeatSkip (m : JIn Unit) : Nat → JIn Unit
  | 0 => pure ()
  | n + 1 => do
    m
    repeatSkip m n

/-- The handlers of `skipToTag`: bad data answers `false`. -/
def skipToTagHandler : JExc → JIn Bool
  | .decode _ => pure false
  | .bufferUnderflow => pure false
  | e => throw e

mutual

/-- The loop of `skipToTag`. -/
def skipToTagLoop : Nat → Int → JIn Bool
  | 0, _ => throw .outOfFuel
  | fuel + 1, tag => do
    let (hd, len) ← peakHead
    if hd.type = protoStructEnd then pure false
    else if tag ≤ hd.tag then pure (tag == hd.tag)
    else
      skip len
      skipField fuel hd.type
      skipToTagLoop fuel tag

/-- `skipField( byte type )`. -/
def skipField : Nat → UInt8 → JIn Unit
  | 0, _ => throw .outOfFuel
  | fuel + 1, type => do
    -- `read( 0, 0, true )`
    let readSize : JIn (BitVec 32) :=
      required (catchIn (skipToTagLoop fuel 0) skipToTagHandler) (integerBody 32 protoInt)
    if type = protoByte then skip 1
    else if type = protoShort then skip 2
    else if type = protoInt then skip 4
    else if type = protoLong then skip 8
    else if type = protoFloat then skip 4
    else if type = protoDouble then skip 8
    else if type = protoString1 then skip (← get).toNat
    else if type = protoString4 then skip (← getInt).toInt
    else if type = protoMap then
      let size ← readSize
      repeatSkip (skipAny fuel) (size * 2).toInt.toNat
    else if type = protoList then
      let size ← readSize
      repeatSkip (skipAny fuel) size.toInt.toNat
    else if type = protoSimpleList then
      let (hd, _) ← readHead
      if hd.type ≠ protoByte then
        throw (.decode s!"skipField with invalid type, type value: {type}, {hd.type}")
      let size ← readSize
      skip size.toInt
    else if type = protoStructBegin then skipToStructEnd fuel
    else if type = protoStructEnd ∨ type = protoZeroTag then pure ()
    else throw (.decode "invalid type.")

/-- `skipField()`. -/
def skipAny : Nat → JIn Unit
  | 0 => throw .outOfFuel
  | fuel + 1 => do
    let (hd, _) ← readHead
    skipField fuel hd.type

/-- `skipToStructEnd`. -/
def skipToStructEnd : Nat → JIn Unit
  | 0 => throw .outOfFuel
  | fuel + 1 => do
    let (hd, _) ← readHead
    skipField fuel hd.type
    if hd.type = protoStructEnd then pure () else skipToStructEnd fuel

end

/-- `skipToTag`. -/
def skipToTag (fuel : Nat) (tag : Int) : JIn Bool :=
  catchIn (skipToTagLoop fuel tag) skipToTagHandler

/-! ## Reading -/

/-- What the overloads answer when the tag is missing and not required.  The
numbers and the strings hand back their argument.  `boolean` is read as a
`byte` with the default 0, the arrays and the struct start with `null`, and
the maps with an empty one. -/
def absent : (t : Ty) → Option (Val t) → Option (Val t)
  | .prim .bool, _ => some false
  | .byte, dflt | .prim .short, dflt | .prim .int, dflt | .prim .long, dflt => dflt
  | .prim .float, dflt | .prim .double, dflt | .string, dflt => dflt
  | .bytes, _ | .array _, _ | .list _, _ | .struct _, _ => none
  | .strMap, _ | .map _ _, _ => some []

section

variable [FloatOps] (fuel : Nat)

/-- `read( byte, … )` behind its tag. -/
def byteBody : JIn (BitVec 8) := do
  let (hd, _) ← readHead
  if hd.type = protoZeroTag then pure 0
  else if hd.type = protoByte then get
  else throw (.decode "type mismatch.")

/-- `read( float, … )` behind its tag. -/
def floatBody : JIn (BitVec 32) := do
  let (hd, _) ← readHead
  if hd.type = protoZeroTag then pure 0
  else if hd.type = protoFloat then getFloat
  else throw (.decode "type mismatch.")

/-- `read( double, … )` behind its tag. -/
def doubleBody : JIn (BitVec 64) := do
  let (hd, _) ← readHead
  if hd.type = protoZeroTag then pure 0
  else if hd.type = protoFloat then return FloatOps.widen (← getFloat)
  else if hd.type = protoDouble then getDouble
  else throw (.decode "type mismatch.")

/-- `read( String, … )` and `readString` behind their tag. -/
def stringBody : JIn (List UInt8) := do
  let (hd, _) ← readHead
  if hd.type = protoString1 then
    let len ← get
    getBytes len.toNat
  else if hd.type = protoString4 then
    let len ← getInt
    if len.toInt > protoMaxStringLength ∨ len.toInt < 0 ∨ len.toInt > (← capacity) then
      throw (.decode s!"String too long: {len.toInt}")
    getBytes len.toInt.toNat
  else throw (.decode "type mismatch.")

/-- The scalars behind their tag. -/
def primBody : (p : Prim) → JIn (PrimVal p)
  | .bool => do
    let c ← byteBody
    pure (c != 0)
  | .short => integerBody 16 protoShort
  | .int => integerBody 32 protoInt
  | .long => integerBody 64 protoLong
  | .float => floatBody
  | .double => doubleBody

/-- `read( 0, 0, true )`: the size of a container. -/
def readSize : JIn (BitVec 32) :=
  required (skipToTag fuel 0) (integerBody 32 protoInt)

/-- A header of type `LIST`, a size and the elements at tag 0. -/
def listBody {α : Type} (element : JIn α) : JIn (List α) := do
  let (hd, _) ← readHead
  if hd.type = protoList then
    let size ← readSize fuel
    if size.toInt < 0 then throw (.decode s!"size invalid: {size.toInt}")
    repeatM (required (skipToTag fuel 0) element) size.toInt.toNat
  else throw (.decode "type mismatch.")

/-- `read( byte[], … )` behind its tag. -/
def byteArrayBody (tag : Int) : JIn (List UInt8) := do
  let (hd, _) ← readHead
  if hd.type = protoSimpleList then
    let (hh, _) ← readHead
    if hh.type ≠ protoByte then
      throw (.decode s!"type mismatch, tag: {tag}, type: {hd.type}, {hh.type}")
    let size ← readSize fuel
    if size.toInt < 0 ∨ size.toInt > (← capacity) then
      throw (.decode
        s!"invalid size, tag: {tag}, type: {hd.type}, {hh.type}, size: {size.toInt}")
    getBytes size.toInt.toNat
  else if hd.type = protoList then
    let size ← readSize fuel
    if size.toInt < 0 ∨ size.toInt > (← capacity) then
      throw (.decode s!"size invalid: {size.toInt}")
    let bs ← repeatM (required (skipToTag fuel 0) byteBody) size.toInt.toNat
    pure (bs.map UInt8.ofBitVec)
  else throw (.decode "type mismatch.")

/-- A header of type `MAP`, a size, and keys at tag 0 with values at tag 1. -/
def mapBody {κ ν : Type} [DecidableEq κ] (key : JIn κ) (value : JIn ν) : JIn (List (κ × ν)) := do
  let (hd, _) ← readHead
  if hd.type = protoMap then
    let size ← readSize fuel
    if size.toInt < 0 then throw (.decode s!"size invalid: {size.toInt}")
    let entries ← repeatM (do
      let k ← required (skipToTag fuel 0) key
      let v ← required (skipToTag fuel 1) value
      pure (k, v)) size.toInt.toNat
    pure (entries.foldl (fun mr e => mapPut mr e.1 e.2) [])
  else throw (.decode "type mismatch.")

mutual

/-- `read( T o, … )` behind its tag. -/
def readBody : (t : Ty) → Int → JIn (Val t)
  | .byte, _ => byteBody
  | .prim p, _ => primBody p
  | .string, _ => stringBody
  | .bytes, tag => byteArrayBody fuel tag
  | .array p, _ => listBody fuel (primBody p)
  | .list t, _ => listBody fuel (readBody t 0)
  | .strMap, _ => mapBody fuel stringBody stringBody
  | .map k v, _ => mapBody fuel (readBody k 0) (readBody v 1)
  | .struct fs, _ => do
    let (hd, _) ← readHead
    if hd.type ≠ protoStructBegin then throw (.decode "type mismatch.")
    let v ← readFrom fs
    skipToStructEnd fuel
    pure v

/-- `readFrom`: every field of the struct at its tag. -/
def readFrom : (fs : Fields) → JIn (FieldVals fs)
  | .nil => pure ()
  | .cons tag t fs => do
    let v ← required (skipToTag fuel tag.toNat) (readBody t tag.toNat)
    let vs ← readFrom fs
    pure (v, vs)

end

/-- `read( o, tag, isRequire )`.  `none` is `null`.  Of the sample of a
container only the type is used; a default that is an empty sample is
`Request.read`. -/
def read (t : Ty) (dflt : Option (Val t)) (tag : Int) (isRequire : Bool) : JIn (Option (Val t)) :=
  optional (skipToTag fuel tag) isRequire (absent t dflt) (some <$> readBody fuel t tag)

end

end OCServer.Java
