import Mathlib.Data.List.Basic
import Mathlib.Tactic.Common

/-!
# Types and values of the protocol

The values that `ProtoOut` and `ProtoOutputStream` can write, as a type
`Ty` and a value `Val t` of that type.  An integer is its bits, a float is
its bits, and a string is its bytes.  A struct is the list of its fields in
the order in which `writeTo` writes them and `readFrom` reads them.

`Ok` is what the results about the format need of a value: strings of at
most `protoMaxStringLength` bytes and maps with distinct keys.
-/

namespace OCServer

/-! ## Type codes -/

abbrev protoByte : UInt8 := 0
abbrev protoShort : UInt8 := 1
abbrev protoInt : UInt8 := 2
abbrev protoLong : UInt8 := 3
abbrev protoFloat : UInt8 := 4
abbrev protoDouble : UInt8 := 5
abbrev protoString1 : UInt8 := 6
abbrev protoString4 : UInt8 := 7
abbrev protoMap : UInt8 := 8
abbrev protoList : UInt8 := 9
abbrev protoStructBegin : UInt8 := 10
abbrev protoStructEnd : UInt8 := 11
abbrev protoZeroTag : UInt8 := 12
abbrev protoSimpleList : UInt8 := 13

/-- `Proto_MAX_STRING_LENGTH`, and `MAX_STRING_LENGTH` in Java. -/
abbrev protoMaxStringLength : Nat := 104857600

/-- What the two languages do with floating-point numbers beyond moving
their bits: the conversion of a `float` to a `double`, and the text that
`operator<<` prints. -/
class FloatOps where
  widen : BitVec 32 → BitVec 64
  floatText : BitVec 32 → List UInt8
  doubleText : BitVec 64 → List UInt8

/-! ## Types -/

/-- The scalars that both an array and a field can hold. -/
inductive Prim
  | bool
  | short
  | int
  | long
  | float
  | double
  deriving DecidableEq, Repr

mutual

/-- The types of fields.  `bytes` is `byte[]` or `std::vector<char>`,
`array` is an array of scalars, `list` is any other sequence, `strMap` is a
map from strings to strings and `map` is any other map. -/
inductive Ty
  | byte
  | prim (p : Prim)
  | string
  | bytes
  | array (p : Prim)
  | list (t : Ty)
  | strMap
  | map (k v : Ty)
  | struct (fs : Fields)

/-- The fields of a struct with their tags. -/
inductive Fields
  | nil
  | cons (tag : UInt8) (t : Ty) (fs : Fields)

end

/-- The constructor of a type. -/
inductive Kind
  | byte
  | prim
  | string
  | bytes
  | array
  | list
  | strMap
  | map
  | struct
  deriving DecidableEq, Repr

/-- The kind of a type. -/
def Ty.kind : Ty → Kind
  | .byte => .byte
  | .prim _ => .prim
  | .string => .string
  | .bytes => .bytes
  | .array _ => .array
  | .list _ => .list
  | .strMap => .strMap
  | .map _ _ => .map
  | .struct _ => .struct

/-- The types of all fields have `P`. -/
def Fields.All (P : Ty → Prop) : Fields → Prop
  | .nil => True
  | .cons _ t fs => P t ∧ fs.All P

/-- The number of fields. -/
def Fields.count : Fields → Nat
  | .nil => 0
  | .cons _ _ fs => fs.count + 1

theorem Fields.All.imp {P Q : Ty → Prop} (h : ∀ t, P t → Q t) :
    ∀ {fs : Fields}, fs.All P → fs.All Q
  | .nil, _ => trivial
  | .cons _ _ _, hfs => ⟨h _ hfs.1, Fields.All.imp h hfs.2⟩

/-- The bits of a scalar. -/
abbrev PrimVal : Prim → Type
  | .bool => Bool
  | .short => BitVec 16
  | .int => BitVec 32
  | .long => BitVec 64
  | .float => BitVec 32
  | .double => BitVec 64

mutual

/-- The values of a type. -/
@[reducible] def Val : Ty → Type
  | .byte => BitVec 8
  | .prim p => PrimVal p
  | .string => List UInt8
  | .bytes => List UInt8
  | .array p => List (PrimVal p)
  | .list t => List (Val t)
  | .strMap => List (List UInt8 × List UInt8)
  | .map k v => List (Val k × Val v)
  | .struct fs => FieldVals fs

/-- The values of the fields of a struct. -/
@[reducible] def FieldVals : Fields → Type
  | .nil => Unit
  | .cons _ t fs => Val t × FieldVals fs

end

/-- Equality of scalars is decidable. -/
def decEqPrim : (p : Prim) → DecidableEq (PrimVal p)
  | .bool => inferInstanceAs (DecidableEq Bool)
  | .short => inferInstanceAs (DecidableEq (BitVec 16))
  | .int => inferInstanceAs (DecidableEq (BitVec 32))
  | .long => inferInstanceAs (DecidableEq (BitVec 64))
  | .float => inferInstanceAs (DecidableEq (BitVec 32))
  | .double => inferInstanceAs (DecidableEq (BitVec 64))

instance (p : Prim) : DecidableEq (PrimVal p) := decEqPrim p

mutual

/-- Equality of values is decidable, which a map needs for its keys. -/
def decEqVal : (t : Ty) → DecidableEq (Val t)
  | .byte => inferInstanceAs (DecidableEq (BitVec 8))
  | .prim p => decEqPrim p
  | .string => inferInstanceAs (DecidableEq (List UInt8))
  | .bytes => inferInstanceAs (DecidableEq (List UInt8))
  | .array p => inferInstanceAs (DecidableEq (List (PrimVal p)))
  | .list t =>
    have := decEqVal t
    inferInstanceAs (DecidableEq (List (Val t)))
  | .strMap => inferInstanceAs (DecidableEq (List (List UInt8 × List UInt8)))
  | .map k v =>
    have := decEqVal k
    have := decEqVal v
    inferInstanceAs (DecidableEq (List (Val k × Val v)))
  | .struct fs => decEqFields fs

def decEqFields : (fs : Fields) → DecidableEq (FieldVals fs)
  | .nil => inferInstanceAs (DecidableEq Unit)
  | .cons _ t fs =>
    have := decEqVal t
    have := decEqFields fs
    inferInstanceAs (DecidableEq (Val t × FieldVals fs))

end

instance (t : Ty) : DecidableEq (Val t) := decEqVal t

/-! ## Maps -/

/-- `m[k] = v` and `mr.put( k, v )`: a new key goes to the end. -/
def mapPut {κ ν : Type} [DecidableEq κ] (m : List (κ × ν)) (k : κ) (v : ν) : List (κ × ν) :=
  if k ∈ m.map Prod.fst then m.map fun e => if e.1 = k then (k, v) else e else m ++ [(k, v)]

/-- Putting entries with distinct new keys appends them. -/
theorem foldl_mapPut {κ ν : Type} [DecidableEq κ] (es m : List (κ × ν))
    (h : ((m ++ es).map Prod.fst).Nodup) :
    es.foldl (fun m e => mapPut m e.1 e.2) m = m ++ es := by
  induction es generalizing m with
  | nil => simp
  | cons e es ih =>
    have hnew : e.1 ∉ m.map Prod.fst := by
      intro hmem
      rw [List.map_append, List.map_cons] at h
      exact (List.nodup_append.mp h).2.2 _ hmem _ List.mem_cons_self rfl
    rw [List.foldl_cons, mapPut, if_neg hnew, ih]
    · simp
    · simpa using h

/-! ## Well-formed values -/

mutual

/-- Strings are not too long and keys are distinct. -/
def Ok : (t : Ty) → Val t → Prop
  | .byte, _ => True
  | .prim _, _ => True
  | .string, s => s.length ≤ protoMaxStringLength
  | .bytes, _ => True
  | .array _, _ => True
  | .list t, vs => ∀ v ∈ vs, Ok t v
  | .strMap, m => (m.map Prod.fst).Nodup ∧
      ∀ e ∈ m, e.1.length ≤ protoMaxStringLength ∧ e.2.length ≤ protoMaxStringLength
  | .map k v, m => (m.map Prod.fst).Nodup ∧ ∀ e ∈ m, Ok k e.1 ∧ Ok v e.2
  | .struct fs, v => OkFields fs v

/-- The fields are well formed. -/
def OkFields : (fs : Fields) → FieldVals fs → Prop
  | .nil, _ => True
  | .cons _ t fs, v => Ok t v.1 ∧ OkFields fs v.2

end

end OCServer
