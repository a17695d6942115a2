import OCServer.Proto.JavaOut

/-!
# Everything that `ProtoOutputStream` can write

`write( Object, tag )` goes by the class of the object, so a list may hold
objects of different classes and a struct writes what its `writeTo` asks
for, at any tags.  `Obj` is such an object and `Call` one call of a method
that writes.  `writeObject_obj` says that the typed values of the format
are among them.
-/

namespace OCServer.Java

open BigEndian ByteIO

/-! ## Hexadecimal strings -/

/-- `Utils.char2Byte`. -/
def char2Byte (ch : UInt16) : UInt8 :=
  if 48 ≤ ch ∧ ch ≤ 57 then (ch - 48).toUInt8
  else if 97 ≤ ch ∧ ch ≤ 102 then (ch - 97 + 10).toUInt8
  else if 65 ≤ ch ∧ ch ≤ 70 then (ch - 65 + 10).toUInt8
  else 0

/-- `Utils.hexStr2Bytes`: an odd character at the end is left out. -/
def hexStr2Bytes : List UInt16 → List UInt8
  | high :: low :: str => (char2Byte high * 16 + char2Byte low) :: hexStr2Bytes str
  | _ => []

/-- `writeStringByte`: the bytes go through the same lines as those of a
string. -/
def writeStringByte (s : List UInt16) (tag : Int) : JOut Unit :=
  writeString (hexStr2Bytes s) tag

/-- `writeByteString`.  It reserves by the characters. -/
def writeByteString (s : List UInt16) (tag : Int) : JOut Unit := do
  reserve (10 + s.length)
  let by_ := hexStr2Bytes s
  if 255 < by_.length then
    writeHead protoString4 tag
    put (beBytes 4 by_.length)
    put by_
  else
    writeHead protoString1 tag
    put (beBytes 1 by_.length)
    put by_

theorem hexStr2Bytes_length : ∀ s : List UInt16, (hexStr2Bytes s).length = s.length / 2
  | [] => rfl
  | [_] => by simp [hexStr2Bytes]
  | high :: low :: s => by
    have hrest := hexStr2Bytes_length s
    rw [hexStr2Bytes, List.length_cons, List.length_cons, List.length_cons, hrest]
    omega

/-- There are not more bytes than characters. -/
theorem hexStr2Bytes_length_le (s : List UInt16) : (hexStr2Bytes s).length ≤ s.length := by
  rw [hexStr2Bytes_length]
  exact Nat.div_le_self _ 2

/-! ## Objects -/

mutual

/-- An object that `write( Object, tag )` takes.  A map or collection that is
`null` is written like an empty one. -/
inductive Obj
  | byte (b : BitVec 8)
  | prim (p : Prim) (v : PrimVal p)
  | string (s : List UInt8)
  | bytes (l : List UInt8)
  | array (p : Prim) (l : List (PrimVal p))
  | list (l : List Obj)
  | map (m : List (Obj × Obj))
  | struct (o : List Call)

/-- A call of a method that writes. -/
inductive Call
  | write (o : Obj) (tag : UInt8)
  | writeStringByte (s : List UInt16) (tag : UInt8)
  | writeByteString (s : List UInt16) (tag : UInt8)

end

/-- `write( ProtoStruct, tag )`. -/
def writeStruct (writeTo : JOut Unit) (tag : Int) : JOut Unit := do
  reserve 2
  writeHead protoStructBegin tag
  writeTo
  reserve 2
  writeHead protoStructEnd 0

mutual

/-- `write( Object, tag )`. -/
def writeObject : Obj → Int → JOut Unit
  | .byte b => writeByte b
  | .prim p v => writePrim p v
  | .string s => writeString s
  | .bytes l => writeByteArray l
  | .array p l => writeList (writePrim p) l
  | .list l => writeList id (elements l)
  | .map m => writeMap id id (entries m)
  | .struct o => writeStruct (calls o)

/-- The writes of the elements of a list. -/
def elements : List Obj → List (Int → JOut Unit)
  | [] => []
  | e :: l => writeObject e :: elements l

/-- The writes of the entries of a map. -/
def entries : List (Obj × Obj) → List ((Int → JOut Unit) × (Int → JOut Unit))
  | [] => []
  | en :: m => entry en :: entries m

/-- The writes of a key and its value. -/
def entry : Obj × Obj → (Int → JOut Unit) × (Int → JOut Unit)
  | (key, value) => (writeObject key, writeObject value)

/-- One call. -/
def call : Call → JOut Unit
  | .write o tag => writeObject o tag.toNat
  | .writeStringByte s tag => writeStringByte s tag.toNat
  | .writeByteString s tag => writeByteString s tag.toNat

/-- The calls of a `writeTo`. -/
def calls : List Call → JOut Unit
  | [] => pure ()
  | c :: o => do
    call c
    calls o

end

/-! ## The typed values -/

mutual

/-- The object that a typed value is. -/
def obj : (t : Ty) → Val t → Obj
  | .byte => .byte
  | .prim p => .prim p
  | .string => .string
  | .bytes => .bytes
  | .array p => .array p
  | .list t => fun l => .list (l.map (obj t))
  | .strMap => fun m => .map (m.map fun en => (.string en.1, .string en.2))
  | .map k v => fun m => .map (m.map fun en => (obj k en.1, obj v en.2))
  | .struct fs => fun v => .struct (fieldCalls fs v)

/-- The calls of the `writeTo` of a struct with these fields. -/
def fieldCalls : (fs : Fields) → FieldVals fs → List Call
  | .nil => fun _ => []
  | .cons tag t fs => fun v => .write (obj t v.1) tag :: fieldCalls fs v.2

end

theorem elements_map {α : Type} (f : α → Obj) (l : List α) :
    elements (l.map f) = l.map fun a => writeObject (f a) := by
  induction l with
  | nil => rfl
  | cons a l ih => simp [elements, ih]

theorem entries_map {α : Type} (f g : α → Obj) (m : List α) :
    entries (m.map fun a => (f a, g a)) =
      m.map fun a => (writeObject (f a), writeObject (g a)) := by
  induction m with
  | nil => rfl
  | cons a m ih => simp [entries, entry, ih]

theorem writeList_map {α : Type} (f : α → Int → JOut Unit) (l : List α) (tag : Int) :
    writeList id (l.map f) tag = writeList f l tag := by
  unfold writeList
  rw [List.length_map, writeAll_map]
  rfl

theorem writeMap_map {κ ν : Type} (key : κ → Int → JOut Unit) (value : ν → Int → JOut Unit)
    (m : List (κ × ν)) (tag : Int) :
    writeMap id id (m.map fun en => (key en.1, value en.2)) tag = writeMap key value m tag := by
  unfold writeMap
  rw [List.length_map, writeAll_map]
  rfl

mutual

/-- Writing a typed value is writing the object that it is. -/
theorem writeObject_obj : ∀ (t : Ty) (v : Val t) (tag : Int),
    writeObject (obj t v) tag = write t v tag
  | .byte, _, _ => rfl
  | .prim _, _, _ => rfl
  | .string, _, _ => rfl
  | .bytes, _, _ => rfl
  | .array _, _, _ => rfl
  | .list t, l, tag => by
    have helem : (fun v => writeObject (obj t v)) = write t :=
      funext fun v => funext (writeObject_obj t v)
    show writeList id (elements (l.map (obj t))) tag = writeList (write t) l tag
    rw [elements_map, helem, writeList_map]
  | .strMap, m, tag => by
    show writeMap id id (entries (m.map _)) tag = writeMap writeString writeString m tag
    rw [entries_map]
    exact writeMap_map writeString writeString m tag
  | .map k v, m, tag => by
    have hkey : ∀ a, writeObject (obj k a) = write k a := fun a => funext (writeObject_obj k a)
    have hvalue : ∀ a, writeObject (obj v a) = write v a := fun a => funext (writeObject_obj v a)
    show writeMap id id (entries (m.map _)) tag = writeMap (write k) (write v) m tag
    rw [entries_map]
    simp only [hkey, hvalue]
    exact writeMap_map (write k) (write v) m tag
  | .struct fs, v, tag => by
    show writeStruct (calls (fieldCalls fs v)) tag = _
    rw [calls_fieldCalls fs v]
    rfl

theorem calls_fieldCalls : ∀ (fs : Fields) (v : FieldVals fs),
    calls (fieldCalls fs v) = writeTo fs v
  | .nil, _ => rfl
  | .cons tag t fs, v => by
    show (do writeObject (obj t v.1) tag.toNat; calls (fieldCalls fs v.2)) = _
    rw [writeObject_obj t v.1, calls_fieldCalls fs v.2]
    rfl

end

/-! ## The bytes of an object -/

mutual

/-- An object at a tag. -/
def encObj : Obj → UInt8 → List UInt8
  | .byte b, tag => encInt tag b.toInt
  | .prim p v, tag => encPrim tag p v
  | .string s, tag => encString tag s
  | .bytes l, tag =>
    encHead protoSimpleList tag ++ encHead protoByte 0 ++ encSize l.length ++ l
  | .array p l, tag => encHead protoList tag ++ encSize l.length ++ l.flatMap (encPrim 0 p)
  | .list l, tag => encHead protoList tag ++ encSize l.length ++ encElements l
  | .map m, tag => encHead protoMap tag ++ encSize m.length ++ encEntries m
  | .struct o, tag => encHead protoStructBegin tag ++ encCalls o ++ encHead protoStructEnd 0

/-- The elements of a list. -/
def encElements : List Obj → List UInt8
  | [] => []
  | e :: l => encObj e 0 ++ encElements l

/-- The entries of a map. -/
def encEntries : List (Obj × Obj) → List UInt8
  | [] => []
  | en :: m => encEntry en ++ encEntries m

/-- A key and its value. -/
def encEntry : Obj × Obj → List UInt8
  | (key, value) => encObj key 0 ++ encObj value 1

/-- What one call writes. -/
def encCall : Call → List UInt8
  | .write o tag => encObj o tag
  | .writeStringByte s tag => encString tag (hexStr2Bytes s)
  | .writeByteString s tag => encString tag (hexStr2Bytes s)

/-- What the calls of a `writeTo` write. -/
def encCalls : List Call → List UInt8
  | [] => []
  | c :: o => encCall c ++ encCalls o

end

theorem encElements_eq (l : List Obj) : encElements l = l.flatMap fun e => encObj e 0 := by
  induction l with
  | nil => rfl
  | cons e l ih => rw [encElements, ih, List.flatMap_cons]

theorem elements_length (l : List Obj) : (elements l).length = l.length := by
  induction l with
  | nil => rfl
  | cons e l ih => rw [elements, List.length_cons, List.length_cons, ih]

theorem entries_length (m : List (Obj × Obj)) : (entries m).length = m.length := by
  induction m with
  | nil => rfl
  | cons en m ih => rw [entries, List.length_cons, List.length_cons, ih]

/-- `writeByteString` writes a string, as `writeStringByte` does. -/
theorem writeByteString_writes (s : List UInt16) (tag : UInt8) :
    Writes (writeByteString s tag.toNat) (encString tag (hexStr2Bytes s)) := by
  unfold writeByteString encString
  apply reserve_then
  dsimp only
  split <;> rw [List.append_assoc] <;>
    exact Writes.bind (writeHead_writes _ tag) (Writes.bind (put_writes _) (put_writes _))

mutual

theorem writeObject_writes : ∀ (o : Obj) (tag : UInt8),
    Writes (writeObject o tag.toNat) (encObj o tag)
  | .byte b, tag => writeByte_writes b tag
  | .prim p v, tag => writePrim_writes p v tag
  | .string s, tag => writeString_writes s tag
  | .bytes l, tag => writeByteArray_writes l tag
  | .array p l, tag => writeList_writes l tag fun v _ => writePrim_writes p v 0
  | .list l, tag => by
    show Writes _ (encHead protoList tag ++ encSize l.length ++ encElements l)
    rw [← elements_length l]
    exact writeContainer_writes protoList tag _ (elements_writes l)
  | .map m, tag => by
    show Writes _ (encHead protoMap tag ++ encSize m.length ++ encEntries m)
    rw [← entries_length m]
    exact writeContainer_writes protoMap tag _ (entries_writes m)
  | .struct o, tag => by
    unfold encObj
    rw [List.append_assoc]
    apply reserve_then
    refine Writes.bind (writeHead_writes _ tag) (Writes.bind (calls_writes o) ?_)
    exact reserve_then (writeHead_writes protoStructEnd 0)

theorem elements_writes : ∀ l : List Obj,
    Writes (writeAll (fun e => e 0) (elements l)) (encElements l)
  | [] => Writes.pure
  | e :: l => Writes.bind (writeObject_writes e 0) (elements_writes l)

theorem entries_writes : ∀ m : List (Obj × Obj),
    Writes (writeAll (fun en => do en.1 0; en.2 1) (entries m)) (encEntries m)
  | [] => Writes.pure
  | en :: m => Writes.bind (entry_writes en) (entries_writes m)

theorem entry_writes : ∀ en : Obj × Obj,
    Writes (do (entry en).1 0; (entry en).2 1) (encEntry en)
  | (key, value) => Writes.bind (writeObject_writes key 0) (writeObject_writes value 1)

theorem call_writes : ∀ c : Call, Writes (call c) (encCall c)
  | .write o tag => writeObject_writes o tag
  | .writeStringByte s tag => writeString_writes (hexStr2Bytes s) tag
  | .writeByteString s tag => writeByteString_writes s tag

theorem calls_writes : ∀ o : List Call, Writes (calls o) (encCalls o)
  | [] => Writes.pure
  | c :: o => Writes.bind (call_writes c) (calls_writes o)

end

end OCServer.Java
