import OCServer.GameProto.Model

/-!
# The fields of a message on arbitrary bytes

What the readers of `bufFromMsg` do on bytes that need not be a message.  A
`Walk` is the outcome of a read as far as the bytes decide it: a value that
comes from bytes that are all there, a read that ran off the end or met
entries out of order, a `ProtoError`, or a `std::length_error`.  Where a
length byte is missing, the variable that should hold it decides.

`messageAt` is the walk over a whole payload.  It reads nothing but the
bytes, and `readHeader_follows` says that `readHeader` does what it says.
-/

namespace OCServer.GameProto

open BigEndian ByteIO Cpp

/-- The outcome of a read. -/
inductive Walk (α : Type)
  /-- A value from bytes that are there, and the bytes behind it. -/
  | whole (a : α) (rest : List UInt8)
  /-- Some value, and the bytes behind it. -/
  | short (rest : List UInt8)
  /-- `ProtoError`. -/
  | rejected
  /-- `std::length_error`. -/
  | aborted
  /-- A length that is not set: a `std::length_error` when it happens to be
  negative, and `w` otherwise. -/
  | unset (w : Walk α)
  deriving DecidableEq, Repr

namespace Walk

variable {α β γ : Type}

/-- The outcome with another value. -/
def map (g : α → β) : Walk α → Walk β
  | whole a r => whole (g a) r
  | short r => short r
  | rejected => rejected
  | aborted => aborted
  | unset w => unset (map g w)

/-- The outcome when an earlier read was short. -/
def shorten : Walk α → Walk β
  | whole _ r => short r
  | short r => short r
  | rejected => rejected
  | aborted => aborted
  | unset w => unset (shorten w)

/-- A read that depends on the value of the one before.  Behind a short
read there is nothing left that counts. -/
def bind (f : α → List UInt8 → Walk β) : Walk α → Walk β
  | whole a r => f a r
  | short r => short r
  | rejected => rejected
  | aborted => aborted
  | unset w => unset (bind f w)

/-- A short read has run off the end. -/
def Settled : Walk α → Prop
  | short r => r = []
  | unset w => w.Settled
  | _ => True

/-- One read after the other. -/
def and (f : List UInt8 → Walk β) (g : α → β → γ) : Walk α → Walk γ
  | whole a r => (f r).map (g a)
  | short r => (f r).shorten
  | rejected => rejected
  | aborted => aborted
  | unset w => unset (and f g w)

end Walk

/-! ## The fields -/

/-- A field header as `readHead` sees it, the bytes behind it, and whether
all of it is there. -/
structure HeadAt where
  type : UInt8
  tag : UInt8
  rest : List UInt8
  whole : Bool
  deriving DecidableEq, Repr

/-- The header at the front of the bytes. -/
def headAt : List UInt8 → HeadAt
  | [] => ⟨0, 0, [], false⟩
  | b :: r =>
    if (b &&& 0xF0) >>> 4 = 15 then
      match r with
      | [] => ⟨b &&& 0xF, b, [], false⟩
      | t :: r => ⟨b &&& 0xF, t, r, true⟩
    else ⟨b &&& 0xF, (b &&& 0xF0) >>> 4, r, true⟩

/-- A field of `w` bytes behind its header. -/
def fieldAt {α : Type} (h : HeadAt) (w : Nat) (f : List UInt8 → α) : Walk (α × UInt8) :=
  if h.whole ∧ w ≤ h.rest.length then .whole (f (h.rest.take w), h.tag) (h.rest.drop w)
  else .short (h.rest.drop w)

/-- The widths that `read( int & )` and `read( unsigned int & )` accept. -/
def intWidth (type : UInt8) : Option Nat :=
  if type = protoZeroTag then some 0
  else if type = protoByte then some 1
  else if type = protoShort then some 2
  else if type = protoInt then some 4
  else none

/-- An integer of at most 32 bits behind its head. -/
def intFrom (h : HeadAt) : Walk (BitVec 32 × UInt8) :=
  match intWidth h.type with
  | some w => fieldAt h w fun bs => BitVec.ofNat 32 (beVal bs)
  | none => .rejected

/-- An integer of at most 32 bits. -/
def intAt (l : List UInt8) : Walk (BitVec 32 × UInt8) := intFrom (headAt l)

/-- The content of a string behind its length. -/
def contentAt (present : Bool) (tag : UInt8) (len : BitVec 32) (rest : List UInt8) :
    Walk (List UInt8 × UInt8) :=
  if len.toInt > protoMaxStringLength then .rejected
  else if len.toInt < 0 then .aborted
  else if present ∧ len.toInt.toNat ≤ rest.length then
    .whole (rest.take len.toInt.toNat, tag) (rest.drop len.toInt.toNat)
  else .short (rest.drop len.toInt.toNat)

/-- The bytes of a field that is not a string but is read as one. -/
def textWidth (type : UInt8) : Nat :=
  if type = protoByte then 1
  else if type = protoShort then 2
  else if type = protoInt then 4
  else if type = protoLong then 8
  else if type = protoFloat then 4
  else if type = protoDouble then 8
  else 0

/-- The length in front of a long string.  A missing byte counts as zero. -/
def longLength (l : List UInt8) : BitVec 32 :=
  BitVec.ofNat 32 (beVal (l.take 4 ++ List.replicate (4 - l.length) 0))

section

variable [FloatOps]

/-- The text of such a field. -/
def textOf (type : UInt8) (bs : List UInt8) : List UInt8 :=
  if type = protoByte then bs
  else if type = protoShort ∨ type = protoInt ∨ type = protoLong then decimal (beVal bs)
  else if type = protoFloat then FloatOps.floatText (BitVec.ofNat 32 (beVal bs))
  else if type = protoDouble then FloatOps.doubleText (BitVec.ofNat 64 (beVal bs))
  else []

/-- A string behind its head. -/
def stringFrom (h : HeadAt) : Walk (List UInt8 × UInt8) :=
  if h.type = protoZeroTag then fieldAt h 0 fun _ => []
  else if h.type = protoString1 then
    match h.rest with
    | [] => .unset (.short [])
    | b :: r => contentAt true h.tag (b.toBitVec.signExtend 32) r
  else if h.type = protoString4 then
    contentAt (h.whole ∧ 4 ≤ h.rest.length) h.tag (longLength h.rest) (h.rest.drop 4)
  else fieldAt h (textWidth h.type) (textOf h.type)

/-- A string. -/
def stringAt (l : List UInt8) : Walk (List UInt8 × UInt8) := stringFrom (headAt l)

/-- One entry of a map: a key at tag 0 and a value at tag 1. -/
def entryAt (l : List UInt8) : Walk (Option (List UInt8 × List UInt8)) :=
  (stringAt l).bind fun key r =>
    if key.2 = 0 then
      (stringAt r).bind fun value r =>
        if value.2 = 1 then .whole (some (key.1, value.1)) r else .short r
    else .short r

/-- `n` entries. -/
def entriesAt : Nat → List UInt8 → Walk (List (Option (List UInt8 × List UInt8)))
  | 0, l => .whole [] l
  | n + 1, l => (entryAt l).and (entriesAt n) List.cons

/-- A string map. -/
def mapAt (l : List UInt8) : Walk (HashMap × UInt8) :=
  let h := headAt l
  if h.type = protoMap then
    (intAt h.rest).bind fun size r =>
      if size.1.toInt < 0 then .short r
      else (entriesAt size.1.toInt.toNat r).map fun es => (putEntries es, h.tag)
  else .rejected

/-- The header of a message. -/
def messageAt (l : List UInt8) : Walk Header :=
  (intAt l).and
    (fun l => (stringAt l).and (fun l => (intAt l).and mapAt Prod.mk) Prod.mk)
    fun UID p => ⟨UID.1, p.1.1, p.2.1.1, p.2.2.1⟩

end

end OCServer.GameProto
