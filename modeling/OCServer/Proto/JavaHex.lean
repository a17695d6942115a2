import OCServer.Proto.JavaAlloc
import OCServer.Proto.JavaObject

/-!
# Hexadecimal strings as fields

`writeByteString` and `writeStringByte` write the bytes that a string of digits
stands for, and `readByteString` makes digits of them again.  A `HexString` is a
string that can come back as it was: an even number of upper case digits, and not
more bytes than a string may have.

`hexReadsBack` says what comes back.  For no bytes `bytes2HexStr` answers `null`, so
that the empty string does not come back as it was.
-/

namespace OCServer.Java

open ByteIO ByteSource

/-! ## Digits -/

/-- `byte2HexStr`, in the `int`s of Java: both `b & 0xF` and `b >>> 4` extend the
sign first.  The loop of `bytes2HexStr` has the same lines. -/
def byte2HexStr (b : BitVec 8) : List Char :=
  let low := digits.getD (b.signExtend 32 &&& 0xF).toNat '0'
  let b := (b.signExtend 32 >>> 4).setWidth 8
  let high := digits.getD (b.signExtend 32 &&& 0xF).toNat '0'
  [high, low]

theorem byte2HexStr_digits : ∀ h < 16, ∀ l < 16, byte2HexStr (BitVec.ofNat 8 (h * 16 + l)) =
    [digits.getD h '0', digits.getD l '0'] := by
  decide +kernel

/-- The sign does not show in the digits. -/
theorem bytes2HexStr_eq (bytes : List UInt8) :
    bytes2HexStr bytes = if bytes = [] then none
      else some (bytes.flatMap fun b => byte2HexStr b.toBitVec) := by
  unfold bytes2HexStr
  congr 3
  funext b
  have hb := b.toNat_lt
  have hdigits := byte2HexStr_digits (b.toNat / 16) (by omega) (b.toNat % 16) (by omega)
  have hbits : BitVec.ofNat 8 b.toNat = b.toBitVec := BitVec.ofNat_toNat _ b.toBitVec
  rw [Nat.div_add_mod', hbits] at hdigits
  have hhigh : (b >>> 4).toNat = b.toNat / 16 := by
    rw [UInt8.toNat_shiftRight]
    exact Nat.shiftRight_eq_div_pow b.toNat 4
  have hlow : (b &&& 0xF).toNat = b.toNat % 16 := by
    rw [UInt8.toNat_and]
    exact Nat.and_two_pow_sub_one_eq_mod b.toNat 4
  rw [hdigits, hhigh, hlow]

/-- The `char`s of a string. -/
def units (s : List Char) : List UInt16 := s.map fun c => c.toNat.toUInt16

theorem char2Byte_digit : ∀ n < 16,
    char2Byte (digits.getD n '0').toNat.toUInt16 = UInt8.ofNat n := by
  decide

theorem eq_digit {c : Char} (h : c ∈ digits) : ∃ n < 16, c = digits.getD n '0' := by
  obtain ⟨n, hn, hc⟩ := List.mem_iff_getElem.mp h
  refine ⟨n, hn, ?_⟩
  rw [← hc, List.getD_eq_getElem?_getD, List.getElem?_eq_getElem hn, Option.getD_some]

/-- Two digits come back from their byte. -/
theorem byte2HexStr_pair {high low : Char} (hhigh : high ∈ digits) (hlow : low ∈ digits) :
    byte2HexStr (char2Byte high.toNat.toUInt16 * 16 +
      char2Byte low.toNat.toUInt16).toBitVec = [high, low] := by
  obtain ⟨h, hh, rfl⟩ := eq_digit hhigh
  obtain ⟨l, hl, rfl⟩ := eq_digit hlow
  rw [char2Byte_digit h hh, char2Byte_digit l hl, ← byte2HexStr_digits h hh l hl,
    show UInt8.ofNat h * 16 + UInt8.ofNat l = UInt8.ofNat (h * 16 + l) by
      rw [UInt8.ofNat_add, UInt8.ofNat_mul]
      rfl]
  rfl

/-- All digits come back, where there are two for each byte. -/
theorem hexStr2Bytes_digits : ∀ s : List Char, (∀ c ∈ s, c ∈ digits) → s.length % 2 = 0 →
    (hexStr2Bytes (units s)).flatMap (fun b => byte2HexStr b.toBitVec) = s
  | [], _, _ => rfl
  | [_], _, heven => by cases heven
  | high :: low :: s, hs, heven => by
    have hpair := byte2HexStr_pair (hs high (by simp)) (hs low (by simp))
    have hrest := hexStr2Bytes_digits s (fun c hc => hs c (by simp [hc])) (by
      rw [List.length_cons, List.length_cons] at heven
      omega)
    show (_ :: hexStr2Bytes (units s)).flatMap _ = _
    rw [List.flatMap_cons, hrest, hpair]
    rfl

/-! ## Strings of digits -/

/-- An even number of upper case digits, and not too many for a string. -/
structure HexString where
  chars : List Char
  upper : ∀ c ∈ chars, c ∈ digits
  even : chars.length % 2 = 0
  limit : chars.length / 2 ≤ protoMaxStringLength

/-- What comes back: `null` for the empty string. -/
def HexString.read (s : HexString) : Option (List Char) :=
  if s.chars = [] then none else some s.chars

theorem HexString.length_le (s : HexString) :
    (hexStr2Bytes (units s.chars)).length ≤ protoMaxStringLength := by
  rw [hexStr2Bytes_length, units, List.length_map]
  exact s.limit

theorem HexString.bytes2HexStr (s : HexString) :
    Java.bytes2HexStr (hexStr2Bytes (units s.chars)) = s.read := by
  have hdigits := hexStr2Bytes_digits s.chars s.upper s.even
  rw [bytes2HexStr_eq, hdigits, read]
  cases hbytes : hexStr2Bytes (units s.chars) with
  | nil =>
    rw [hbytes] at hdigits
    rw [← hdigits]
    rfl
  | cons b bytes =>
    have hne : s.chars ≠ [] := by
      intro h
      rw [h] at hbytes
      cases hbytes
    rw [if_neg hne, if_neg (List.cons_ne_nil b bytes)]

/-! ## The field -/

/-- The methods that write it. -/
inductive HexWriter
  | writeByteString
  | writeStringByte
  deriving DecidableEq, Repr

def HexWriter.write : HexWriter → List UInt16 → Int → JOut Unit
  | .writeByteString => Java.writeByteString
  | .writeStringByte => Java.writeStringByte

/-- `readByteString`. -/
def readByteString (fuel : Nat) (s : Option (List Char)) (tag : Int) (isRequire : Bool) :
    JIn (Option (List Char)) :=
  optional (skipToTag fuel tag) isRequire s (do return bytes2HexStr (← stringBody))

/-- Both writers write a string. -/
theorem HexWriter.write_writes (w : HexWriter) (s : List UInt16) (tag : UInt8) :
    Writes (w.write s tag.toNat) (encString tag (hexStr2Bytes s)) := by
  cases w with
  | writeStringByte => exact writeString_writes (hexStr2Bytes s) tag
  | writeByteString => exact writeByteString_writes s tag

theorem readByteString_reads (fuel : Nat) (s : HexString) (tag : UInt8)
    (dflt : Option (List Char)) (isRequire : Bool) :
    Reads (readByteString (fuel + 1) dflt tag.toNat isRequire)
      (encString tag (hexStr2Bytes (units s.chars))) s.read := by
  refine optional_reads fuel (fieldAt_string tag _) ?_ isRequire dflt
  rw [← s.bytes2HexStr]
  exact (stringBody_reads tag s.length_le).then (Reads.pure _)

/-- `readByteString` at the tag gives `result` for what either writer has written,
and stops right behind it. -/
def ReadsBack (s : HexString) (tag : UInt8) (result : Option (List Char)) : Prop :=
  ∀ (w : HexWriter) (ops : List BufOp), ∃ ops' bs,
    w.write (units s.chars) tag.toNat ops = .ok () ops' ∧
      toByteArray ops' = toByteArray ops ++ bs ∧
      ∀ (fuel : Nat) (dflt : Option (List Char)) (isRequire : Bool) (b : JBuf) (r : List UInt8),
        (b.data.take b.limit).drop b.pos = bs ++ r → ∃ b',
          readByteString (fuel + 1) dflt tag.toNat isRequire b = .ok result b' ∧
            b'.pos = b.pos + bs.length

/-- For every string of digits, both writers and every tag: a string with digits comes
back as it was, and the empty one as `null`. -/
theorem hexReadsBack (s : HexString) (tag : UInt8) : ReadsBack s tag s.read := by
  intro w ops
  obtain ⟨ops', hwrite, hbytes⟩ := w.write_writes (units s.chars) tag ops
  refine ⟨ops', _, hwrite, hbytes, ?_⟩
  intro fuel dflt isRequire b r hb
  obtain ⟨b', hread, hat, hsame⟩ := readByteString_reads fuel s tag dflt isRequire b r hb
  exact ⟨b', hread, pos_of_at hb hat hsame⟩

/-- The empty string does not come back. -/
theorem not_always_hexReadsBack :
    ¬∀ (s : HexString) (tag : UInt8), ReadsBack s tag (some s.chars) := by
  intro h
  let empty : HexString := ⟨[], by simp, rfl, Nat.zero_le _⟩
  obtain ⟨ops', bs, hwrite, hbytes, hread⟩ := h empty 0 .writeStringByte []
  have henc : encString 0 (hexStr2Bytes (units empty.chars)) = [6, 0] := by decide
  have hwrites := HexWriter.write_writes .writeStringByte (units empty.chars) 0
  have hreads := readByteString_reads 0 empty 0 none true
  rw [henc] at hwrites hreads
  obtain ⟨ops'', hwrite', hbytes'⟩ := hwrites []
  cases hwrite.symm.trans hwrite'
  obtain rfl : bs = [6, 0] := List.append_cancel_left
    (hbytes.symm.trans (show toByteArray ops' = toByteArray [] ++ [6, 0] from hbytes'))
  let b : JBuf := ⟨[6, 0], 0, 2, by decide, by decide, by decide⟩
  obtain ⟨b', hsome, -⟩ := hread 0 none true b [] rfl
  obtain ⟨b'', hnone, -⟩ := hreads b [] rfl
  exact absurd (hsome.symm.trans hnone) (by simp [HexString.read, empty])

end OCServer.Java
