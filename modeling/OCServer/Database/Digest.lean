import OCServer.Database.Password
import OCServer.Lib.CString

/-!
# Digests of passwords

`MD5.toMD5` hashes the ISO 8859-1 bytes of a string.  `getPwdMd5_eq_iff` says
what follows for the hash of a password if different bytes have different
digests: the hash identifies the bytes of the password.

A client hashes its password with `crypt_util::MD5_string`, sends it through
`util::Buffer2String` and puts it in upper case; the server does the same with
`MD5.toMD5`.  `agree_iff` says when the two come to the same: `MD5_string`
returns its digest as a C string, and `getMD5` returns nothing for no bytes.
-/

namespace OCServer.Database

open SqlLex CString

/-! ## `getBytes( "ISO8859_1" )` -/

/-- The first half of a character outside of the basic plane. -/
def isHighSurrogate (c : UInt16) : Bool := 0xD800 ≤ c && c ≤ 0xDBFF

/-- The second half. -/
def isLowSurrogate (c : UInt16) : Bool := 0xDC00 ≤ c && c ≤ 0xDFFF

/-- The byte of a code unit.  What has none is replaced by `?`. -/
def latinByte (c : UInt16) : UInt8 := if c < 256 then c.toUInt8 else 63

/-- `getBytes( "ISO8859_1" )`, where two surrogates are one character. -/
def getBytes : Text → List UInt8
  | [] => []
  | [c] => [latinByte c]
  | c :: c' :: cs =>
    if isHighSurrogate c && isLowSurrogate c' then 63 :: getBytes cs
    else latinByte c :: getBytes (c' :: cs)

/-- Strings with the same hash have the same bytes. -/
def LatinInjective (md5 : MD5) : Prop :=
  ∀ s s', md5.toMD5 s = md5.toMD5 s' → getBytes s = getBytes s'

theorem not_surrogate {c : UInt16} (h : c < 256) :
    isHighSurrogate c = false ∧ isLowSurrogate c = false := by
  have hlt : c.toNat < 256 := UInt16.lt_iff_toNat_lt.mp h
  simp only [isHighSurrogate, isLowSurrogate, Bool.and_eq_false_iff, decide_eq_false_iff_not,
    UInt16.le_iff_toNat_le]
  constructor
  · left
    show ¬55296 ≤ c.toNat
    omega
  · left
    show ¬56320 ≤ c.toNat
    omega

theorem toUInt16_lt (b : UInt8) : b.toUInt16 < 256 := by
  have hlt := b.toNat_lt
  rw [UInt16.lt_iff_toNat_lt, UInt8.toNat_toUInt16]
  exact hlt

/-- A code unit that is not the first half of a character. -/
theorem getBytes_cons {c : UInt16} {cs : Text}
    (h : isHighSurrogate c = false ∨ ∀ c' ∈ cs.head?, isLowSurrogate c' = false) :
    getBytes (c :: cs) = latinByte c :: getBytes cs := by
  cases cs with
  | nil => rfl
  | cons c' cs =>
    rw [getBytes, if_neg]
    intro hboth
    rw [Bool.and_eq_true] at hboth
    rcases h with h | h
    · rw [h] at hboth
      exact absurd hboth.1 (by decide)
    · rw [h c' rfl] at hboth
      exact absurd hboth.2 (by decide)

theorem latinByte_toUInt16 (b : UInt8) : latinByte b.toUInt16 = b := by
  unfold latinByte
  rw [if_pos (toUInt16_lt b)]
  simp

/-- A string with a code unit for each byte. -/
theorem getBytes_map (bs : List UInt8) : getBytes (bs.map UInt8.toUInt16) = bs := by
  induction bs with
  | nil => rfl
  | cons b bs ih =>
    rw [List.map_cons, getBytes_cons (Or.inl (not_surrogate (toUInt16_lt b)).1), ih,
      latinByte_toUInt16]

/-! ## The hash of a password -/

theorem digit_lt {n : Nat} (h : n < 16) : digit n < 256 := by
  interval_cases n <;> decide

theorem getHexdump_lt (a : List UInt8) : ∀ c ∈ getHexdump a, c < 256 := by
  intro c hc
  rcases mem_getHexdump hc with hc | ⟨n, hn, rfl⟩
  · simp only [List.mem_cons, List.not_mem_nil, or_false] at hc
    rcases hc with rfl | rfl | rfl | rfl | rfl <;> decide
  · exact digit_lt hn

theorem toUInt16_latinByte {c : UInt16} (h : c < 256) : (latinByte c).toUInt16 = c := by
  have hlt : c.toNat < 256 := UInt16.lt_iff_toNat_lt.mp h
  unfold latinByte
  rw [if_pos h, ← UInt16.toNat_inj, UInt8.toNat_toUInt16, UInt16.toNat_toUInt8]
  exact Nat.mod_eq_of_lt hlt

theorem interleave_head {b Salt res : Text} (h : interleave b Salt = some res) :
    res.head? = b.head? := by
  cases b with
  | nil =>
    cases h
    rfl
  | cons c b =>
    cases Salt with
    | nil => cases h
    | cons s Salt =>
      obtain ⟨_, -, rfl⟩ := Option.map_eq_some_iff.mp h
      rfl

/-- The bytes of a string that was mixed with a salt.  The code units of the
salt stand between others that are no surrogates, so each of them is a
character. -/
theorem interleave_getBytes {b Salt res : Text} (hb : ∀ c ∈ b, c < 256)
    (h : interleave b Salt = some res) :
    interleave b (Salt.map fun s => (latinByte s).toUInt16) =
      some ((getBytes res).map UInt8.toUInt16) := by
  induction b generalizing Salt res with
  | nil =>
    cases h
    rfl
  | cons c b ih =>
    cases Salt with
    | nil => cases h
    | cons s Salt =>
      obtain ⟨rest, hrest, rfl⟩ := Option.map_eq_some_iff.mp h
      obtain ⟨hc, hb⟩ := List.forall_mem_cons.mp hb
      have hhead : ∀ c' ∈ rest.head?, isLowSurrogate c' = false := by
        intro c' hc'
        rw [interleave_head hrest] at hc'
        exact (not_surrogate (hb c' (List.mem_of_mem_head? hc'))).2
      rw [getBytes_cons (Or.inl (not_surrogate hc).1), getBytes_cons (Or.inr hhead),
        List.map_cons, List.map_cons, List.map_cons, interleave, ih hb hrest,
        toUInt16_latinByte hc]
      rfl

/-- Passwords with the same hash have the same bytes, as far as MD5 can tell
the bytes of two strings apart. -/
theorem hashOf_latin {md5 : MD5} (hmd5 : LatinInjective md5) {UID : Long} {a a' : List UInt8}
    {Salt h : Text} (ha : hashOf md5 UID a Salt = some h) (ha' : hashOf md5 UID a' Salt = some h) :
    a = a' := by
  obtain ⟨res, hres, rfl⟩ := Option.map_eq_some_iff.mp ha
  obtain ⟨res', hres', heq⟩ := Option.map_eq_some_iff.mp ha'
  have hbytes := interleave_getBytes (getHexdump_lt _) hres
  rw [← hmd5 res' res heq] at hbytes
  have hsame := interleave_injective hbytes (interleave_getBytes (getHexdump_lt _) hres')
  exact addUID_injective UID (getHexdump_injective hsame)

theorem getPwdMd5_of_le (md5 : MD5) (UID : Long) {p Salt : Text} (hsalt : Salt.length = 32)
    (hp : (hexStr2Bytes p).length ≤ 16) : ∃ h, getPwdMd5 md5 UID p Salt = some h := by
  apply Option.isSome_iff_exists.mp
  rw [getPwdMd5_isSome_iff, hsalt, saltLength, getHexdump_length]
  split_ifs
  · omega
  · omega

/-- For every UID, every salt of 32 characters and all passwords of at most
16 bytes, the hashes are the same if and only if the bytes are. -/
theorem getPwdMd5_eq_iff {md5 : MD5} (hmd5 : LatinInjective md5) (UID : Long) {Salt : Text}
    (hsalt : Salt.length = 32) {p q : Text} (hp : (hexStr2Bytes p).length ≤ 16)
    (hq : (hexStr2Bytes q).length ≤ 16) :
    ∃ h h', getPwdMd5 md5 UID p Salt = some h ∧ getPwdMd5 md5 UID q Salt = some h' ∧
      (h = h' ↔ hexStr2Bytes p = hexStr2Bytes q) := by
  obtain ⟨h, hpwd⟩ := getPwdMd5_of_le md5 UID hsalt hp
  obtain ⟨h', hpwd'⟩ := getPwdMd5_of_le md5 UID hsalt hq
  refine ⟨h, h', hpwd, hpwd', ?_, ?_⟩
  · rintro rfl
    exact hashOf_latin hmd5 hpwd hpwd'
  · intro hbytes
    unfold getPwdMd5 at hpwd hpwd'
    rw [hbytes, hpwd'] at hpwd
    exact (Option.some.inj hpwd).symm

/-- The MD5 of `0000`. -/
def zerosDigest : List UInt8 :=
  [0x4A, 0x7D, 0x1E, 0xD4, 0x14, 0x47, 0x4E, 0x40, 0x33, 0xAC, 0x29, 0xCC, 0xB8, 0x65, 0x3D, 0x9B]

/-- The MD5 of `0000`, and for other strings a digit and the bytes. -/
def sampleMD5 : MD5 where
  toMD5 s :=
    if getBytes s = [48, 48, 48, 48] then zerosDigest.flatMap hexByte
    else digit 0 :: (getBytes s).flatMap hexByte
  isDigit s c hc := by
    split_ifs at hc
    · exact mem_flatMap_hexByte hc
    · rcases List.mem_cons.mp hc with rfl | hc
      · exact ⟨0, by decide, rfl⟩
      · exact mem_flatMap_hexByte hc

theorem sampleMD5_injective : LatinInjective sampleMD5 := by
  have hodd : ∀ a a' : List UInt8, a.flatMap hexByte ≠ digit 0 :: a'.flatMap hexByte := by
    intro a a' h
    have hlen := congrArg List.length h
    rw [List.length_cons, flatMap_hexByte_length, flatMap_hexByte_length] at hlen
    omega
  intro s s' h
  unfold sampleMD5 at h
  simp only at h
  split_ifs at h with hs hs' hs'
  · rw [hs, hs']
  · exact absurd h (hodd _ _)
  · exact absurd h.symm (hodd _ _)
  · exact flatMap_hexByte_injective (List.cons.inj h).2

theorem getPwdMd5_eq_iff_FF :
    ∃ h h', getPwdMd5 sampleMD5 1 [70, 70] (List.replicate 32 48) = some h ∧
      getPwdMd5 sampleMD5 1 [102, 102] (List.replicate 32 48) = some h' ∧
      (h = h' ↔ hexStr2Bytes [70, 70] = hexStr2Bytes [102, 102]) :=
  getPwdMd5_eq_iff sampleMD5_injective 1 (by decide) (by decide) (by decide)

/-! ## `MD5.toMD5` -/

/-- What the MD5 function of a library answers. -/
structure Digest where
  bytes : List UInt8
  length_eq : bytes.length = 16

section

variable (lib : List UInt8 → Digest)

/-- `getMD5` of a whole array. -/
def getMD5 (bArr : List UInt8) : Option Digest := if bArr.isEmpty then none else some (lib bArr)

/-- `toMD5` of a string. -/
def toMD5 (str : Text) : Text :=
  match getMD5 lib (getBytes str) with
  | none => []
  | some md5 => (md5.bytes.take 16).flatMap hexByte

theorem toMD5_eq (str : Text) :
    toMD5 lib str =
      if getBytes str = [] then [] else (lib (getBytes str)).bytes.flatMap hexByte := by
  unfold toMD5 getMD5
  cases hbytes : getBytes str with
  | nil => rfl
  | cons c cs =>
    rw [if_neg (List.cons_ne_nil c cs)]
    show (List.take 16 _).flatMap hexByte = _
    rw [List.take_of_length_le (Nat.le_of_eq (lib _).length_eq)]

/-- `MD5` over the library. -/
def javaMD5 : MD5 where
  toMD5 := toMD5 lib
  isDigit s c hc := by
    rw [toMD5_eq] at hc
    split_ifs at hc
    · cases hc
    · exact mem_flatMap_hexByte hc

/-! ## `crypt_util` and `util` -/

/-- `MD5_string`: the digest stands in front of a zero, and is returned as a C
string. -/
def MD5_string (pwd : List UInt8) : List UInt8 := ofBuffer ((lib pwd).bytes ++ [0])

/-- `MD5_vector`. -/
def MD5_vector (buf : List UInt8) : List UInt8 := ((lib buf).bytes ++ [0]).take 16

/-- A digit of `%x`. -/
def lowerDigit (n : Nat) : UInt8 := if n < 10 then UInt8.ofNat (48 + n) else UInt8.ofNat (87 + n)

/-- `sprintf( tmp, "%x", c & 0xff )`. -/
def sprintfHex (c : UInt8) : List UInt8 :=
  if c.toNat < 16 then [lowerDigit c.toNat]
  else [lowerDigit (c.toNat / 16), lowerDigit (c.toNat % 16)]

/-- What `Buffer2String` appends for one byte. -/
def appendHex (dest : List UInt8) (c : UInt8) : List UInt8 :=
  let tmp := sprintfHex c
  if strlen tmp = 1 then strncat (strcat dest [48]) tmp 1
  else if strlen tmp = 2 then strncat dest tmp 2
  else strcat dest [48, 48]

/-- `Buffer2String`. -/
def Buffer2String (src : List UInt8) : List UInt8 := src.foldl appendHex []

/-- `toupper`. -/
def toupper (c : UInt8) : UInt8 := if 97 ≤ c ∧ c ≤ 122 then c - 32 else c

/-- What the client sends for a password. -/
def clientHash (pwd : List UInt8) : List UInt8 := (Buffer2String (MD5_string lib pwd)).map toupper

end

/-- The digits of one byte are those of the server. -/
theorem upper_sprintfHex (c : UInt8) :
    ∃ ds, (∀ dest, appendHex dest c = dest ++ ds) ∧
      (ds.map toupper).map UInt8.toUInt16 = hexByte c := by
  have hlen := c.toNat_lt
  unfold appendHex sprintfHex
  by_cases hc : c.toNat < 16
  · refine ⟨[48, lowerDigit c.toNat], fun dest => ?_, ?_⟩
    · rw [if_pos hc]
      simp [strlen, strncat, strcat]
    · unfold hexByte
      generalize c.toNat = n at hc
      interval_cases n <;> decide
  · refine ⟨[lowerDigit (c.toNat / 16), lowerDigit (c.toNat % 16)], fun dest => ?_, ?_⟩
    · rw [if_neg hc]
      simp [strlen, strncat]
    · unfold hexByte
      have hdigit : ∀ n < 16, (toupper (lowerDigit n)).toUInt16 = digit n := by decide
      simp only [List.map_cons, List.map_nil, hdigit _ (show c.toNat / 16 < 16 by omega),
        hdigit _ (show c.toNat % 16 < 16 by omega)]

/-- `Buffer2String` in upper case, by induction on what is left of the buffer. -/
theorem upper_Buffer2String (src : List UInt8) :
    ((Buffer2String src).map toupper).map UInt8.toUInt16 = src.flatMap hexByte := by
  have hfold : ∀ dest, ((src.foldl appendHex dest).map toupper).map UInt8.toUInt16 =
      (dest.map toupper).map UInt8.toUInt16 ++ src.flatMap hexByte := by
    induction src with
    | nil => simp
    | cons c src ih =>
      intro dest
      obtain ⟨ds, happend, hdigits⟩ := upper_sprintfHex c
      rw [List.foldl_cons, ih, happend, List.map_append, List.map_append, hdigits,
        List.append_assoc, List.flatMap_cons]
  exact hfold []

section

variable {lib : List UInt8 → Digest} {pwd : List UInt8}

theorem clientHash_eq (lib : List UInt8 → Digest) (pwd : List UInt8) :
    (clientHash lib pwd).map UInt8.toUInt16 = (MD5_string lib pwd).flatMap hexByte :=
  upper_Buffer2String _

/-- `MD5_string` returns the whole digest. -/
theorem MD5_string_eq_iff : MD5_string lib pwd = (lib pwd).bytes ↔ 0 ∉ (lib pwd).bytes :=
  ofBuffer_append_zero_iff _

theorem MD5_vector_eq (lib : List UInt8 → Digest) (pwd : List UInt8) :
    MD5_vector lib pwd = (lib pwd).bytes :=
  List.take_left' (lib pwd).length_eq

/-- The strings are the same. -/
theorem clientHash_eq_iff : (clientHash lib pwd).map UInt8.toUInt16 =
      toMD5 lib (pwd.map UInt8.toUInt16) ↔
    if pwd = [] then (lib pwd).bytes.head?.getD 0 = 0 else 0 ∉ (lib pwd).bytes := by
  rw [clientHash_eq, toMD5_eq, getBytes_map]
  split_ifs with hpwd
  · rw [← ofBuffer_eq_nil_iff]
    constructor
    · intro h
      exact flatMap_hexByte_injective h
    · intro h
      rw [MD5_string, h]
      rfl
  · rw [← MD5_string_eq_iff]
    exact ⟨flatMap_hexByte_injective, fun h => by rw [h]⟩

/-- The client sends what the server computes, and `MD5_string` returns the
whole digest, as `MD5_vector` does. -/
structure PipelinesAgree (lib : List UInt8 → Digest) (pwd : List UInt8) : Prop where
  hash : (clientHash lib pwd).map UInt8.toUInt16 = toMD5 lib (pwd.map UInt8.toUInt16)
  whole : MD5_string lib pwd = (lib pwd).bytes
  vector : MD5_string lib pwd = MD5_vector lib pwd

end

/-- For every library and every password: the two agree if and only if there
is a password and its digest has no zero byte. -/
theorem pipelinesAgree_iff (lib : List UInt8 → Digest) (pwd : List UInt8) :
    PipelinesAgree lib pwd ↔ pwd ≠ [] ∧ 0 ∉ (lib pwd).bytes := by
  constructor
  · intro h
    have hzero := MD5_string_eq_iff.mp h.whole
    refine ⟨fun hpwd => ?_, hzero⟩
    have hhash := clientHash_eq_iff.mp h.hash
    rw [if_pos hpwd] at hhash
    have hlen := (lib pwd).length_eq
    cases hbytes : (lib pwd).bytes with
    | nil =>
      rw [hbytes] at hlen
      cases hlen
    | cons c cs =>
      rw [hbytes] at hhash hzero
      obtain rfl : c = 0 := hhash
      exact hzero List.mem_cons_self
  · rintro ⟨hpwd, hzero⟩
    have hwhole := MD5_string_eq_iff.mpr hzero
    exact ⟨clientHash_eq_iff.mpr (by rwa [if_neg hpwd]), hwhole,
      hwhole.trans (MD5_vector_eq lib pwd).symm⟩

/-- The password `38`, whose digest ends in the middle. -/
theorem not_always_pipelinesAgree : ¬∀ lib pwd, PipelinesAgree lib pwd := by
  intro h
  let lib : List UInt8 → Digest := fun _ =>
    ⟨[0xA5, 0x77, 0x1B, 0xCE, 0x93, 0xE2, 0x00, 0xC3, 0x6F, 0x7C, 0xD9, 0xDF, 0xD0, 0xE5, 0xDE,
      0xAA], rfl⟩
  have hwhole := (h lib [0x33, 0x38]).whole
  revert hwhole
  decide

end OCServer.Database
