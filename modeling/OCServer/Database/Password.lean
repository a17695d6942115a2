import Mathlib.Tactic.IntervalCases
import OCServer.Lib.SqlLex

/-!
# Password hashes

`getPwdMd5` of `AccountMgrImpl`, with what it needs of `Utils`.  The MD5 of a
password is sent in hexadecimal; its bytes are shifted by the UID, dumped in
hexadecimal, mixed with the salt and hashed again.

A Java string is the list of its UTF-16 code units.
-/

namespace OCServer.Database

open SqlLex

/-- A `long`. -/
abbrev Long := BitVec 64

/-! ## `Utils` -/

/-- `char2Byte`. -/
def char2Byte (ch : UInt16) : UInt8 :=
  if 48 ≤ ch ∧ ch ≤ 57 then (ch - 48).toUInt8
  else if 97 ≤ ch ∧ ch ≤ 102 then (ch - 97 + 10).toUInt8
  else if 65 ≤ ch ∧ ch ≤ 70 then (ch - 65 + 10).toUInt8
  else 0

/-- `hexStr2Bytes`. -/
def hexStr2Bytes : Text → List UInt8
  | high :: low :: str => (char2Byte high * 16 + char2Byte low) :: hexStr2Bytes str
  | _ => []

/-- `digits`, and `MD5.Digit`. -/
def digit (n : Nat) : UInt16 := if n < 10 then UInt16.ofNat (48 + n) else UInt16.ofNat (55 + n)

/-- `highDigits` and `lowDigits` of a byte. -/
def hexByte (b : UInt8) : Text := [digit (b.toNat / 16), digit (b.toNat % 16)]

/-- `getHexdump`. -/
def getHexdump (array : List UInt8) : Text :=
  if array = [] then text "empty" else array.flatMap hexByte

/-! ## Hashing -/

/-- `MD5.toMD5`, which answers digits. -/
structure MD5 where
  toMD5 : Text → Text
  isDigit : ∀ s, ∀ c ∈ toMD5 s, ∃ n < 16, c = digit n

/-- `a[i] += UID` for every byte. -/
def addUID (UID : Long) (a : List UInt8) : List UInt8 :=
  a.map (· + UInt8.ofBitVec (UID.setWidth 8))

/-- The loop over `b.charAt( i )` and `Salt.charAt( i )`, which throws when
the salt is the shorter one. -/
def interleave : Text → Text → Option Text
  | [], _ => some []
  | _ :: _, [] => none
  | b :: bs, s :: ss => (interleave bs ss).map fun res => b :: s :: res

/-- The hash of the bytes of a password.  `none` is a
`StringIndexOutOfBoundsException`. -/
def hashOf (md5 : MD5) (UID : Long) (a : List UInt8) (Salt : Text) : Option Text :=
  (interleave (getHexdump (addUID UID a)) Salt).map md5.toMD5

/-- `getPwdMd5`. -/
def getPwdMd5 (md5 : MD5) (UID : Long) (pwdMd5 Salt : Text) : Option Text :=
  hashOf md5 UID (hexStr2Bytes pwdMd5) Salt

/-- `getRandSalt`, from what `nextBytes` puts in `b`. -/
def getRandSalt (b : Fin 16 → UInt8) : Text := getHexdump (List.ofFn b)

/-! ## When there is a hash -/

/-- The salt must be as long as the dump. -/
theorem interleave_isSome_iff (b Salt : Text) :
    (interleave b Salt).isSome = true ↔ b.length ≤ Salt.length := by
  induction b generalizing Salt with
  | nil => simp [interleave]
  | cons c b ih =>
    cases Salt with
    | nil => simp [interleave]
    | cons s Salt =>
      show ((interleave b Salt).map _).isSome = true ↔ _
      rw [Option.isSome_map, ih, List.length_cons, List.length_cons]
      exact Nat.succ_le_succ_iff.symm

theorem flatMap_hexByte_length (a : List UInt8) : (a.flatMap hexByte).length = 2 * a.length := by
  induction a with
  | nil => rfl
  | cons b a ih =>
    rw [List.flatMap_cons, List.length_append, ih, List.length_cons]
    show 2 + _ = _
    omega

theorem getHexdump_length (a : List UInt8) :
    (getHexdump a).length = if a.length = 0 then 5 else 2 * a.length := by
  unfold getHexdump
  simp only [List.length_eq_zero_iff]
  split
  · decide
  · exact flatMap_hexByte_length a

/-- How long a salt must be to hash a password. -/
def saltLength (pwdMd5 : Text) : Nat := (getHexdump (hexStr2Bytes pwdMd5)).length

theorem getPwdMd5_isSome_iff (md5 : MD5) (UID : Long) (pwdMd5 Salt : Text) :
    (getPwdMd5 md5 UID pwdMd5 Salt).isSome = true ↔ saltLength pwdMd5 ≤ Salt.length := by
  have hlen : (getHexdump (addUID UID (hexStr2Bytes pwdMd5))).length = saltLength pwdMd5 := by
    unfold saltLength
    rw [getHexdump_length, getHexdump_length, addUID, List.length_map]
  unfold getPwdMd5 hashOf
  rw [Option.isSome_map, interleave_isSome_iff, hlen]

/-! ## Digits -/

theorem digit_plain {n : Nat} (h : n < 16) : digit n ≠ quote ∧ digit n ≠ backslash := by
  interval_cases n <;> decide

theorem digit_injective {m n : Nat} (hm : m < 16) (hn : n < 16) (h : digit m = digit n) :
    m = n := by
  have hval := congrArg UInt16.toNat h
  unfold digit at hval
  split at hval <;> split at hval <;>
    simp only [UInt16.toNat_ofNat'] at hval <;> omega

theorem hexByte_injective {b b' : UInt8} (h : hexByte b = hexByte b') : b = b' := by
  have hb := b.toNat_lt
  have hb' := b'.toNat_lt
  unfold hexByte at h
  simp only [List.cons.injEq, and_true] at h
  have hhigh := digit_injective (by omega) (by omega) h.1
  have hlow := digit_injective (by omega) (by omega) h.2
  exact UInt8.toNat_inj.mp (by omega)

theorem flatMap_hexByte_injective {a a' : List UInt8}
    (h : a.flatMap hexByte = a'.flatMap hexByte) : a = a' := by
  induction a generalizing a' with
  | nil =>
    cases a' with
    | nil => rfl
    | cons b a' => cases h
  | cons b a ih =>
    cases a' with
    | nil => cases h
    | cons b' a' =>
      rw [List.flatMap_cons, List.flatMap_cons] at h
      rcases List.append_inj h rfl with ⟨hhead, htail⟩
      rw [hexByte_injective hhead, ih htail]

/-- Dumps of different bytes differ, the dump of no bytes too. -/
theorem getHexdump_injective : Function.Injective getHexdump := by
  have hodd : ∀ a : List UInt8, a.flatMap hexByte ≠ text "empty" := by
    intro a h
    have hlen := congrArg List.length h
    rw [flatMap_hexByte_length, show (text "empty").length = 5 by decide] at hlen
    omega
  intro a a' h
  unfold getHexdump at h
  split at h
  · next ha =>
    split at h
    · next ha' => rw [ha, ha']
    · exact absurd h.symm (hodd a')
  · split at h
    · exact absurd h (hodd a)
    · exact flatMap_hexByte_injective h

theorem mem_flatMap_hexByte {a : List UInt8} {c : UInt16} (hc : c ∈ a.flatMap hexByte) :
    ∃ n < 16, c = digit n := by
  rcases List.mem_flatMap.mp hc with ⟨b, -, hb⟩
  have hlt := b.toNat_lt
  unfold hexByte at hb
  simp only [List.mem_cons, List.not_mem_nil, or_false] at hb
  rcases hb with rfl | rfl
  · exact ⟨_, by omega, rfl⟩
  · exact ⟨_, by omega, rfl⟩

/-- A dump has digits in it, or it is `empty`. -/
theorem mem_getHexdump {a : List UInt8} {c : UInt16} (hc : c ∈ getHexdump a) :
    c ∈ ([101, 109, 112, 116, 121] : Text) ∨ ∃ n < 16, c = digit n := by
  unfold getHexdump at hc
  split at hc
  · rw [show text "empty" = [101, 109, 112, 116, 121] by decide] at hc
    exact Or.inl hc
  · exact Or.inr (mem_flatMap_hexByte hc)

theorem getHexdump_plain (d : Dialect) (a : List UInt8) : Plain d (getHexdump a) := by
  refine plain_of_forall fun c hc => not_special ?_
  rcases mem_getHexdump hc with hc | ⟨n, hn, rfl⟩
  · simp only [List.mem_cons, List.not_mem_nil, or_false] at hc
    rcases hc with rfl | rfl | rfl | rfl | rfl <;> decide
  · exact digit_plain hn

theorem MD5.plain (md5 : MD5) (d : Dialect) (s : Text) : Plain d (md5.toMD5 s) := by
  refine plain_of_forall fun c hc => not_special ?_
  rcases md5.isDigit s c hc with ⟨n, hn, rfl⟩
  exact digit_plain hn

theorem getPwdMd5_plain {md5 : MD5} {UID : Long} {pwdMd5 Salt pwd2 : Text}
    (h : getPwdMd5 md5 UID pwdMd5 Salt = some pwd2) (d : Dialect) : Plain d pwd2 := by
  rcases Option.map_eq_some_iff.mp h with ⟨s, -, rfl⟩
  exact md5.plain d s

/-! ## Comparing hashes -/

/-- How long a password of a salt of the account manager can be. -/
theorem saltLength_le_iff (pwdMd5 : Text) : saltLength pwdMd5 ≤ 32 ↔ pwdMd5.length ≤ 33 := by
  have hlen : ∀ s : Text, (hexStr2Bytes s).length = s.length / 2 := by
    intro s
    fun_induction hexStr2Bytes s with
    | case1 high low str ih =>
      rw [List.length_cons, ih]
      show _ = (str.length + 1 + 1) / 2
      omega
    | case2 s hs =>
      cases s with
      | nil => rfl
      | cons c s =>
        cases s with
        | nil => simp
        | cons c' s => exact absurd rfl (hs c c' s)
  unfold saltLength
  rw [getHexdump_length, hlen]
  split <;> omega

theorem getRandSalt_length (b : Fin 16 → UInt8) : (getRandSalt b).length = 32 := by
  unfold getRandSalt
  rw [getHexdump_length, List.length_ofFn]
  rfl

theorem interleave_injective {b b' Salt res : Text} (h : interleave b Salt = some res)
    (h' : interleave b' Salt = some res) : b = b' := by
  induction b generalizing b' Salt res with
  | nil =>
    cases h
    cases b' with
    | nil => rfl
    | cons c b' =>
      cases Salt with
      | nil => cases h'
      | cons s Salt =>
        rcases Option.map_eq_some_iff.mp h' with ⟨_, -, heq⟩
        cases heq
  | cons c b ih =>
    cases Salt with
    | nil => cases h
    | cons s Salt =>
      rcases Option.map_eq_some_iff.mp h with ⟨rest, hrest, heq⟩
      cases heq
      cases b' with
      | nil => cases h'
      | cons c' b' =>
        rcases Option.map_eq_some_iff.mp h' with ⟨rest', hrest', heq'⟩
        cases heq'
        rw [ih hrest hrest']

theorem addUID_injective (UID : Long) : Function.Injective (addUID UID) := by
  refine List.map_injective_iff.mpr fun a a' h => ?_
  exact (UInt8.add_left_inj _).mp h

/-- Passwords with the same hash have the same bytes. -/
theorem hashOf_injective {md5 : MD5} (hmd5 : Function.Injective md5.toMD5) {UID : Long}
    {a a' : List UInt8} {Salt h : Text} (ha : hashOf md5 UID a Salt = some h)
    (ha' : hashOf md5 UID a' Salt = some h) : a = a' := by
  rcases Option.map_eq_some_iff.mp ha with ⟨res, hres, rfl⟩
  rcases Option.map_eq_some_iff.mp ha' with ⟨res', hres', heq⟩
  rw [hmd5 heq] at hres'
  exact addUID_injective UID (getHexdump_injective (interleave_injective hres hres'))

end OCServer.Database
