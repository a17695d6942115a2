import OCServer.Database.Digest
import OCServer.Lib.CharArray
import OCServer.Lib.Incremental
import OCServer.Lib.Loop
import OCServer.Lib.MachineInt

/-!
# The hex codec of `util`

`Buffer2String` and `String2Buffer` with all their overloads, over arrays whose
accesses are checked.  The overloads go through an `int` for the length, and
through `malloc`, which has nothing for a length that turned negative.

`hexRoundTrips_iff` says when a pair of overloads gives back what went in.  The
decoder into a `std::string` builds it from a C string, so that it ends in
front of the first zero byte.
-/

namespace OCServer.Util

open CString CharArray Incremental Loop MachineInt

/-! ## Encoding -/

/-- What `Buffer2String` does for one byte. -/
def appendHex (dest : List UInt8) (c : UInt8) : Except Fault (List UInt8) := do
  let tmp := Database.sprintfHex c
  if strlen tmp = 1 then
    let dest ← CharArray.strcat dest [48]
    CharArray.strncat dest tmp 1
  else if strlen tmp = 2 then CharArray.strncat dest tmp 2
  else CharArray.strcat dest [48, 48]

/-- Its loop, from `i` on. -/
def encodeLoop (src : List UInt8) : Nat → Nat → List UInt8 → Except Fault (List UInt8)
  | 0, _, dest => .ok dest
  | n + 1, i, dest => do
    let c ← load src i
    let dest ← appendHex dest c
    encodeLoop src n (i + 1) dest

/-- `Buffer2String( char *, int, char * )`: `i * 2` and the array. -/
def Buffer2String (src : List UInt8) (srclen : Int) (dest : List UInt8) :
    Except Fault (Int × List UInt8) := do
  let dest ← encodeLoop src srclen.toNat 0 dest
  pure ((BitVec.ofInt 32 (srclen.toNat * 2)).toInt, dest)

/-- `malloc( n )` and `memset`.  There is nothing for more than `PTRDIFF_MAX`
bytes, and `memset` of a null pointer is an access outside of any array. -/
def mallocZero (n : Nat) : Except Fault (List UInt8) :=
  if n < 2 ^ 63 then .ok (List.replicate n 0) else .error .outOfBounds

/-- `Buffer2String( char *, int, std::string & )`. -/
def Buffer2StringPtr (src : List UInt8) (srclen : Int) : Except Fault (Int × List UInt8) := do
  let buff ← mallocZero ((intToSize (BitVec.ofInt 32 (2 * srclen)).toInt + 1) % 2 ^ 64)
  let (res, buff) ← Buffer2String src srclen buff
  let dest ← cstr buff
  pure (res, dest)

/-- `Buffer2String( std::string, std::string & )`.  A `std::string` has a zero
behind its characters. -/
def Buffer2StringStr (src : List UInt8) : Except Fault (Int × List UInt8) := do
  let len := toInt src.length
  let buff ← mallocZero ((intToSize len * 2 + 1) % 2 ^ 64)
  let (res, buff) ← Buffer2String (src ++ [0]) len buff
  let dest ← cstr buff
  pure (res, dest)

/-- `Buffer2String( std::vector<char>, std::string & )`.  The first `malloc` has
no `memset`, but the array is filled before it is read. -/
def Buffer2StringVec (src : List UInt8) : Except Fault (Int × List UInt8) := do
  let len := toInt src.length
  let buff ← mallocZero (intToSize len)
  let buff ← storeAll buff 0 src
  let result ← mallocZero ((intToSize len * 2 + 1) % 2 ^ 64)
  let (res, result) ← Buffer2String buff len result
  let dest ← cstr result
  pure (res, dest)

/-! ## Decoding -/

/-- `isspace`. -/
def isspace (c : UInt8) : Bool := c == 32 || (9 ≤ c && c ≤ 13)

/-- The value of a digit of `%x`. -/
def digitValue (c : UInt8) : Option Nat :=
  if 48 ≤ c ∧ c ≤ 57 then some (c.toNat - 48)
  else if 97 ≤ c ∧ c ≤ 102 then some (c.toNat - 87)
  else if 65 ≤ c ∧ c ≤ 70 then some (c.toNat - 55)
  else none

/-- The sign in front of a number. -/
def scanSign : List UInt8 → Bool × List UInt8
  | 45 :: s => (true, s)
  | 43 :: s => (false, s)
  | s => (false, s)

/-- The `0x` in front of the digits. -/
def scanPrefix : List UInt8 → List UInt8
  | 48 :: 120 :: s => s
  | 48 :: 88 :: s => s
  | s => s

/-- The digits. -/
def scanDigits : List UInt8 → Nat → Nat
  | [], res => res
  | c :: s, res =>
    match digitValue c with
    | some v => scanDigits s (res * 16 + v)
    | none => res

/-- `sscanf( tmp, "%x", &out )` with `out` zero, which it stays when there is no
digit. -/
def sscanfHex (tmp : List UInt8) : BitVec 32 :=
  let (negative, s) := scanSign (tmp.dropWhile isspace)
  let out := BitVec.ofNat 32 (scanDigits (scanPrefix s) 0)
  if negative then -out else out

/-- The loop of `String2Buffer`, from `i` on. -/
def decodeLoop (src : List UInt8) : Nat → Nat → List UInt8 → Except Fault (List UInt8)
  | 0, _, dest => .ok dest
  | n + 1, i, dest => do
    let tmp0 ← load src (2 * i)
    let tmp1 ← load src (2 * i + 1)
    let out := sscanfHex (ofBuffer [tmp0, tmp1, 0])
    let dest ← store dest i (UInt8.ofBitVec ((out &&& 0xff).setWidth 8))
    decodeLoop src n (i + 1) dest

/-- `String2Buffer( char *, int, char * )`: `i` and the array. -/
def String2Buffer (src : List UInt8) (srclen : Int) (dest : List UInt8) :
    Except Fault (Int × List UInt8) := do
  if srclen % 2 ≠ 0 then pure (0, dest)
  else
    let dest ← decodeLoop src (srclen / 2).toNat 0 dest
    pure ((srclen / 2).toNat, dest)

/-- `String2Buffer( std::string, std::string & )`. -/
def String2BufferStr (src : List UInt8) : Except Fault (Int × List UInt8) := do
  let len := toInt src.length
  let buff ← mallocZero ((intToSize len + 1) % 2 ^ 64)
  let (res, buff) ← String2Buffer (src ++ [0]) len buff
  let dest ← cstr buff
  pure (res, dest)

/-- `String2Buffer( std::string, std::vector<char> & )`. -/
def String2BufferVec (src : List UInt8) : Except Fault (Int × List UInt8) := do
  let len := toInt src.length
  let buff ← mallocZero ((intToSize len + 1) % 2 ^ 64)
  let (res, buff) ← String2Buffer (src ++ [0]) len buff
  let dest ← loadAll buff res.toNat
  pure (res, dest)

/-! ## The digits -/

/-- The digits of one byte. -/
def hexDigits (c : UInt8) : List UInt8 :=
  [Database.lowerDigit (c.toNat / 16), Database.lowerDigit (c.toNat % 16)]

/-- The digits of all bytes. -/
def hex (b : List UInt8) : List UInt8 := b.flatMap hexDigits

theorem hex_length (b : List UInt8) : (hex b).length = 2 * b.length := by
  induction b with
  | nil => rfl
  | cons c b ih =>
    rw [hex, List.flatMap_cons, List.length_append]
    change _ + (hex b).length = _
    rw [ih, List.length_cons]
    simp only [hexDigits, List.length_cons, List.length_nil]
    omega

theorem lowerDigit_ne_zero : ∀ n < 16, Database.lowerDigit n ≠ 0 := by decide

theorem not_mem_hexDigits (c : UInt8) : 0 ∉ hexDigits c := by
  have hc := c.toNat_lt
  intro h
  simp only [hexDigits, List.mem_cons, List.not_mem_nil, or_false] at h
  rcases h with h | h
  · exact lowerDigit_ne_zero _ (by omega) h.symm
  · exact lowerDigit_ne_zero _ (by omega) h.symm

theorem not_mem_hex (b : List UInt8) : 0 ∉ hex b := by
  intro h
  obtain ⟨c, -, hc⟩ := List.mem_flatMap.mp h
  exact not_mem_hexDigits c hc

/-- The encoder of the digests, which has no array, gives the same digits. -/
theorem hex_eq (b : List UInt8) : Database.Buffer2String b = hex b := by
  have hone : ∀ dest c, Database.appendHex dest c = dest ++ hexDigits c := by
    intro dest c
    have hc := c.toNat_lt
    unfold Database.appendHex Database.sprintfHex hexDigits
    by_cases hlt : c.toNat < 16
    · rw [if_pos hlt, Nat.div_eq_of_lt hlt, Nat.mod_eq_of_lt hlt]
      simp [strlen, CString.strncat, CString.strcat, Database.lowerDigit]
    · rw [if_neg hlt]
      simp [strlen, CString.strncat]
  have hfold : ∀ dest, b.foldl Database.appendHex dest = dest ++ hex b := by
    induction b with
    | nil => simp [hex]
    | cons c b ih =>
      intro dest
      rw [List.foldl_cons, ih, hone, List.append_assoc]
      rfl
  exact hfold []

/-! ## What the encoders give -/

section

variable {p q : List UInt8}

theorem sprintfHex_cases (c : UInt8) :
    (Database.sprintfHex c = [Database.lowerDigit (c.toNat % 16)] ∧
        hexDigits c = [48, Database.lowerDigit (c.toNat % 16)]) ∨
      Database.sprintfHex c = hexDigits c := by
  unfold Database.sprintfHex hexDigits
  by_cases hlt : c.toNat < 16
  · rw [if_pos hlt, Nat.div_eq_of_lt hlt, Nat.mod_eq_of_lt hlt]
    exact Or.inl ⟨rfl, rfl⟩
  · rw [if_neg hlt]
    exact Or.inr rfl

/-- Two digits, and the zero behind them, if there is room. -/
theorem appendHex_eq (hp : 0 ∉ p) (c : UInt8) :
    appendHex (p ++ 0 :: q) c =
      if 2 ≤ q.length then .ok (p ++ hexDigits c ++ 0 :: q.drop 2) else .error .outOfBounds := by
  unfold appendHex
  rcases sprintfHex_cases c with ⟨htmp, hdigits⟩ | htmp
  · have hzero : (0 : UInt8) ∉ p ++ [48] := by simp [hp]
    rw [htmp, hdigits]
    show (CharArray.strcat (p ++ 0 :: q) [48] >>= fun dest =>
      CharArray.strcat dest [Database.lowerDigit (c.toNat % 16)]) = _
    cases q with
    | nil =>
      rw [strcat_fault hp (by decide)]
      rfl
    | cons d q =>
      rw [strcat_eq hp (show [48].length ≤ (d :: q).length by simp)]
      show CharArray.strcat (p ++ [48] ++ 0 :: q) [Database.lowerDigit (c.toNat % 16)] = _
      cases q with
      | nil => exact strcat_fault hzero (by simp)
      | cons d' q =>
        rw [strcat_eq hzero (by simp), if_pos (by simp)]
        simp
  · rw [htmp]
    show CharArray.strcat (p ++ 0 :: q) (hexDigits c) = _
    split_ifs with h
    · exact strcat_eq hp h
    · exact strcat_fault hp (Nat.lt_of_not_le h)

/-- The loop over the bytes `b`, into an array that holds the string `p`. -/
theorem encodeLoop_eq (front b tail : List UInt8) (hp : 0 ∉ p) :
    encodeLoop (front ++ b ++ tail) b.length front.length (p ++ 0 :: q) =
      if 2 * b.length ≤ q.length then .ok (p ++ hex b ++ 0 :: q.drop (2 * b.length))
      else .error .outOfBounds := by
  induction b generalizing front p q with
  | nil => simp [encodeLoop, hex]
  | cons c b ih =>
    have hload : load (front ++ c :: b ++ tail) front.length = .ok c := by
      rw [List.append_assoc]
      exact load_append
    have hzero : (0 : UInt8) ∉ p ++ hexDigits c := by
      simp only [List.mem_append, not_or]
      exact ⟨hp, not_mem_hexDigits c⟩
    have hrest := ih (front ++ [c]) (q := q.drop 2) hzero
    rw [List.append_assoc front, List.singleton_append, List.length_append,
      List.length_singleton] at hrest
    rw [List.length_cons, encodeLoop, hload]
    show (appendHex (p ++ 0 :: q) c >>= encodeLoop _ b.length (front.length + 1)) = _
    rw [appendHex_eq hp c]
    by_cases hq : 2 ≤ q.length
    · have hiff : 2 * b.length ≤ (q.drop 2).length ↔ 2 * (b.length + 1) ≤ q.length := by
        rw [List.length_drop]
        omega
      rw [if_pos hq]
      show encodeLoop _ b.length (front.length + 1) _ = _
      rw [hrest, List.drop_drop, Nat.mul_add, Nat.add_comm (2 * b.length)]
      rw [Nat.mul_add, Nat.add_comm (2 * b.length)] at hiff
      simp only [hiff, List.append_assoc]
      rfl
    · rw [if_neg hq, if_neg (by omega)]
      rfl

/-- `Buffer2String` into an array with an empty string and enough room. -/
theorem Buffer2String_eq (b tail : List UInt8) (h : 2 * b.length ≤ q.length) :
    Buffer2String (b ++ tail) b.length (0 :: q) =
      .ok ((BitVec.ofInt 32 (b.length * 2)).toInt, hex b ++ 0 :: q.drop (2 * b.length)) := by
  have hloop := encodeLoop_eq (p := []) (q := q) [] b tail (by simp)
  rw [if_pos h] at hloop
  change encodeLoop (b ++ tail) b.length 0 (0 :: q) = _ at hloop
  unfold Buffer2String
  rw [Int.toNat_natCast, hloop]
  rfl

/-- The last digits need a zero behind them. -/
theorem Buffer2String_fault (b tail : List UInt8) (h : q.length < 2 * b.length) :
    Buffer2String (b ++ tail) b.length (0 :: q) = .error .outOfBounds := by
  have hloop := encodeLoop_eq (p := []) (q := q) [] b tail (by simp)
  rw [if_neg (Nat.not_le.mpr h)] at hloop
  change encodeLoop (b ++ tail) b.length 0 (0 :: q) = _ at hloop
  unfold Buffer2String
  rw [Int.toNat_natCast, hloop]
  rfl

end

/-! ## What the decoders give -/

theorem sscanfHex_digits : ∀ h < 16, ∀ l < 16,
    sscanfHex (ofBuffer [Database.lowerDigit h, Database.lowerDigit l, 0]) =
      BitVec.ofNat 32 (16 * h + l) := by
  decide +kernel

/-- A byte from its digits. -/
theorem decode_digits (c : UInt8) :
    UInt8.ofBitVec ((sscanfHex (ofBuffer [Database.lowerDigit (c.toNat / 16),
      Database.lowerDigit (c.toNat % 16), 0]) &&& 0xff).setWidth 8) = c := by
  have hc := c.toNat_lt
  have hvalue := sscanfHex_digits (c.toNat / 16) (by omega) (c.toNat % 16) (by omega)
  rw [Nat.div_add_mod] at hvalue
  rw [hvalue, ← UInt8.toNat_inj, UInt8.toNat_ofBitVec, BitVec.toNat_setWidth, BitVec.toNat_and,
    BitVec.toNat_ofNat]
  show (c.toNat % 2 ^ 32 &&& 2 ^ 8 - 1) % 2 ^ 8 = c.toNat
  rw [Nat.and_two_pow_sub_one_eq_mod]
  omega

theorem hex_cons (c : UInt8) (b : List UInt8) : hex (c :: b) = hexDigits c ++ hex b := rfl

theorem hex_append (b b' : List UInt8) : hex (b ++ b') = hex b ++ hex b' := List.flatMap_append

/-- The loop over the digits of `b`, behind those of `front`. -/
theorem decodeLoop_eq (front b tail : List UInt8) {q : List UInt8} (h : b.length ≤ q.length) :
    decodeLoop (hex front ++ (hex b ++ tail)) b.length front.length (front ++ q) =
      .ok (front ++ b ++ q.drop b.length) := by
  induction b generalizing front q with
  | nil => simp [decodeLoop]
  | cons c b ih =>
    cases q with
    | nil => simp at h
    | cons d q =>
      have hsrc : hex front ++ (hex (c :: b) ++ tail) = hex (front ++ [c]) ++ (hex b ++ tail) := by
        rw [hex_append, hex_cons]
        simp [hex]
      have hfirst : load (hex front ++ (hex (c :: b) ++ tail)) (2 * front.length) =
          .ok (Database.lowerDigit (c.toNat / 16)) := by
        rw [← hex_length]
        exact load_append
      have hsecond : load (hex front ++ (hex (c :: b) ++ tail)) (2 * front.length + 1) =
          .ok (Database.lowerDigit (c.toNat % 16)) := by
        have hone : 2 * front.length + 1 =
            (hex front ++ [Database.lowerDigit (c.toNat / 16)]).length := by
          rw [List.length_append, hex_length, List.length_singleton]
        have hlist : hex front ++ (hex (c :: b) ++ tail) =
            (hex front ++ [Database.lowerDigit (c.toNat / 16)]) ++
              Database.lowerDigit (c.toNat % 16) :: (hex b ++ tail) := by
          rw [hex_cons, hexDigits]
          simp
        rw [hone, hlist]
        exact load_append
      have hrest := ih (front ++ [c]) (q := q) (by simpa using h)
      rw [List.append_assoc, List.singleton_append, List.length_append, List.length_singleton]
        at hrest
      simp only [List.length_cons, decodeLoop, hfirst, hsecond, ok_bind, decode_digits,
        store_append]
      rw [hsrc, hrest]
      simp

/-- `String2Buffer` of the digits, into an array with enough room. -/
theorem String2Buffer_eq (b tail : List UInt8) {dest : List UInt8} (h : b.length ≤ dest.length) :
    String2Buffer (hex b ++ tail) (2 * b.length : Nat) dest =
      .ok (b.length, b ++ dest.drop b.length) := by
  have hloop := decodeLoop_eq [] b tail h
  change decodeLoop (hex b ++ tail) b.length 0 dest = _ at hloop
  have heven : ((2 * b.length : Nat) : Int) % 2 = 0 := by omega
  have hhalf : (((2 * b.length : Nat) : Int) / 2).toNat = b.length := by omega
  unfold String2Buffer
  rw [heven, if_neg (by decide), hhalf, hloop]
  rfl

/-- It writes at most half as many bytes as there are characters. -/
theorem String2Buffer_le {src dest out : List UInt8} {srclen r : Int}
    (h : String2Buffer src srclen dest = .ok (r, out)) : r ≤ 0 ∨ 2 * r ≤ srclen := by
  unfold String2Buffer at h
  split_ifs at h with hodd
  · have hzero : r = 0 := (congrArg Prod.fst (Except.ok.inj h)).symm
    exact Or.inl (Int.le_of_eq hzero)
  · cases hloop : decodeLoop src (srclen / 2).toNat 0 dest with
    | error e =>
      rw [hloop] at h
      cases h
    | ok dest' =>
      rw [hloop] at h
      have hhalf : r = (srclen / 2).toNat := (congrArg Prod.fst (Except.ok.inj h)).symm
      omega

/-! ## The overloads -/

section

variable {b : List UInt8}

theorem mallocZero_succ {n : Nat} (h : n < 2 ^ 63 - 1) :
    mallocZero (n + 1) = .ok (0 :: List.replicate n 0) := by
  unfold mallocZero
  rw [if_pos (by omega), List.replicate_succ]

/-- `i * 2` fits an `int`. -/
theorem twice_eq {n : Nat} (h : n < 2 ^ 30) :
    (BitVec.ofInt 32 (n * 2)).toInt = (2 * n : Nat) := by
  rw [BitVec.toInt_ofInt, Nat.mul_comm]
  exact Int.bmod_eq_of_le (by omega) (by push_cast; omega)

/-- The array with the digits, as a string. -/
theorem encoded_eq (tail : List UInt8) (h : b.length < 2 ^ 30) :
    (do
      let (res, buff) ← Buffer2String (b ++ tail) b.length
        (0 :: List.replicate (2 * b.length) 0)
      let dest ← cstr buff
      pure (res, dest)) =
      (.ok ((2 * b.length : Nat), hex b) : Except Fault (Int × List UInt8)) := by
  rw [Buffer2String_eq b tail (by simp)]
  show (cstr (hex b ++ 0 :: _) >>= _) = _
  rw [cstr_eq (not_mem_hex b), twice_eq h]
  rfl

theorem Buffer2StringPtr_eq (h : b.length < 2 ^ 30) :
    Buffer2StringPtr b b.length = .ok ((2 * b.length : Nat), hex b) := by
  have hsize : (intToSize (BitVec.ofInt 32 (2 * (b.length : Int))).toInt + 1) % 2 ^ 64 =
      2 * b.length + 1 := by
    rw [Int.mul_comm, twice_eq h, intToSize_natCast (by omega)]
    exact Nat.mod_eq_of_lt (by omega)
  have hencoded := encoded_eq [] h
  rw [List.append_nil] at hencoded
  unfold Buffer2StringPtr
  rw [hsize, mallocZero_succ (by omega)]
  exact hencoded

/-- The bytes at the front of an array. -/
theorem Buffer2StringPtr_append (tail : List UInt8) (h : b.length < 2 ^ 30) :
    Buffer2StringPtr (b ++ tail) b.length = .ok ((2 * b.length : Nat), hex b) := by
  have hsize : (intToSize (BitVec.ofInt 32 (2 * (b.length : Int))).toInt + 1) % 2 ^ 64 =
      2 * b.length + 1 := by
    rw [Int.mul_comm, twice_eq h, intToSize_natCast (by omega)]
    exact Nat.mod_eq_of_lt (by omega)
  unfold Buffer2StringPtr
  rw [hsize, mallocZero_succ (by omega)]
  exact encoded_eq tail h

theorem Buffer2StringStr_eq (h : b.length < 2 ^ 30) :
    Buffer2StringStr b = .ok ((2 * b.length : Nat), hex b) := by
  have hsize : (intToSize (b.length : Int) * 2 + 1) % 2 ^ 64 = 2 * b.length + 1 := by
    rw [intToSize_natCast (by omega), Nat.mul_comm]
    exact Nat.mod_eq_of_lt (by omega)
  unfold Buffer2StringStr
  rw [toInt_eq (by omega)]
  simp only [hsize]
  rw [mallocZero_succ (by omega)]
  exact encoded_eq [0] h

theorem Buffer2StringVec_eq (h : b.length < 2 ^ 30) :
    Buffer2StringVec b = .ok ((2 * b.length : Nat), hex b) := by
  have hint : intToSize (b.length : Int) = b.length := intToSize_natCast (by omega)
  have hsize : (b.length * 2 + 1) % 2 ^ 64 = 2 * b.length + 1 := by
    rw [Nat.mul_comm]
    exact Nat.mod_eq_of_lt (by omega)
  have hbuff : mallocZero b.length = .ok (List.replicate b.length 0) := if_pos (by omega)
  have hfill : storeAll (List.replicate b.length 0) 0 b = .ok b := by
    have hroom : b.length ≤ (List.replicate b.length (0 : UInt8)).length := by simp
    have hstore := storeAll_eq (p := []) hroom
    rw [List.nil_append] at hstore
    exact hstore.trans (by simp)
  have hencoded := encoded_eq [] h
  rw [List.append_nil] at hencoded
  unfold Buffer2StringVec
  rw [toInt_eq (by omega)]
  simp only [hint, hsize, hbuff, ok_bind, hfill]
  rw [mallocZero_succ (by omega)]
  exact hencoded

/-- The array that a `String2Buffer` with a string fills. -/
theorem decoded_eq (h : b.length < 2 ^ 30) :
    mallocZero ((intToSize (toInt (hex b).length) + 1) % 2 ^ 64) =
        .ok (List.replicate (2 * b.length + 1) 0) ∧
      String2Buffer (hex b ++ [0]) (toInt (hex b).length) (List.replicate (2 * b.length + 1) 0) =
        .ok (b.length, b ++ 0 :: List.replicate b.length 0) := by
  rw [hex_length, toInt_eq (by omega), intToSize_natCast (by omega), Nat.mod_eq_of_lt (by omega)]
  refine ⟨if_pos (by omega), ?_⟩
  have hdrop : (List.replicate (2 * b.length + 1) (0 : UInt8)).drop b.length =
      0 :: List.replicate b.length 0 := by
    rw [List.drop_replicate, ← List.replicate_succ]
    congr 1
    omega
  rw [String2Buffer_eq b [0] (by rw [List.length_replicate]; omega), hdrop]

/-- The decoder into a `std::string` ends in front of the first zero. -/
theorem String2BufferStr_eq (h : b.length < 2 ^ 30) :
    String2BufferStr (hex b) = .ok (b.length, ofBuffer (b ++ [0])) := by
  obtain ⟨hmalloc, hdecode⟩ := decoded_eq h
  have hcstr : cstr (b ++ 0 :: List.replicate b.length 0) = .ok (ofBuffer (b ++ [0])) := by
    unfold cstr
    rw [if_pos (by simp), ofBuffer_append]
  unfold String2BufferStr
  simp only [hmalloc, hdecode, ok_bind, hcstr]
  rfl

theorem String2BufferVec_eq (h : b.length < 2 ^ 30) :
    String2BufferVec (hex b) = .ok (b.length, b) := by
  obtain ⟨hmalloc, hdecode⟩ := decoded_eq h
  unfold String2BufferVec
  simp only [hmalloc, hdecode, ok_bind, Int.toNat_natCast, loadAll_append]
  rfl

end

/-! ## Round trips -/

/-- The pairs of overloads.  `pointer` encodes into a `std::string` and decodes
from its `c_str()` into an array. -/
inductive Overloads
  | chars
  | pointer
  | string
  | vector
  deriving DecidableEq, Repr

/-- Decoding gives back the bytes and their number.  The arrays of the caller are
large enough, and the one that is appended to holds the empty string. -/
def RoundTrips (b : List UInt8) : Overloads → Prop
  | .chars => ∀ dest dest', dest.head? = some 0 → 2 * b.length < dest.length →
      b.length ≤ dest'.length → ∃ res text out,
        Buffer2String b (toInt b.length) dest = .ok (res, text) ∧
          String2Buffer text res dest' = .ok (b.length, out) ∧ out.take b.length = b
  | .pointer => ∀ dest', b.length ≤ dest'.length → ∃ res text out,
      Buffer2StringPtr b (toInt b.length) = .ok (res, text) ∧
        String2Buffer (text ++ [0]) (toInt text.length) dest' = .ok (b.length, out) ∧
          out.take b.length = b
  | .string => ∃ res text, Buffer2StringStr b = .ok (res, text) ∧
      String2BufferStr text = .ok (b.length, b)
  | .vector => ∃ res text, Buffer2StringVec b = .ok (res, text) ∧
      String2BufferVec text = .ok (b.length, b)

/-- An `int` has no more than `2 ^ 31 - 1` characters. -/
theorem count_lt {src dest out : List UInt8} {srclen : Int} {n : Nat} (hlen : srclen < 2 ^ 31)
    (h : String2Buffer src srclen dest = .ok (n, out)) : n < 2 ^ 30 := by
  rcases String2Buffer_le h with hle | hle <;> omega

theorem String2BufferStr_count {src out : List UInt8} {n : Nat}
    (h : String2BufferStr src = .ok (n, out)) : n < 2 ^ 30 := by
  obtain ⟨buff, -, h⟩ := bind_eq_ok h
  obtain ⟨⟨res, buff'⟩, hdecode, h⟩ := bind_eq_ok h
  obtain ⟨dest, -, h⟩ := bind_eq_ok h
  cases h
  exact count_lt (toInt_lt _) hdecode

theorem String2BufferVec_count {src out : List UInt8} {n : Nat}
    (h : String2BufferVec src = .ok (n, out)) : n < 2 ^ 30 := by
  obtain ⟨buff, -, h⟩ := bind_eq_ok h
  obtain ⟨⟨res, buff'⟩, hdecode, h⟩ := bind_eq_ok h
  obtain ⟨dest, -, h⟩ := bind_eq_ok h
  cases h
  exact count_lt (toInt_lt _) hdecode

theorem length_lt_of_roundTrips {b : List UInt8} {o : Overloads} (h : RoundTrips b o) :
    b.length < 2 ^ 30 := by
  cases o with
  | chars =>
    obtain ⟨res, text, out, hencode, hdecode, -⟩ :=
      h (List.replicate (2 * b.length + 1) 0) b rfl (by simp) (Nat.le_refl _)
    obtain ⟨dest, -, hpure⟩ := bind_eq_ok hencode
    have hres : res < 2 ^ 31 := by
      cases hpure
      exact BitVec.toInt_lt
    exact count_lt hres hdecode
  | pointer =>
    obtain ⟨res, text, out, -, hdecode, -⟩ := h b (Nat.le_refl _)
    exact count_lt (toInt_lt _) hdecode
  | string =>
    obtain ⟨res, text, -, hdecode⟩ := h
    exact String2BufferStr_count hdecode
  | vector =>
    obtain ⟨res, text, -, hdecode⟩ := h
    exact String2BufferVec_count hdecode

theorem roundTrips_chars {b : List UInt8} (h : b.length < 2 ^ 30) : RoundTrips b .chars := by
  intro dest dest' hzero hdest hdest'
  cases dest with
  | nil => cases hzero
  | cons c q =>
    obtain rfl : c = 0 := Option.some.inj hzero
    have hencode := Buffer2String_eq b [] (q := q) (by
      rw [List.length_cons] at hdest
      omega)
    rw [List.append_nil, twice_eq h] at hencode
    rw [toInt_eq (by omega)]
    exact ⟨_, _, _, hencode, String2Buffer_eq b _ hdest', List.take_left⟩

theorem roundTrips_pointer {b : List UInt8} (h : b.length < 2 ^ 30) : RoundTrips b .pointer := by
  intro dest' hdest'
  have hdecode := String2Buffer_eq b [0] hdest'
  rw [← hex_length, ← toInt_eq (show (hex b).length < 2 ^ 31 by rw [hex_length]; omega)] at hdecode
  rw [toInt_eq (by omega)]
  exact ⟨_, _, _, Buffer2StringPtr_eq h, hdecode, List.take_left⟩

theorem roundTrips_string_iff {b : List UInt8} (h : b.length < 2 ^ 30) :
    RoundTrips b .string ↔ 0 ∉ b := by
  have hencode := Buffer2StringStr_eq h
  have hdecode := String2BufferStr_eq h
  rw [← ofBuffer_append_zero_iff]
  constructor
  · rintro ⟨res, text, hencode', hdecode'⟩
    rw [hencode] at hencode'
    cases hencode'
    rw [hdecode] at hdecode'
    exact congrArg Prod.snd (Except.ok.inj hdecode')
  · intro hb
    rw [hb] at hdecode
    exact ⟨_, _, hencode, hdecode⟩

/-- For all bytes and every pair of overloads: they come back, with their number,
if and only if there are fewer than `2 ^ 30` of them and, for the pair of
`std::string`s, none of them is zero. -/
theorem hexRoundTrips_iff (b : List UInt8) (o : Overloads) :
    RoundTrips b o ↔ b.length < 2 ^ 30 ∧ (o = .string → 0 ∉ b) := by
  constructor
  · intro h
    have hlt := length_lt_of_roundTrips h
    refine ⟨hlt, ?_⟩
    rintro rfl
    exact (roundTrips_string_iff hlt).mp h
  · rintro ⟨hlt, hzero⟩
    cases o with
    | chars => exact roundTrips_chars hlt
    | pointer => exact roundTrips_pointer hlt
    | string => exact (roundTrips_string_iff hlt).mpr (hzero rfl)
    | vector => exact ⟨_, _, Buffer2StringVec_eq hlt, String2BufferVec_eq hlt⟩

/-- One zero byte comes back as no byte. -/
theorem not_always_hexRoundTrips : ¬∀ b o, RoundTrips b o := by
  intro h
  have hzero := (roundTrips_string_iff (b := [0]) (by decide)).mp (h [0] .string)
  exact hzero (List.mem_singleton_self 0)

end OCServer.Util
