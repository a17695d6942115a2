import OCServer.Lib.MachineInt
import OCServer.Lib.Sextets

/-!
# Base64, in Java and in C++

The class `Base64` and the functions of `charutils.cpp`.  Texts are lists of
character codes.

Both encoders give the same text, and each decoder gives back what its encoder was given.
The decoders do not agree on all texts: `decode` in Java skips what is no Base64
character, and goes behind the end of an array when the text ends within a group;
`base64_decode` ends at the first such character, and at the end of the text.
-/

namespace OCServer.Base64

open Sextets

/-- Why a call does not return. -/
inductive Stop
  | arrayIndex
  | overflow
  | outOfFuel
  deriving DecidableEq, Repr

/-! ## `Base64.java` -/

/-- The table, as character codes. -/
def base64EncodeChars : List UInt8 :=
  ['A', 'B', 'C', 'D', 'E', 'F', 'G', 'H',
   'I', 'J', 'K', 'L', 'M', 'N', 'O', 'P',
   'Q', 'R', 'S', 'T', 'U', 'V', 'W', 'X',
   'Y', 'Z', 'a', 'b', 'c', 'd', 'e', 'f',
   'g', 'h', 'i', 'j', 'k', 'l', 'm', 'n',
   'o', 'p', 'q', 'r', 's', 't', 'u', 'v',
   'w', 'x', 'y', 'z', '0', '1', '2', '3',
   '4', '5', '6', '7', '8', '9', '+', '/'].map fun c => UInt8.ofNat c.toNat

/-- The values of the characters, and -1. -/
def base64DecodeChars : List Int := [
  -1, -1, -1, -1, -1, -1, -1, -1, -1, -1, -1, -1, -1, -1, -1, -1,
  -1, -1, -1, -1, -1, -1, -1, -1, -1, -1, -1, -1, -1, -1, -1, -1,
  -1, -1, -1, -1, -1, -1, -1, -1, -1, -1, -1, 62, -1, -1, -1, 63,
  52, 53, 54, 55, 56, 57, 58, 59, 60, 61, -1, -1, -1, -1, -1, -1,
  -1, 0, 1, 2, 3, 4, 5, 6, 7, 8, 9, 10, 11, 12, 13, 14,
  15, 16, 17, 18, 19, 20, 21, 22, 23, 24, 25, -1, -1, -1, -1, -1,
  -1, 26, 27, 28, 29, 30, 31, 32, 33, 34, 35, 36, 37, 38, 39, 40,
  41, 42, 43, 44, 45, 46, 47, 48, 49, 50, 51, -1, -1, -1, -1, -1]

/-- `base64EncodeChars[i]` -/
def encodeChar (i : Nat) : UInt8 := base64EncodeChars.getD i 0

/-- `encode`: whole groups, and the one or two bytes behind them. -/
def encode : List UInt8 → List UInt8
  | a :: b :: d :: data =>
    let c := a.toNat <<< 16 ||| b.toNat <<< 8 ||| d.toNat
    encodeChar (c >>> 18) :: encodeChar (c >>> 12 &&& 0x3f) :: encodeChar (c >>> 6 &&& 0x3f) ::
      encodeChar (c &&& 0x3f) :: encode data
  | [a] =>
    let c := a.toNat
    [encodeChar (c >>> 2), encodeChar ((c &&& 0x03) <<< 4), 61, 61]
  | [a, b] =>
    let c := a.toNat <<< 8 ||| b.toNat
    [encodeChar (c >>> 10), encodeChar (c >>> 4 &&& 0x3f), encodeChar ((c &&& 0x0f) <<< 2), 61]
  | [] => []

/-- How one of the four loops of `decode` ends: at a `=`, or with a value, which is -1 if there
was no Base64 character. -/
inductive Found
  | pad
  | value (b : Int) (rest : List UInt8)
  deriving DecidableEq, Repr

/-- One of the loops.  `pads` is for the two that look for `=`. -/
def next (pads : Bool) : List UInt8 → Except Stop Found
  | [] => .error .arrayIndex
  | d :: rest =>
    if pads ∧ d = 61 then .ok .pad
    else if 128 ≤ d.toNat then .error .arrayIndex
    else
      let b := base64DecodeChars.getD d.toNat (-1)
      if rest ≠ [] ∧ b = -1 then next pads rest else .ok (.value b rest)

/-- Goes on with a value, or returns what is in `buf`. -/
def andThen (found : Except Stop Found) (buf : List UInt8)
    (go : Nat → List UInt8 → Except Stop (List UInt8)) : Except Stop (List UInt8) :=
  match found with
  | .error e => .error e
  | .ok .pad => .ok buf
  | .ok (.value b rest) => if b = -1 then .ok buf else go b.toNat rest

/-- `buf.write( b )` -/
def write (buf : List UInt8) (b : Nat) : List UInt8 := buf ++ [UInt8.ofNat b]

/-- The `while` loop of `decode`. -/
def decodeLoop : Nat → List UInt8 → List UInt8 → Except Stop (List UInt8)
  | 0, _, _ => .error .outOfFuel
  | fuel + 1, data, buf =>
    if data = [] then .ok buf
    else
      andThen (next false data) buf fun b1 data =>
      andThen (next false data) buf fun b2 data =>
      let buf := write buf (b1 <<< 2 ||| (b2 &&& 0x30) >>> 4)
      andThen (next true data) buf fun b3 data =>
      let buf := write buf ((b2 &&& 0x0f) <<< 4 ||| (b3 &&& 0x3c) >>> 2)
      andThen (next true data) buf fun b4 data =>
      decodeLoop fuel data (write buf ((b3 &&& 0x03) <<< 6 ||| b4))

/-- `decode`, for the bytes of its string. -/
def decode (data : List UInt8) : Except Stop (List UInt8) := decodeLoop (data.length + 1) data []

/-! ## `charutils.cpp` -/

/-- `base64_chars` -/
def base64_chars : List UInt8 := base64EncodeChars

def is_base64 (c : UInt8) : Bool :=
  (48 ≤ c && c ≤ 57) || (65 ≤ c && c ≤ 90) || (97 ≤ c && c ≤ 122) || c == 43 || c == 47

/-- `char_array_4` of the encoder. -/
def quad (a b c : Nat) : List Nat :=
  [(a &&& 0xfc) >>> 2, ((a &&& 0x03) <<< 4) + ((b &&& 0xf0) >>> 4),
    ((b &&& 0x0f) <<< 2) + ((c &&& 0xc0) >>> 6), c &&& 0x3f]

/-- The first `i` bytes of `char_array_3`, and `ret`. -/
structure Enc where
  a3 : List UInt8
  ret : List UInt8

def Enc.quad (s : Enc) : List UInt8 :=
  (Base64.quad (s.a3.getD 0 0).toNat (s.a3.getD 1 0).toNat (s.a3.getD 2 0).toNat).map fun i =>
    base64_chars.getD i 0

/-- One round of the encoder's loop. -/
def encodeByte (s : Enc) (b : UInt8) : Enc :=
  let s := { s with a3 := s.a3 ++ [b] }
  if s.a3.length = 3 then ⟨[], s.ret ++ s.quad⟩ else s

/-- What is behind the loop: the array is filled up with zeros. -/
def encodeRest (s : Enc) : List UInt8 :=
  let i := s.a3.length
  if i = 0 then s.ret else s.ret ++ s.quad.take (i + 1) ++ List.replicate (3 - i) 61

/-- `base64_encode( std::string )`.  The length goes through an `unsigned int`. -/
def base64_encode (str : List UInt8) : List UInt8 :=
  encodeRest ((str.take (str.length % 2 ^ 32)).foldl encodeByte ⟨[], []⟩)

/-- `base64_chars.find( c )`, cast to `unsigned char`. -/
def find (c : UInt8) : UInt8 :=
  if c ∈ base64_chars then UInt8.ofNat (base64_chars.idxOf c) else 255

/-- `char_array_3` of the decoder. -/
def triple (a : List UInt8) : List UInt8 :=
  let v := fun i => (a.getD i 0).toNat
  [UInt8.ofNat ((v 0 <<< 2) + ((v 1 &&& 0x30) >>> 4)),
    UInt8.ofNat (((v 1 &&& 0xf) <<< 4) + ((v 2 &&& 0x3c) >>> 2)),
    UInt8.ofNat (((v 2 &&& 0x3) <<< 6) + v 3)]

/-- `i`, `char_array_4` and `ret`. -/
structure Dec where
  i : Nat
  a4 : List UInt8
  ret : List UInt8

/-- One round of the decoder's loop. -/
def decodeChar (s : Dec) (c : UInt8) : Dec :=
  let a4 := s.a4.set s.i c
  if s.i + 1 = 4 then ⟨0, a4.map find, s.ret ++ triple (a4.map find)⟩
  else ⟨s.i + 1, a4, s.ret⟩

/-- The decoder's loop.  A `std::string` has a zero behind its characters, and `in_len--` is an
`int` operation. -/
def base64Loop : Int → List UInt8 → Dec → Except Stop Dec
  | in_len, [], s => if in_len = -2 ^ 31 then .error .overflow else .ok s
  | in_len, c :: rest, s =>
    if in_len = 0 then .ok s
    else if in_len = -2 ^ 31 then .error .overflow
    else if c ≠ 61 ∧ is_base64 c then base64Loop (in_len - 1) rest (decodeChar s c)
    else .ok s

/-- What is behind the loop. -/
def decodeRest (s : Dec) : List UInt8 :=
  if s.i = 0 then s.ret
  else s.ret ++ (triple (s.a4.mapIdx fun j c => if j < s.i then find c else c)).take (s.i - 1)

/-- `base64_decode`, with what is in `char_array_4` before it is written. -/
def base64_decode (garbage : Vector UInt8 4) (encoded_string : List UInt8) :
    Except Stop (List UInt8) := do
  let s ← base64Loop (MachineInt.toInt encoded_string.length) encoded_string
    ⟨0, garbage.toList, []⟩
  pure (decodeRest s)

/-! ## The tables -/

theorem value_char : ∀ v < 64, base64DecodeChars.getD (encodeChar v).toNat (-1) = (v : Int) := by
  decide

theorem char_ascii : ∀ v < 64, (encodeChar v).toNat < 128 ∧ encodeChar v ≠ 61 := by
  decide

theorem is_base64_char : ∀ v < 64, is_base64 (encodeChar v) = true := by
  decide

theorem find_char : ∀ v < 64, find (encodeChar v) = UInt8.ofNat v := by
  decide

theorem char_value_hex : ∀ h < 16, ∀ l < 16, is_base64 (UInt8.ofNat (16 * h + l)) = true →
    0 ≤ base64DecodeChars.getD (16 * h + l) (-1) ∧ base64DecodeChars.getD (16 * h + l) (-1) < 64 ∧
      encodeChar (base64DecodeChars.getD (16 * h + l) (-1)).toNat = UInt8.ofNat (16 * h + l) := by
  decide

theorem char_value {c : UInt8} (h : is_base64 c = true) :
    ∃ v < 64, c = encodeChar v := by
  have hc : 16 * (c.toNat / 16) + c.toNat % 16 = c.toNat := Nat.div_add_mod c.toNat 16
  have hc' : UInt8.ofNat (16 * (c.toNat / 16) + c.toNat % 16) = c := ofNat_eq hc
  have := char_value_hex (c.toNat / 16) (by have := c.toNat_lt; omega) (c.toNat % 16)
    (Nat.mod_lt _ (by decide)) (by rwa [hc'])
  rw [hc', hc] at this
  obtain ⟨h0, h64, hc⟩ := this
  exact ⟨_, by omega, hc.symm⟩

/-- A text of characters of the alphabet is the text of numbers of six bits. -/
theorem values_of_text {t : List UInt8} (h : ∀ c ∈ t, is_base64 c = true) :
    ∃ vs : List Nat, (∀ v ∈ vs, v < 64) ∧ t = vs.map encodeChar := by
  induction t with
  | nil => exact ⟨[], by simp, rfl⟩
  | cons c t ih =>
    obtain ⟨v, hv, rfl⟩ := char_value (h c List.mem_cons_self)
    obtain ⟨vs, hvs, rfl⟩ := ih fun c hc => h c (List.mem_cons_of_mem _ hc)
    refine ⟨v :: vs, ?_, rfl⟩
    intro w hw
    rcases List.mem_cons.mp hw with rfl | hw
    · exact hv
    · exact hvs w hw

/-! ## The encoders -/

/-- The `=` characters behind the text of `n` bytes. -/
def pads (n : Nat) : List UInt8 := List.replicate ((3 - n % 3) % 3) 61

theorem pads_add_three (n : Nat) : pads (n + 3) = pads n := by
  rw [pads, pads, Nat.add_mod_right]

/-- The text of bytes. -/
def text (d : List UInt8) : List UInt8 := (sextets d).map encodeChar ++ pads d.length

theorem word_eq (a b c : UInt8) :
    a.toNat <<< 16 ||| b.toNat <<< 8 ||| c.toNat = (a.toNat * 256 + b.toNat) * 256 + c.toNat := by
  have hb := b.toNat_lt
  have hc := c.toNat_lt
  rw [Nat.or_assoc, shift_or (k := 8) (b := c.toNat) hc, shift_or (k := 16) (by omega)]
  omega

theorem encode_eq (d : List UInt8) : encode d = text d := by
  fun_induction encode d with
  | case1 a b c d w ih =>
    have hb := b.toNat_lt
    have hc := c.toNat_lt
    have hw : w = (a.toNat * 256 + b.toNat) * 256 + c.toNat := word_eq a b c
    have h0 : w >>> 18 = a.toNat / 4 := by rw [Nat.shiftRight_eq_div_pow]; omega
    have h1 : w >>> 12 &&& 0x3f = a.toNat % 4 * 16 + b.toNat / 16 := by
      rw [and_63, Nat.shiftRight_eq_div_pow]; omega
    have h2 : w >>> 6 &&& 0x3f = b.toNat % 16 * 4 + c.toNat / 64 := by
      rw [and_63, Nat.shiftRight_eq_div_pow]; omega
    have h3 : w &&& 0x3f = c.toNat % 64 := by rw [and_63]; omega
    rw [h0, h1, h2, h3, ih, text, text, sextets, List.length_cons, List.length_cons,
      List.length_cons, pads_add_three]
    rfl
  | case2 a w =>
    have h0 : w >>> 2 = a.toNat / 4 := Nat.shiftRight_eq_div_pow _ _
    have h1 : (w &&& 0x03) <<< 4 = a.toNat % 4 * 16 := by rw [and_3, Nat.shiftLeft_eq]
    rw [h0, h1]
    rfl
  | case3 a b w =>
    have hb := b.toNat_lt
    have hw : w = a.toNat * 256 + b.toNat := shift_or (k := 8) hb
    have h0 : w >>> 10 = a.toNat / 4 := by rw [Nat.shiftRight_eq_div_pow]; omega
    have h1 : w >>> 4 &&& 0x3f = a.toNat % 4 * 16 + b.toNat / 16 := by
      rw [and_63, Nat.shiftRight_eq_div_pow]; omega
    have h2 : (w &&& 0x0f) <<< 2 = b.toNat % 16 * 4 := by rw [and_15, Nat.shiftLeft_eq]; omega
    rw [h0, h1, h2]
    rfl
  | case4 => rfl

/-- The four numbers of three bytes. -/
theorem quad_eq (a b c : UInt8) :
    quad a.toNat b.toNat c.toNat = [a.toNat / 4, a.toNat % 4 * 16 + b.toNat / 16,
      b.toNat % 16 * 4 + c.toNat / 64, c.toNat % 64] := by
  have ha := a.toNat_lt
  have hb := b.toNat_lt
  have hc := c.toNat_lt
  have h0 : (a.toNat &&& 0xfc) >>> 2 = a.toNat / 4 % 64 := mask_shift a.toNat 2 6
  have h1 : (b.toNat &&& 0xf0) >>> 4 = b.toNat / 16 % 16 := mask_shift b.toNat 4 4
  have h2 : (c.toNat &&& 0xc0) >>> 6 = c.toNat / 64 % 4 := mask_shift c.toNat 6 2
  rw [quad, h0, h1, h2, and_3, and_15, and_63, Nat.shiftLeft_eq, Nat.shiftLeft_eq,
    Nat.mod_eq_of_lt (show a.toNat / 4 < 64 by omega),
    Nat.mod_eq_of_lt (show b.toNat / 16 < 16 by omega),
    Nat.mod_eq_of_lt (show c.toNat / 64 < 4 by omega)]

theorem Enc.quad_eq (a b c : UInt8) (ret : List UInt8) :
    (Enc.mk [a, b, c] ret).quad = [a.toNat / 4, a.toNat % 4 * 16 + b.toNat / 16,
      b.toNat % 16 * 4 + c.toNat / 64, c.toNat % 64].map encodeChar := by
  rw [Enc.quad, ← Base64.quad_eq]
  rfl

/-- A group of three bytes is written, and the array is empty again. -/
theorem encodeByte_group (a b c : UInt8) (ret : List UInt8) :
    encodeByte (encodeByte (encodeByte ⟨[], ret⟩ a) b) c =
      ⟨[], ret ++ (Enc.mk [a, b, c] ret).quad⟩ := rfl

/-- The encoder's loop writes the text, from a state between two groups on. -/
theorem encodeRest_foldl (d ret : List UInt8) :
    encodeRest (d.foldl encodeByte ⟨[], ret⟩) = ret ++ text d := by
  induction d using sextets.induct generalizing ret with
  | case1 => exact (List.append_nil ret).symm
  | case2 a =>
    have h : encodeRest ([a].foldl encodeByte ⟨[], ret⟩) =
        ret ++ (Enc.mk [a, 0, 0] ret).quad.take 2 ++ [61, 61] := rfl
    rw [h, Enc.quad_eq, List.append_assoc]
    rfl
  | case3 a b =>
    have h : encodeRest ([a, b].foldl encodeByte ⟨[], ret⟩) =
        ret ++ (Enc.mk [a, b, 0] ret).quad.take 3 ++ [61] := rfl
    rw [h, Enc.quad_eq, List.append_assoc]
    rfl
  | case4 a b c d ih =>
    rw [List.foldl_cons, List.foldl_cons, List.foldl_cons, encodeByte_group, ih, Enc.quad_eq,
      List.append_assoc, text, text, sextets, List.length_cons, List.length_cons,
      List.length_cons, pads_add_three]
    rfl

theorem base64_encode_eq (s : List UInt8) :
    base64_encode s = text (s.take (s.length % 2 ^ 32)) := by
  rw [base64_encode, encodeRest_foldl, List.nil_append]

/-- Both encoders write one text, of as many bytes as an `unsigned int` counts. -/
theorem encoders_agree (s : List UInt8) :
    base64_encode s = encode (s.take (s.length % 2 ^ 32)) := by
  rw [base64_encode_eq, encode_eq]

/-! ## The decoder in Java -/

theorem next_char (p : Bool) {v : Nat} (hv : v < 64) (rest : List UInt8) :
    next p (encodeChar v :: rest) = .ok (.value v rest) := by
  obtain ⟨h128, h61⟩ := char_ascii v hv
  have hval := value_char v hv
  rw [next, if_neg fun h => h61 h.2, if_neg (by omega)]
  simp only [hval]
  rw [if_neg fun h => absurd h.2 (by omega)]

theorem next_nil (p : Bool) : next p [] = .error .arrayIndex := by rw [next]

theorem next_pad (rest : List UInt8) : next true (61 :: rest) = .ok .pad := by
  rw [next, if_pos ⟨rfl, rfl⟩]

/-- The loops for the first two characters of a group go over all `=` to the end. -/
theorem next_pads (k : Nat) : next false (List.replicate (k + 1) 61) = .ok (.value (-1) []) := by
  induction k with
  | zero => rfl
  | succ k ih =>
    rw [List.replicate_succ, next, if_neg (by decide), if_neg (by decide)]
    exact (if_pos ⟨List.cons_ne_nil _ _, rfl⟩).trans ih

theorem decodeLoop_nil (fuel : Nat) (buf : List UInt8) :
    decodeLoop (fuel + 1) [] buf = .ok buf := by
  rw [decodeLoop, if_pos rfl]

theorem andThen_value (v : Nat) (rest buf : List UInt8)
    (go : Nat → List UInt8 → Except Stop (List UInt8)) :
    andThen (.ok (.value v rest)) buf go = go v rest := by
  rw [andThen, if_neg (by omega), Int.toNat_natCast]

theorem andThen_char (p : Bool) {v : Nat} (hv : v < 64) (rest buf : List UInt8)
    (go : Nat → List UInt8 → Except Stop (List UInt8)) :
    andThen (next p (encodeChar v :: rest)) buf go = go v rest := by
  rw [next_char p hv, andThen_value]

theorem andThen_nil (p : Bool) (buf : List UInt8)
    (go : Nat → List UInt8 → Except Stop (List UInt8)) :
    andThen (next p []) buf go = .error .arrayIndex := by
  rw [next_nil, andThen]

theorem andThen_pad (rest buf : List UInt8) (go : Nat → List UInt8 → Except Stop (List UInt8)) :
    andThen (next true (61 :: rest)) buf go = .ok buf := by
  rw [next_pad, andThen]

theorem andThen_pads (k : Nat) (buf : List UInt8)
    (go : Nat → List UInt8 → Except Stop (List UInt8)) :
    andThen (next false (List.replicate (k + 1) 61)) buf go = .ok buf := by
  rw [next_pads, andThen, if_pos rfl]

theorem first_eq {a b : Nat} (hb : b < 64) : a <<< 2 ||| (b &&& 0x30) >>> 4 = a * 4 + b / 16 := by
  have h : (b &&& 0x30) >>> 4 = b / 16 % 4 := mask_shift b 4 2
  rw [h, Nat.mod_eq_of_lt (by omega)]
  exact shift_or (k := 2) (by omega)

theorem second_eq {b c : Nat} (hc : c < 64) :
    (b &&& 0x0f) <<< 4 ||| (c &&& 0x3c) >>> 2 = b % 16 * 16 + c / 4 := by
  have h : (c &&& 0x3c) >>> 2 = c / 4 % 16 := mask_shift c 2 4
  rw [h, and_15, Nat.mod_eq_of_lt (show c / 4 < 16 by omega)]
  exact shift_or (k := 4) (by omega)

theorem third_eq {c d : Nat} (hd : d < 64) : (c &&& 0x03) <<< 6 ||| d = c % 4 * 64 + d := by
  rw [and_3]
  exact shift_or (k := 6) hd

/-- A whole group is written. -/
theorem decodeLoop_group {a b c d : Nat} (ha : a < 64) (hb : b < 64) (hc : c < 64) (hd : d < 64)
    (fuel : Nat) (rest buf : List UInt8) :
    decodeLoop (fuel + 1)
        (encodeChar a :: encodeChar b :: encodeChar c :: encodeChar d :: rest) buf =
      decodeLoop fuel rest (buf ++ octets [a, b, c, d]) := by
  rw [decodeLoop, if_neg (List.cons_ne_nil _ _), andThen_char _ ha, andThen_char _ hb]
  simp only [andThen_char true hc, andThen_char true hd]
  rw [first_eq hb, second_eq hc, third_eq hd]
  simp only [write, octets, List.append_assoc, List.cons_append, List.nil_append]

/-- What `decode` returns for numbers of six bits and `k` `=` behind them. -/
def decoded (vs : List Nat) (k : Nat) (buf : List UInt8) : Except Stop (List UInt8) :=
  if 4 ∣ vs.length ∨ 0 < k then .ok (buf ++ octets vs) else .error .arrayIndex

theorem decodeLoop_eq {vs : List Nat} (hvs : ∀ v ∈ vs, v < 64) (k fuel : Nat) (buf : List UInt8)
    (hfuel : vs.length + k < fuel) :
    decodeLoop fuel (vs.map encodeChar ++ List.replicate k 61) buf = decoded vs k buf := by
  obtain ⟨fuel, rfl⟩ : ∃ f, fuel = f + 1 := ⟨fuel - 1, by omega⟩
  induction vs using octets.induct generalizing fuel buf with
  | case1 =>
    rw [decoded, if_pos (.inl (Nat.dvd_zero 4)), octets, List.append_nil, List.map_nil,
      List.nil_append]
    cases k with
    | zero => exact decodeLoop_nil fuel buf
    | succ k => rw [decodeLoop, if_neg (by simp), andThen_pads]
  | case2 a =>
    have ha := hvs a (by simp)
    rw [decodeLoop, if_neg (by simp), List.map_singleton, List.singleton_append, andThen_char _ ha]
    cases k with
    | zero => rw [List.replicate_zero, andThen_nil, decoded, if_neg (by simp)]
    | succ k =>
      rw [andThen_pads, decoded, if_pos (.inr (Nat.succ_pos k)), octets, List.append_nil]
  | case3 a b =>
    have ha := hvs a (by simp)
    have hb := hvs b (by simp)
    rw [decodeLoop, if_neg (by simp), List.map_cons, List.map_singleton, List.cons_append,
      List.singleton_append, andThen_char _ ha, andThen_char _ hb]
    cases k with
    | zero =>
      simp only [List.replicate_zero, andThen_nil]
      rw [decoded, if_neg (by simp)]
    | succ k =>
      simp only [List.replicate_succ, andThen_pad]
      rw [decoded, if_pos (.inr (Nat.succ_pos k)), first_eq hb]
      rfl
  | case4 a b c =>
    have ha := hvs a (by simp)
    have hb := hvs b (by simp)
    have hc := hvs c (by simp)
    rw [decodeLoop, if_neg (by simp), List.map_cons, List.map_cons, List.map_singleton,
      List.cons_append, List.cons_append, List.singleton_append, andThen_char _ ha,
      andThen_char _ hb]
    cases k with
    | zero =>
      simp only [List.replicate_zero, andThen_char true hc, andThen_nil]
      rw [decoded, if_neg (by simp)]
    | succ k =>
      simp only [List.replicate_succ, andThen_char true hc, andThen_pad]
      rw [decoded, if_pos (.inr (Nat.succ_pos k)), first_eq hb, second_eq hc]
      simp only [write, octets, List.append_assoc, List.cons_append, List.nil_append]
  | case5 a b c d vs ih =>
    have h4 : 4 ∣ (a :: b :: c :: d :: vs).length ↔ 4 ∣ vs.length := by
      simp only [List.length_cons]
      omega
    have ha := hvs a (by simp)
    have hb := hvs b (by simp)
    have hc := hvs c (by simp)
    have hd := hvs d (by simp)
    have hl : (a :: b :: c :: d :: vs).length = vs.length + 4 := rfl
    obtain ⟨fuel, rfl⟩ : ∃ f, fuel = f + 1 := ⟨fuel - 1, by omega⟩
    simp only [List.map_cons, List.cons_append]
    rw [decodeLoop_group ha hb hc hd, ih (fun v hv => hvs v (by simp [hv])) _ _ (by omega),
      decoded, decoded]
    simp only [h4, octets, List.append_assoc, List.cons_append, List.nil_append]

theorem decode_eq {vs : List Nat} (hvs : ∀ v ∈ vs, v < 64) (k : Nat) :
    decode (vs.map encodeChar ++ List.replicate k 61) = decoded vs k [] := by
  refine decodeLoop_eq hvs k _ [] ?_
  simp

/-- `decode` gives back what `encode` was given. -/
theorem decode_encode (d : List UInt8) : decode (encode d) = .ok d := by
  rw [encode_eq, text, pads, decode_eq fun v hv => sextets_lt hv, decoded, if_pos, octets_sextets,
    List.nil_append]
  rw [sextets_length]
  omega

/-! ## The decoder in C++ -/

theorem triple_eq {a b c d : Nat} (ha : a < 64) (hb : b < 64) (hc : c < 64) (hd : d < 64) :
    triple ([a, b, c, d].map fun v => find (encodeChar v)) = octets [a, b, c, d] := by
  have h : ∀ v, v < 64 → (find (encodeChar v)).toNat = v := fun v hv => by
    rw [find_char v hv, UInt8.toNat_ofNat_of_lt' (show v < 256 by omega)]
  have hb' : (b &&& 0x30) >>> 4 = b / 16 % 4 := mask_shift b 4 2
  have hc' : (c &&& 0x3c) >>> 2 = c / 4 % 16 := mask_shift c 2 4
  simp only [triple, List.map_cons, List.map_nil, List.getD_cons_zero, List.getD_cons_succ, h a ha,
    h b hb, h c hc, h d hd]
  rw [hb', hc', and_15, and_3, Nat.shiftLeft_eq, Nat.shiftLeft_eq, Nat.shiftLeft_eq,
    Nat.mod_eq_of_lt (show b / 16 < 4 by omega), Nat.mod_eq_of_lt (show c / 4 < 16 by omega)]
  rfl

/-- A group of four characters is decoded. -/
theorem decodeChar_group (a b c d w x y z : UInt8) (ret : List UInt8) :
    decodeChar (decodeChar (decodeChar (decodeChar ⟨0, [w, x, y, z], ret⟩ a) b) c) d =
      ⟨0, [a, b, c, d].map find, ret ++ triple ([a, b, c, d].map find)⟩ := rfl

/-- What one byte, and two bytes, depend on. -/
theorem triple_take_one (a b c d c' d' : UInt8) :
    (triple [a, b, c, d]).take 1 = (triple [a, b, c', d']).take 1 := rfl

theorem triple_take_two (a b c d d' : UInt8) :
    (triple [a, b, c, d]).take 2 = (triple [a, b, c, d']).take 2 := rfl

theorem decodeRest_one (a x y z : UInt8) (ret : List UInt8) :
    decodeRest ⟨1, [a, x, y, z], ret⟩ = ret ++ [] := rfl

theorem decodeRest_two (a b y z : UInt8) (ret : List UInt8) :
    decodeRest ⟨2, [a, b, y, z], ret⟩ = ret ++ (triple [find a, find b, y, z]).take 1 := rfl

theorem decodeRest_three (a b c z : UInt8) (ret : List UInt8) :
    decodeRest ⟨3, [a, b, c, z], ret⟩ = ret ++ (triple [find a, find b, find c, z]).take 2 := rfl

/-- The loop and what is behind it decode the numbers, from a state between two groups on. -/
theorem decodeRest_foldl {vs : List Nat} (hvs : ∀ v ∈ vs, v < 64) (w x y z : UInt8)
    (ret : List UInt8) :
    decodeRest ((vs.map encodeChar).foldl decodeChar ⟨0, [w, x, y, z], ret⟩) =
      ret ++ octets vs := by
  induction vs using octets.induct generalizing w x y z ret with
  | case1 => exact (List.append_nil ret).symm
  | case2 a => exact decodeRest_one (encodeChar a) x y z ret
  | case3 a b =>
    have h := triple_eq (hvs a (by simp)) (hvs b (by simp)) (show 0 < 64 by decide)
      (show 0 < 64 by decide)
    refine (decodeRest_two (encodeChar a) (encodeChar b) y z ret).trans ?_
    rw [triple_take_one _ _ _ _ (find (encodeChar 0)) (find (encodeChar 0))]
    simp only [List.map_cons, List.map_nil] at h
    rw [h]
    rfl
  | case4 a b c =>
    have h := triple_eq (hvs a (by simp)) (hvs b (by simp)) (hvs c (by simp))
      (show 0 < 64 by decide)
    refine (decodeRest_three (encodeChar a) (encodeChar b) (encodeChar c) z ret).trans ?_
    rw [triple_take_two _ _ _ _ (find (encodeChar 0))]
    simp only [List.map_cons, List.map_nil] at h
    rw [h]
    rfl
  | case5 a b c d vs ih =>
    have h := triple_eq (hvs a (by simp)) (hvs b (by simp)) (hvs c (by simp)) (hvs d (by simp))
    simp only [List.map_cons, List.map_nil] at h
    simp only [List.map_cons, List.foldl_cons, decodeChar_group, List.map_nil]
    rw [ih fun v hv => hvs v (by simp [hv]), h, List.append_assoc]
    rfl

theorem decodeRest_garbage {vs : List Nat} (hvs : ∀ v ∈ vs, v < 64) (g : Vector UInt8 4) :
    decodeRest ((vs.map encodeChar).foldl decodeChar ⟨0, g.toList, []⟩) = octets vs := by
  have hg := g.length_toList
  match g.toList, hg with
  | [w, x, y, z], _ => rw [decodeRest_foldl hvs, List.nil_append]

/-- A character of the alphabet is read, and the counter goes down. -/
theorem base64Loop_char {m : Int} (h0 : m ≠ 0) (hm : m ≠ -2 ^ 31) {v : Nat} (hv : v < 64)
    (rest : List UInt8) (s : Dec) :
    base64Loop m (encodeChar v :: rest) s =
      base64Loop (m - 1) rest (decodeChar s (encodeChar v)) := by
  rw [base64Loop, if_neg h0, if_neg hm, if_pos ⟨(char_ascii v hv).2, is_base64_char v hv⟩]

/-- Characters of the alphabet are read as long as the counter is not negative. -/
theorem base64Loop_chars {vs : List Nat} (hvs : ∀ v ∈ vs, v < 64) {m : Int}
    (hm : (vs.length : Int) ≤ m) (rest : List UInt8) (s : Dec) :
    base64Loop m (vs.map encodeChar ++ rest) s =
      base64Loop (m - vs.length) rest ((vs.map encodeChar).foldl decodeChar s) := by
  induction vs generalizing m s with
  | nil => simp
  | cons v vs ih =>
    rw [List.length_cons] at hm
    rw [List.map_cons, List.cons_append,
      base64Loop_char (by omega) (by omega) (hvs v List.mem_cons_self),
      ih (fun w hw => hvs w (List.mem_cons_of_mem _ hw)) (by omega), List.foldl_cons,
      List.length_cons]
    congr 1
    omega

theorem base64Loop_zero (rest : List UInt8) (s : Dec) : base64Loop 0 rest s = .ok s := by
  cases rest with
  | nil => rfl
  | cons c rest => rw [base64Loop, if_pos rfl]

/-- The loop ends at a `=` and at the end of the text. -/
theorem base64Loop_stop {m : Int} (hm : 0 ≤ m) (k : Nat) (s : Dec) :
    base64Loop m (List.replicate k 61) s = .ok s := by
  cases k with
  | zero => rw [List.replicate_zero, base64Loop, if_neg (by omega)]
  | succ k =>
    rw [List.replicate_succ, base64Loop]
    by_cases h : m = 0
    · rw [if_pos h]
    · rw [if_neg h, if_neg (by omega), if_neg fun h => h.1 rfl]

/-- A negative counter overflows if there are enough characters. -/
theorem base64Loop_neg {vs : List Nat} (hvs : ∀ v ∈ vs, v < 64) {m : Int} (h0 : m < 0)
    (hm : -2 ^ 31 ≤ m) (hvm : m + 2 ^ 31 ≤ vs.length) (k : Nat) (s : Dec) :
    base64Loop m (vs.map encodeChar ++ List.replicate k 61) s = .error .overflow := by
  induction vs generalizing m s with
  | nil =>
    have hm' : m = -2 ^ 31 := by
      rw [List.length_nil] at hvm
      omega
    cases k with
    | zero => rw [List.map_nil, List.replicate_zero, List.append_nil, base64Loop, if_pos hm']
    | succ k =>
      rw [List.map_nil, List.nil_append, List.replicate_succ, base64Loop, if_neg (by omega),
        if_pos hm']
  | cons v vs ih =>
    by_cases h : m = -2 ^ 31
    · rw [List.map_cons, List.cons_append, base64Loop, if_neg (by omega), if_pos h]
    · rw [List.length_cons] at hvm
      rw [List.map_cons, List.cons_append,
        base64Loop_char (by omega) h (hvs v List.mem_cons_self)]
      exact ih (fun w hw => hvs w (List.mem_cons_of_mem _ hw)) (by omega) (by omega) (by omega) _

theorem toInt_wraps {n : Nat} (h : 2 ^ 32 ≤ n) (h' : n < 2 ^ 32 + 2 ^ 31) :
    MachineInt.toInt n = (n : Int) - 2 ^ 32 := by
  have hn : n % 2 ^ 32 = n - 2 ^ 32 := by omega
  rw [MachineInt.toInt, hn, if_pos (by omega)]
  omega

/-- Of a text that an `int` counts, the decoder returns the bytes. -/
theorem base64_decode_eq {vs : List Nat} (hvs : ∀ v ∈ vs, v < 64) {k : Nat}
    (h : vs.length + k < 2 ^ 31) (g : Vector UInt8 4) :
    base64_decode g (vs.map encodeChar ++ List.replicate k 61) = .ok (octets vs) := by
  have hl : (vs.map encodeChar ++ List.replicate k 61).length = vs.length + k := by simp
  rw [base64_decode, hl, MachineInt.toInt_eq h, base64Loop_chars hvs (by omega),
    base64Loop_stop (by omega), ← decodeRest_garbage hvs g]
  rfl

theorem text_length (d : List UInt8) : (text d).length = 4 * ((d.length + 2) / 3) := by
  simp only [text, pads, List.length_append, List.length_map, List.length_replicate,
    sextets_length]
  omega

/-- From `2 ^ 31` characters on the counter overflows, or it counts from a smaller number. -/
theorem base64_decode_large {d : List UInt8} (hd : d.length < 2 ^ 32)
    (h : 2 ^ 31 ≤ 4 * ((d.length + 2) / 3)) (g : Vector UInt8 4) :
    base64_decode g (text d) = .error .overflow ∨
      ∃ r, base64_decode g (text d) = .ok r ∧ r.length < d.length := by
  have hvs : ∀ v ∈ sextets d, v < 64 := fun v hv => sextets_lt hv
  have hl := sextets_length d
  rw [base64_decode, text_length]
  by_cases hn : 4 * ((d.length + 2) / 3) < 2 ^ 32
  · left
    rw [MachineInt.toInt_neg h hn, text, pads,
      base64Loop_neg hvs (by omega) (by omega) (by omega)]
    rfl
  · right
    rw [toInt_wraps (by omega) (by omega)]
    -- as many characters as the counter has
    let n := 4 * ((d.length + 2) / 3) - 2 ^ 32
    have hn : ((4 * ((d.length + 2) / 3) : Nat) : Int) - 2 ^ 32 = (n : Int) := by omega
    have hs : text d = ((sextets d).take n).map encodeChar ++
        (((sextets d).drop n).map encodeChar ++ pads d.length) := by
      rw [← List.append_assoc, ← List.map_append, List.take_append_drop, text]
    have htake : ∀ v ∈ (sextets d).take n, v < 64 := fun v hv => hvs v (List.mem_of_mem_take hv)
    have hln : ((sextets d).take n).length = n := by
      rw [List.length_take]
      omega
    refine ⟨octets ((sextets d).take n), ?_, ?_⟩
    · rw [hn, hs, base64Loop_chars htake (by omega), hln, sub_self, base64Loop_zero,
        ← decodeRest_garbage htake g]
      rfl
    · rw [octets_length, hln]
      omega

theorem base64_decode_text {d : List UInt8} (h : 4 * ((d.length + 2) / 3) < 2 ^ 31)
    (g : Vector UInt8 4) : base64_decode g (text d) = .ok d := by
  have hl := text_length d
  rw [text, List.length_append, List.length_map, pads, List.length_replicate] at hl
  rw [text, pads, base64_decode_eq (fun v hv => sextets_lt hv) (by omega) g, octets_sextets]

/-- No text is decoded to more bytes than it was made of. -/
theorem base64_decode_length {d r : List UInt8} (hd : d.length < 2 ^ 32) {g : Vector UInt8 4}
    (h : base64_decode g (text d) = .ok r) : r.length ≤ d.length := by
  by_cases hs : 4 * ((d.length + 2) / 3) < 2 ^ 31
  · rw [base64_decode_text hs] at h
    cases h
    exact Nat.le_refl _
  · obtain he | ⟨r', hr, hlt⟩ := base64_decode_large hd (by omega) g
    · rw [h] at he
      cases he
    · rw [h] at hr
      cases hr
      omega

/-! ## Round trips -/

/-- `base64_decode` gives back what `base64_encode` was given exactly when an `int` counts the
characters of the text. -/
theorem base64_roundTrips_iff (g : Vector UInt8 4) (s : List UInt8) :
    base64_decode g (base64_encode s) = .ok s ↔ 4 * ((s.length + 2) / 3) < 2 ^ 31 := by
  have hlen : (s.take (s.length % 2 ^ 32)).length = s.length % 2 ^ 32 := by
    rw [List.length_take]
    omega
  rw [base64_encode_eq]
  constructor
  · intro h
    have hle := base64_decode_length (by omega) h
    have hs : s.length % 2 ^ 32 = s.length := by omega
    rw [hs, List.take_length] at h
    by_contra hn
    obtain he | ⟨r, hr, hlt⟩ := base64_decode_large (d := s) (by omega) (by omega) g
    · rw [h] at he
      cases he
    · rw [h] at hr
      cases hr
      omega
  · intro h
    have hs : s.length % 2 ^ 32 = s.length := by omega
    rw [hs, List.take_length]
    exact base64_decode_text h g

/-- The decoders agree on a text and the `=` behind it exactly when the text does not end within
a group, or a `=` is there.  The one in C++ answers with the bytes in any case, the one in Java
runs out of its array. -/
theorem decoders_agree_iff (g : Vector UInt8 4) {t : List UInt8}
    (ht : ∀ c ∈ t, is_base64 c = true) {k : Nat} (hlen : t.length + k < 2 ^ 31) :
    (decode (t ++ List.replicate k 61) = base64_decode g (t ++ List.replicate k 61) ↔
      4 ∣ t.length ∨ 0 < k) ∧
    ∃ d, base64_decode g (t ++ List.replicate k 61) = .ok d ∧ d.length = 3 * t.length / 4 ∧
      decode (t ++ [61]) = .ok d ∧
      decode (t ++ List.replicate k 61) =
        if 4 ∣ t.length ∨ 0 < k then .ok d else .error .arrayIndex := by
  obtain ⟨vs, hvs, rfl⟩ := values_of_text ht
  have hpad : decode (vs.map encodeChar ++ [61]) = .ok (octets vs) := by
    have hone := decode_eq hvs 1
    rwa [decoded, if_pos (Or.inr Nat.one_pos)] at hone
  rw [List.length_map] at hlen ⊢
  rw [decode_eq hvs, base64_decode_eq hvs hlen, decoded, List.nil_append]
  refine ⟨?_, octets vs, rfl, octets_length vs, hpad, rfl⟩
  by_cases h : 4 ∣ vs.length ∨ 0 < k
  · rw [if_pos h]
    exact iff_of_true rfl h
  · rw [if_neg h]
    exact iff_of_false (fun h => by cases h) h

/-- A text that ends within a group, without a `=`. -/
theorem decoders_agree_iff_cut :
    (decode ([81, 85, 73] ++ List.replicate 0 61) =
        base64_decode #v[0, 0, 0, 0] ([81, 85, 73] ++ List.replicate 0 61) ↔
      4 ∣ ([81, 85, 73] : List UInt8).length ∨ 0 < 0) ∧
    ∃ d, base64_decode #v[0, 0, 0, 0] ([81, 85, 73] ++ List.replicate 0 61) = .ok d ∧
      d.length = 3 * ([81, 85, 73] : List UInt8).length / 4 ∧
      decode ([81, 85, 73] ++ [61]) = .ok d ∧
      decode ([81, 85, 73] ++ List.replicate 0 61) =
        if 4 ∣ ([81, 85, 73] : List UInt8).length ∨ 0 < 0 then .ok d else .error .arrayIndex :=
  decoders_agree_iff #v[0, 0, 0, 0]
    (by
      intro c hc
      simp only [List.mem_cons, List.not_mem_nil, or_false] at hc
      rcases hc with rfl | rfl | rfl <;> rfl)
    (by decide)

end OCServer.Base64
