import OCServer.Crypto.Xxtea
import OCServer.Lib.CString
import OCServer.Lib.Incremental

/-!
# The block cipher of `xxtea.cpp` on bytes

`xxtea_encrypt` puts the bytes of a message into words, with the length as a
word of its own behind them, and `xxtea_decrypt` believes that word if it fits
to the number of words.  Where the machine is little endian the bytes are
copied, and elsewhere they are shifted in and out one by one.

`xxtea_decrypt_iff` says which byte strings are accepted, and `received_iff` says
when a message comes back: from any machine to any other, with any two keys that
are the same C string.  The length goes through a `uint32_t`, which is why a message
from 4 GiB on is lost.
-/

namespace OCServer.Xxtea

open LittleEndian MachineInt

/-- `BYTE_ORDER`. -/
inductive ByteOrder
  | little
  | big
  deriving DecidableEq, Repr

/-- The number of words for `len` bytes. -/
def wordsFor (len : Nat) : Nat := if len % 4 = 0 then len / 4 else len / 4 + 1

/-- `xxtea_to_uint_array`. -/
def xxtea_to_uint_array (order : ByteOrder) (data : List UInt8) (inc_len : Bool) : List UInt32 :=
  let last := if inc_len then [UInt32.ofNat data.length] else []
  match order with
  | .little => words data ++ last
  | .big => fillFrom 0 data (List.replicate (wordsFor data.length) 0 ++ last)

/-- The first `n` bytes of the words. -/
def copyOut (order : ByteOrder) (data : List UInt32) (n : Nat) : List UInt8 :=
  match order with
  | .little => (bytes data).take n
  | .big => (List.range n).map (spillByte data)

/-- `xxtea_to_ubyte_array`.  The bounds of the length are `size_t` values, so that `n - 3`
wraps when there is no word but the length. -/
def xxtea_to_ubyte_array (order : ByteOrder) (data : List UInt32) (inc_len : Bool) :
    Option (List UInt8) :=
  let n := data.length * 4
  if inc_len then
    let m := (word data (data.length - 1)).toNat
    let n := n - 4
    if m < szSub n 3 ∨ m > n then none else some (copyOut order data m)
  else some (copyOut order data n)

/-- `FIXED_KEY`: the bytes behind the first zero byte are zero. -/
def fixedKey (key : Vector UInt8 16) : List UInt8 :=
  let i := key.toList.findIdx (· = 0)
  key.toList.mapIdx fun j b => if i < j then 0 else b

/-- `xxtea_encrypt` on a machine with this byte order. -/
def xxtea_encrypt (order : ByteOrder) (data : List UInt8) (key : Vector UInt8 16) :
    Except Undefined (Option (List UInt8)) :=
  if data.length = 0 then .ok none
  else do
    let data_array := xxtea_to_uint_array order data true
    let key_array := xxtea_to_uint_array order (fixedKey key) false
    let out ← xxtea_uint_encrypt data_array key_array
    .ok (xxtea_to_ubyte_array order out false)

/-- `xxtea_decrypt`. -/
def xxtea_decrypt (order : ByteOrder) (data : List UInt8) (key : Vector UInt8 16) :
    Except Undefined (Option (List UInt8)) :=
  if data.length = 0 then .ok none
  else do
    let data_array := xxtea_to_uint_array order data false
    let key_array := xxtea_to_uint_array order (fixedKey key) false
    let out ← xxtea_uint_decrypt data_array key_array
    .ok (xxtea_to_ubyte_array order out true)

/-! ## The byte order does not matter -/

theorem wordsFor_eq (len : Nat) : wordsFor len = (len + 3) / 4 := by
  unfold wordsFor
  split_ifs <;> omega

theorem xxtea_to_uint_array_eq (order : ByteOrder) (data : List UInt8) (inc_len : Bool) :
    xxtea_to_uint_array order data inc_len =
      words data ++ if inc_len then [UInt32.ofNat data.length] else [] := by
  cases order with
  | little => rfl
  | big =>
    rw [xxtea_to_uint_array, wordsFor_eq]
    exact fill_eq data _

theorem copyOut_eq (order : ByteOrder) {data : List UInt32} {n : Nat} (hn : n ≤ 4 * data.length) :
    copyOut order data n = (bytes data).take n := by
  cases order with
  | little => rfl
  | big => exact spill_eq data n hn

/-! ## The key -/

/-- The key is its C string, filled up with zeros. -/
theorem fixedKey_eq (key : Vector UInt8 16) :
    fixedKey key = CString.ofBuffer key.toList ++
      List.replicate (16 - (CString.ofBuffer key.toList).length) 0 := by
  have hgen : ∀ (l : List UInt8),
      (l.mapIdx fun j b => if l.findIdx (· = 0) < j then 0 else b) =
        CString.ofBuffer l ++ List.replicate (l.length - (CString.ofBuffer l).length) 0 := by
    intro l
    induction l with
    | nil => rfl
    | cons b l ih =>
      by_cases hb : b = 0
      · subst hb
        have hzero : (l.mapIdx fun j b => if 0 < j + 1 then (0 : UInt8) else b) =
            List.replicate l.length 0 := by
          apply List.ext_getElem?
          intro i
          simp [List.getElem?_replicate]
          grind
        simp [CString.ofBuffer, List.findIdx_cons, List.mapIdx_cons, List.replicate_succ]
        simpa using hzero
      · have hof : CString.ofBuffer (b :: l) = b :: CString.ofBuffer l := by
          simp [CString.ofBuffer, hb]
        rw [hof, List.length_cons, List.length_cons, Nat.add_sub_add_right, List.cons_append, ← ih]
        simp [List.findIdx_cons, List.mapIdx_cons, hb]
  have h := hgen key.toList
  rwa [Vector.length_toList] at h

/-- Keys that are the same C string are the same key. -/
theorem fixedKey_congr {key key' : Vector UInt8 16}
    (h : CString.ofBuffer key.toList = CString.ofBuffer key'.toList) :
    fixedKey key = fixedKey key' := by
  rw [fixedKey_eq, fixedKey_eq, h]

/-! ## What is accepted -/

/-- The words of a message, with its length behind them. -/
def sealWords (d pad : List UInt8) : List UInt32 := words (d ++ pad) ++ [UInt32.ofNat d.length]

/-- The words that the key is. -/
def keyWords (key : Vector UInt8 16) : List UInt32 := words (fixedKey key)

theorem xxtea_encrypt_eq (order : ByteOrder) (d : List UInt8) (key : Vector UInt8 16) :
    xxtea_encrypt order d key =
      if d.length = 0 then .ok none
      else (xxtea_uint_encrypt (sealWords d (padding d.length)) (keyWords key)).map fun out =>
        some (bytes out) := by
  have hseal : words d ++ [UInt32.ofNat d.length] = sealWords d (padding d.length) := by
    rw [sealWords, words_append_padding]
  have hout : ∀ out, xxtea_to_ubyte_array order out false = some (bytes out) := by
    intro out
    have hlen : out.length * 4 = 4 * out.length := Nat.mul_comm ..
    show some (copyOut order out (out.length * 4)) = _
    rw [hlen, copyOut_eq order (Nat.le_refl _), List.take_of_length_le (by rw [bytes_length])]
  unfold xxtea_encrypt
  simp only [xxtea_to_uint_array_eq, hout, if_true, Bool.false_eq_true, if_false, List.append_nil,
    hseal]
  rfl

/-- The first message that the words are, if their last one is a length that fits. -/
theorem xxtea_to_ubyte_array_iff (order : ByteOrder) {out : List UInt32} (hne : out ≠ [])
    (hlt : out.length * 4 < 2 ^ 64) (d : List UInt8) :
    xxtea_to_ubyte_array order out true = some d ↔
      d ≠ [] ∧ d.length < 2 ^ 32 ∧
        ∃ pad : List UInt8, pad.length < 4 ∧ (d.length + pad.length) % 4 = 0 ∧
          out = sealWords d pad := by
  obtain ⟨init, last, rfl⟩ : ∃ init last, out = init ++ [last] :=
    ⟨_, _, (List.dropLast_append_getLast hne).symm⟩
  have hword : word (init ++ [last]) ((init ++ [last]).length - 1) = last := by
    simp [word, List.getD_eq_getElem?_getD]
  have hlen : (init ++ [last]).length * 4 - 4 = 4 * init.length := by
    rw [List.length_append, List.length_singleton]
    omega
  rw [List.length_append, List.length_singleton] at hlt
  have hlast := last.toNat_lt
  unfold xxtea_to_ubyte_array
  simp only [if_true, hword, hlen]
  constructor
  · intro h
    split_ifs at h with hbad
    obtain ⟨hlo, hhi⟩ := not_or.mp hbad
    -- `n - 3` wraps if there is no word but the length
    have hpos : 0 < init.length := by
      by_contra h0
      have h0 : init.length = 0 := by omega
      rw [h0] at hlo
      have hwrap : szSub (4 * 0) 3 = 2 ^ 64 - 3 := by decide
      omega
    rw [szSub_eq (by omega) (by omega)] at hlo
    have hd : d = (bytes init).take last.toNat := by
      rw [← Option.some.inj h, copyOut_eq order (by simp; omega), bytes_append,
        List.take_append_of_le_length (by simp; omega)]
    have hdlen : d.length = last.toNat := by
      rw [hd, List.length_take, bytes_length]
      omega
    refine ⟨List.ne_nil_of_length_pos (by omega), by omega, (bytes init).drop last.toNat,
      ?_, ?_, ?_⟩
    · rw [List.length_drop, bytes_length]
      omega
    · rw [List.length_drop, bytes_length, hdlen]
      omega
    · rw [sealWords, hdlen, hd, List.take_append_drop, words_bytes, UInt32.ofNat_toNat]
  · rintro ⟨hd, hd32, pad, hpad, hmod, hout⟩
    obtain ⟨rfl, hl⟩ := List.append_inj' hout rfl
    have hdlen : last.toNat = d.length := by
      rw [List.cons.inj hl |>.1, UInt32.toNat_ofNat_of_lt' (by simp only [UInt32.size]; omega)]
    have hdpos := List.length_pos_iff.mpr hd
    have hwords : 4 * (words (d ++ pad)).length = d.length + pad.length := by
      rw [words_length, List.length_append]
      omega
    have hpadding : padding (d ++ pad).length = [] := by
      rw [padding, List.length_append, hmod]
      rfl
    rw [hdlen, hwords, szSub_eq (by omega) (by omega), if_neg (by omega),
      copyOut_eq order (by simp; omega), bytes_append, bytes_words, hpadding, List.append_nil,
      List.append_assoc, List.take_left]

theorem xxtea_decrypt_eq (order : ByteOrder) (c : List UInt8) (key : Vector UInt8 16) :
    xxtea_decrypt order c key =
      if c.length = 0 then .ok none
      else (xxtea_uint_decrypt (words c) (keyWords key)).map fun out =>
        xxtea_to_ubyte_array order out true := by
  unfold xxtea_decrypt
  simp only [xxtea_to_uint_array_eq, Bool.false_eq_true, if_false, List.append_nil]
  rfl

/-- The decrypted words are words of an array. -/
theorem decrypted_words {c : List UInt8} {key out : List UInt32} (hc : c.length < 2 ^ 62)
    (h : xxtea_uint_decrypt (words c) key = .ok out) : out ≠ [] ∧ out.length * 4 < 2 ^ 64 := by
  obtain ⟨hne, hlen⟩ := xxtea_uint_decrypt_length h
  rw [words_length] at hne hlen
  exact ⟨List.ne_nil_of_length_pos (by omega), by omega⟩

theorem xxtea_decrypt_of_seal (order : ByteOrder) {key : Vector UInt8 16} {c d pad : List UInt8}
    (hc : c.length < 2 ^ 62) (hd : d ≠ []) (hd32 : d.length < 2 ^ 32) (hpad : pad.length < 4)
    (hmod : (d.length + pad.length) % 4 = 0)
    (henc : xxtea_uint_encrypt (sealWords d pad) (keyWords key) = .ok (words c)) :
    xxtea_decrypt order c key = .ok (some d) := by
  have hout := uint_decrypt_of_encrypt henc
  obtain ⟨hne, hlt⟩ := decrypted_words hc hout
  have hc0 : c.length ≠ 0 := by
    intro h0
    have hlen := (xxtea_uint_decrypt_length hout).1
    rw [words_length, h0] at hlen
    exact hlen rfl
  rw [xxtea_decrypt_eq, if_neg hc0, hout]
  exact congrArg Except.ok
    ((xxtea_to_ubyte_array_iff order hne hlt d).mpr ⟨hd, hd32, pad, hpad, hmod, rfl⟩)

/-- `xxtea_decrypt` accepts what encrypts a message that is followed by up to three bytes of
any value and by its length, and nothing else. -/
theorem xxtea_decrypt_iff (order : ByteOrder) (key : Vector UInt8 16) (c d : List UInt8)
    (hc : c.length < 2 ^ 62) :
    xxtea_decrypt order c key = .ok (some d) ↔
      d ≠ [] ∧ d.length < 2 ^ 32 ∧
        ∃ pad : List UInt8, pad.length < 4 ∧ (d.length + pad.length) % 4 = 0 ∧
          xxtea_uint_encrypt (sealWords d pad) (keyWords key) = .ok (words c) := by
  constructor
  · intro h
    rw [xxtea_decrypt_eq] at h
    split_ifs at h
    · cases h
    · cases hout : xxtea_uint_decrypt (words c) (keyWords key) with
      | error u =>
        rw [hout] at h
        cases h
      | ok out =>
        rw [hout] at h
        obtain ⟨hne, hlt⟩ := decrypted_words hc hout
        obtain ⟨hd, hd32, pad, hpad, hmod, rfl⟩ :=
          (xxtea_to_ubyte_array_iff order hne hlt d).mp (Except.ok.inj h)
        exact ⟨hd, hd32, pad, hpad, hmod, uint_encrypt_of_decrypt hout⟩
  · rintro ⟨hd, hd32, pad, hpad, hmod, henc⟩
    exact xxtea_decrypt_of_seal order hc hd hd32 hpad hmod henc

/-- Two words that encrypt the message `hi`. -/
theorem xxtea_decrypt_iff_hi :
    xxtea_decrypt .little [82, 23, 28, 232, 128, 36, 174, 188] (Vector.replicate 16 107) =
      .ok (some [104, 105]) :=
  (xxtea_decrypt_iff .little (Vector.replicate 16 107) [82, 23, 28, 232, 128, 36, 174, 188]
    [104, 105] (by decide)).mpr
    ⟨by decide, by decide, [0, 0], by decide, by decide, by decide +kernel⟩

/-! ## There and back -/

/-- What comes out at a machine that decrypts what another one has encrypted. -/
def received (order order' : ByteOrder) (key key' : Vector UInt8 16) (d : List UInt8) :
    Except Undefined (Option (List UInt8)) :=
  xxtea_encrypt order d key >>= fun
    | none => .ok none
    | some c => xxtea_decrypt order' c key'

/-- No longer message than the length word can tell comes out. -/
theorem xxtea_decrypt_length {order : ByteOrder} {c d : List UInt8} {key : Vector UInt8 16}
    (h : xxtea_decrypt order c key = .ok (some d)) : d.length < 2 ^ 32 := by
  unfold xxtea_decrypt at h
  split_ifs at h
  · cases h
  · obtain ⟨out, _, hout⟩ := Incremental.bind_eq_ok h
    have hout := Except.ok.inj hout
    unfold xxtea_to_ubyte_array at hout
    simp only [if_true] at hout
    split_ifs at hout with hbad
    have hm := (word out (out.length - 1)).toNat_lt
    rw [← Option.some.inj hout, copyOut_eq order (by omega), List.length_take]
    omega

/-- A message comes back from any machine to any other, under any two keys that are the same
C string, if and only if it is not empty and its length fits into 32 bits. -/
theorem received_iff (order order' : ByteOrder) {key key' : Vector UInt8 16}
    (hkey : CString.ofBuffer key.toList = CString.ofBuffer key'.toList) (d : List UInt8) :
    received order order' key key' d = .ok (some d) ↔ 0 < d.length ∧ d.length < 2 ^ 32 := by
  have hwords : keyWords key' = keyWords key := by
    rw [keyWords, keyWords, fixedKey_congr hkey]
  unfold received
  constructor
  · intro h
    obtain ⟨r, henc, hdec⟩ := Incremental.bind_eq_ok h
    cases r with
    | none => cases hdec
    | some c =>
      refine ⟨?_, xxtea_decrypt_length hdec⟩
      rw [xxtea_encrypt_eq] at henc
      split_ifs at henc with h0
      · cases henc
      · omega
  · rintro ⟨hpos, hlt⟩
    have hseal : (sealWords d (padding d.length)).length % 2 ^ 32 ≠ 0 := by
      rw [sealWords, List.length_append, words_append_padding, words_length, List.length_singleton]
      omega
    obtain ⟨out, hrun⟩ : ∃ out,
        xxtea_uint_encrypt (sealWords d (padding d.length)) (keyWords key) = .ok out :=
      ⟨_, xxtea_uint_encrypt_eq (keyWords key) hseal⟩
    rw [xxtea_encrypt_eq, if_neg (by omega), hrun]
    have hlen := (xxtea_uint_encrypt_length hrun).2
    rw [sealWords, List.length_append, words_append_padding, words_length,
      List.length_singleton] at hlen
    refine xxtea_decrypt_of_seal order' ?_ (List.ne_nil_of_length_pos hpos) hlt
      (?_ : (padding d.length).length < 4) ?_ ?_
    · rw [bytes_length, hlen]
      omega
    · rw [padding_length]
      omega
    · rw [padding_length]
      omega
    · rw [words_bytes, hwords, hrun]

/-- Two keys that differ only behind their first zero byte. -/
theorem received_iff_short_key :
    received .big .little #v[107, 0, 1, 1, 1, 1, 1, 1, 1, 1, 1, 1, 1, 1, 1, 1]
      #v[107, 0, 2, 2, 2, 2, 2, 2, 2, 2, 2, 2, 2, 2, 2, 2] [104, 105] = .ok (some [104, 105]) :=
  (received_iff .big .little (by decide) [104, 105]).mpr (by decide)

end OCServer.Xxtea
