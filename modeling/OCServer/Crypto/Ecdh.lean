import Mathlib.Algebra.Field.ZMod
import Mathlib.Algebra.Module.Basic
import OCServer.Util.Hex

/-!
# Keys from elliptic curves

`crypt_util` makes key pairs and shared keys with OpenSSL.  The keys are strings of
hexadecimal digits, which go through the codec of `util` and through arrays of 1024
characters.

OpenSSL is a parameter, and `Curve` is what it is relied on for.  `keys_agree` says that two
parties get the same shared key, by either overload of `Gen_Shared_Key`, and what becomes of
the strings that are passed by reference; `leaves_of_yields` is about the calls that
fail, too.  No length is checked before a string is decoded into an array: `peer_returns_iff`
says for which strings of the other party the array is not overrun.
-/

namespace OCServer.Ecdh

open CharArray Incremental Loop MachineInt Util

/-- The functions of OpenSSL, on the curve secp192k1.  A `BIGNUM` is an integer. -/
structure Ec (P : Type) where
  EC_KEY_new_by_curve_name : Bool
  BN_new : Bool
  EC_POINT_point2oct : P → List UInt8
  EC_POINT_oct2point : List UInt8 → Option P
  /-- Without scalars and points to add. -/
  EC_POINT_mul : Option P
  BN_bn2mpi : Int → List UInt8
  BN_mpi2bn : List UInt8 → Int
  EC_KEY_set_private_key : Int → Bool
  EC_KEY_set_public_key : P → Bool
  /-- At most 512 bytes. -/
  ECDH_compute_key : Int → P → List UInt8
  MD5 : List UInt8 → Database.Digest

/-- The result of `Gen_Shared_Key`, and the strings that it was given by reference. -/
structure Keys where
  ret : Int
  publickey : List UInt8
  privatekey : List UInt8
  sharedkey : List UInt8
  deriving DecidableEq, Repr

/-- `Buffer2String` of bytes in an array of 1024. -/
def printHex (bytes : List UInt8) : Except Fault (List UInt8) := do
  let buff ← storeAll (List.replicate 1024 0) 0 bytes
  let (_, dest) ← Buffer2StringPtr buff bytes.length
  pure dest

/-- `String2Buffer` of the characters of a string, into an array of 1024. -/
def readHex (s : List UInt8) : Except Fault (List UInt8) := do
  let (n, buff) ← String2Buffer (s ++ [0]) (toInt s.length) (List.replicate 1024 0)
  pure (buff.take n.toNat)

section

variable {P : Type} (ec : Ec P)

def getECPubkeyPoint (pubkey : P) : Except Fault (List UInt8) :=
  printHex (ec.EC_POINT_point2oct pubkey)

def getECPrivkeyBN (privkey : Int) : Except Fault (List UInt8) := printHex (ec.BN_bn2mpi privkey)

/-- `Gen_ECDH_KeyPair`.  `generated` is what `EC_KEY_generate_key` makes, if it succeeds. -/
def Gen_ECDH_KeyPair (generated : Option (Int × P)) (publickey privatekey : List UInt8) :
    Except Fault (Int × List UInt8 × List UInt8) :=
  if !ec.EC_KEY_new_by_curve_name then .ok (-0x7, publickey, privatekey)
  else
    match generated with
    | none => .ok (-0x55, publickey, privatekey)
    | some (prikey, point) => do
      let publickey ← printHex (ec.EC_POINT_point2oct point)
      let privatekey ← printHex (ec.BN_bn2mpi prikey)
      pure (0, publickey, privatekey)

/-- The point for the own key, or the error. -/
def ownPoint (publickey : List UInt8) : Except Fault (Except Int P) :=
  if 0 < publickey.length then do
    let buff ← readHex publickey
    pure (match ec.EC_POINT_oct2point buff with
      | none => .error (-0x11)
      | some point => .ok point)
  else
    .ok (match ec.EC_POINT_mul with
      | none => .error (-0x2)
      | some point => .ok point)

/-- The end of both overloads, from `ECDH_compute_key` on: what is returned and the string. -/
def shared (prikey : Int) (point2 : P) (sharedkey : List UInt8) :
    Except Fault (Int × List UInt8) := do
  let key := ec.ECDH_compute_key prikey point2
  if key.length = 0 then pure (-0x9, sharedkey)
  else
    let _ ← printHex key
    let (_, md5hex) ← Buffer2StringPtr (ec.MD5 key).bytes 16
    pure (0, md5hex)

/-- `Gen_Shared_Key` for strings. -/
def Gen_Shared_Key (peerpub publickey privatekey sharedkey : List UInt8) : Except Fault Keys :=
  let fail := fun r : Int => Except.ok (Keys.mk r publickey privatekey sharedkey)
  if peerpub.length = 0 then fail (-0x10)
  else if privatekey.length = 0 then fail (-0x55)
  else if !ec.EC_KEY_new_by_curve_name then fail (-0x7)
  else do
    -- without a number to write to, `BN_mpi2bn` allocates one itself
    let buff ← readHex privatekey
    let bignum := ec.BN_mpi2bn buff
    if !ec.BN_new then fail (-0x5)
    else if !ec.EC_KEY_set_private_key bignum then fail (-0x1)
    else do
      match ← ownPoint ec publickey with
      | .error r => fail r
      | .ok point =>
        if !ec.EC_KEY_set_public_key point then fail (-0x3)
        else do
          let publickey ← printHex (ec.EC_POINT_point2oct point)
          let privatekey ← printHex (ec.BN_bn2mpi bignum)
          let svrpub ← readHex peerpub
          match ec.EC_POINT_oct2point svrpub with
          | none => pure ⟨-0x4, publickey, privatekey, sharedkey⟩
          | some point2 =>
            let (r, sharedkey) ← shared ec bignum point2 sharedkey
            pure ⟨r, publickey, privatekey, sharedkey⟩

/-- `Gen_Shared_Key` for keys: the public points of two of them, and the private number of the
third. -/
def Gen_Shared_Key_ec (s1 publickey : P) (privatekey : Int) (sharedkey : List UInt8) :
    Except Fault (Int × List UInt8) :=
  if !ec.EC_KEY_new_by_curve_name then .error .outOfBounds
  else if !ec.EC_KEY_set_public_key publickey then .ok (-0x1, sharedkey)
  else if !ec.EC_KEY_set_private_key privatekey then .ok (-0x2, sharedkey)
  else
    match ec.EC_POINT_oct2point (ec.EC_POINT_point2oct s1) with
    | none => .ok (-0x4, sharedkey)
    | some point2 => shared ec privatekey point2 sharedkey

end

/-! ## Hexadecimal strings in arrays -/

theorem printHex_eq {bytes : List UInt8} (h : bytes.length ≤ 1024) :
    printHex bytes = .ok (hex bytes) := by
  have hroom : bytes.length ≤ (List.replicate 1024 (0 : UInt8)).length := by
    rwa [List.length_replicate]
  have hstore := storeAll_eq (p := []) hroom
  rw [List.nil_append, List.nil_append, List.length_nil] at hstore
  unfold printHex
  rw [hstore]
  show (Buffer2StringPtr (bytes ++ _) bytes.length >>= _) = _
  rw [Buffer2StringPtr_append _ (by omega)]
  rfl

/-- The decoder returns if all the bytes have room. -/
theorem decodeLoop_returns_iff (src : List UInt8) (n i : Nat) (dest : List UInt8) :
    (∃ out, decodeLoop src n i dest = .ok out) ↔
      n = 0 ∨ (2 * (i + n) ≤ src.length ∧ i + n ≤ dest.length) := by
  induction n generalizing i dest with
  | zero => simp [decodeLoop]
  | succ n ih =>
    unfold decodeLoop
    by_cases hroom : 2 * i + 1 < src.length ∧ i < dest.length
    · have hload0 : load src (2 * i) = .ok src[2 * i] := by
        rw [load, List.getElem?_eq_getElem (by omega)]
      have hload1 : load src (2 * i + 1) = .ok src[2 * i + 1] := by
        rw [load, List.getElem?_eq_getElem hroom.1]
      simp only [hload0, hload1, ok_bind, store, if_pos hroom.2, ih, List.length_set]
      omega
    · refine iff_of_false ?_ (by omega)
      rintro ⟨out, h⟩
      obtain ⟨tmp0, -, h⟩ := bind_eq_ok h
      obtain ⟨tmp1, hload1, h⟩ := bind_eq_ok h
      obtain ⟨dest', hstore, -⟩ := bind_eq_ok h
      refine hroom ⟨?_, ?_⟩
      · by_contra hsrc
        rw [load, List.getElem?_eq_none (by omega)] at hload1
        cases hload1
      · by_contra hdest
        rw [store, if_neg hdest] at hstore
        cases hstore

/-- What an array of 1024 has room for. -/
def Fits (s : List UInt8) : Prop := toInt s.length % 2 = 0 → toInt s.length ≤ 2048

theorem toInt_le (n : Nat) : toInt n ≤ n := by
  unfold toInt
  split_ifs <;> omega

theorem readHex_returns_iff (s : List UInt8) : (∃ bytes, readHex s = .ok bytes) ↔ Fits s := by
  have hle := toInt_le s.length
  have hlen : (s ++ [0]).length = s.length + 1 := by simp
  have hroom : (List.replicate 1024 (0 : UInt8)).length = 1024 := List.length_replicate
  unfold readHex String2Buffer Fits
  by_cases hodd : toInt s.length % 2 ≠ 0
  · rw [if_pos hodd]
    exact iff_of_true ⟨_, rfl⟩ fun heven => absurd heven hodd
  · have hiff := decodeLoop_returns_iff (s ++ [0]) (toInt s.length / 2).toNat 0
      (List.replicate 1024 0)
    rw [if_neg hodd]
    have hloop : (∃ bytes, ((do
        let dest ← decodeLoop (s ++ [0]) (toInt s.length / 2).toNat 0 (List.replicate 1024 0)
        pure (((toInt s.length / 2).toNat : Int), dest)) >>= fun r =>
          pure (r.2.take r.1.toNat)) = (.ok bytes : Except Fault (List UInt8))) ↔
        ∃ out, decodeLoop (s ++ [0]) (toInt s.length / 2).toNat 0 (List.replicate 1024 0) =
          .ok out := by
      cases decodeLoop (s ++ [0]) (toInt s.length / 2).toNat 0 (List.replicate 1024 0) with
      | ok out => exact iff_of_true ⟨_, rfl⟩ ⟨_, rfl⟩
      | error e =>
        refine iff_of_false ?_ ?_
        · rintro ⟨_, h⟩
          cases h
        · rintro ⟨_, h⟩
          cases h
    refine hloop.trans (hiff.trans ?_)
    omega

theorem readHex_hex {bytes : List UInt8} (h : bytes.length ≤ 1024) :
    readHex (hex bytes) = .ok bytes := by
  have hroom : bytes.length ≤ (List.replicate 1024 (0 : UInt8)).length := by
    rwa [List.length_replicate]
  unfold readHex
  rw [hex_length, toInt_eq (by omega), String2Buffer_eq bytes [0] hroom]
  show Except.ok ((bytes ++ _).take (bytes.length : Int).toNat) = _
  rw [Int.toNat_natCast, List.take_left]

theorem md5Hex_eq (d : Database.Digest) :
    Buffer2StringPtr d.bytes 16 = .ok ((32 : Nat), hex d.bytes) := by
  have hlen := d.length_eq
  have h := Buffer2StringPtr_eq (b := d.bytes) (by omega)
  rwa [hlen] at h

theorem hex_pos {bytes : List UInt8} (h : 0 < bytes.length) : (hex bytes).length ≠ 0 := by
  rw [hex_length]
  omega

/-! ## A small curve

secp192k1, cut down to its base point and the point at infinity. -/

def baseX : List UInt8 :=
  [219, 79, 241, 14, 192, 87, 233, 174, 38, 176, 125, 2, 128, 183, 244, 52, 29, 165, 209, 177,
    234, 224, 108, 125]

def baseEc : Ec (ZMod 2) where
  EC_KEY_new_by_curve_name := true
  BN_new := true
  EC_POINT_point2oct := fun Q => if Q = 0 then [0] else 3 :: baseX
  EC_POINT_oct2point := fun oct =>
    if oct = [0] then some 0 else if oct = 3 :: baseX then some 1 else none
  EC_POINT_mul := some 0
  BN_bn2mpi := fun k => if k = 1 then [0, 0, 0, 1, 1] else [0, 0, 0, 0]
  BN_mpi2bn := fun mpi => if mpi = [0, 0, 0, 1, 1] then 1 else 0
  EC_KEY_set_private_key := fun k => k = 1
  EC_KEY_set_public_key := fun _ => true
  ECDH_compute_key := fun k Q => if k • Q = 0 then [] else baseX
  MD5 := fun _ => ⟨[234, 192, 242, 135, 26, 101, 211, 228, 113, 40, 48, 248, 158, 87, 240, 42], rfl⟩

/-! ## Agreement -/

/-- The end of both overloads, for an arbitrary point. -/
theorem shared_cases {P : Type} {ec : Ec P}
    (hlen : ∀ k Q, (ec.ECDH_compute_key k Q).length ≤ 512) (k : Int) (Q : P)
    (sharedkey : List UInt8) :
    shared ec k Q sharedkey =
      if (ec.ECDH_compute_key k Q).length = 0 then .ok (-0x9, sharedkey)
      else .ok (0, hex (ec.MD5 (ec.ECDH_compute_key k Q)).bytes) := by
  have hle := hlen k Q
  unfold shared
  simp only
  split_ifs with hzero
  · rfl
  · rw [printHex_eq (by omega)]
    show (Buffer2StringPtr _ 16 >>= _) = _
    rw [md5Hex_eq]
    rfl

/-- What is relied on: the points are a group, of which `G` is the base point and `n` bounds the
private keys, and `x` is the coordinate that a shared key is made of. -/
structure Curve {P : Type} [AddCommGroup P] (ec : Ec P) (G : P) (n : Int) (x : P → List UInt8) :
    Prop where
  new : ec.EC_KEY_new_by_curve_name = true
  bn_new : ec.BN_new = true
  oct : ∀ Q, ec.EC_POINT_oct2point (ec.EC_POINT_point2oct Q) = some Q
  oct_length : ∀ Q, 0 < (ec.EC_POINT_point2oct Q).length ∧ (ec.EC_POINT_point2oct Q).length ≤ 67
  mul : ec.EC_POINT_mul = some 0
  mpi : ∀ k, 0 < k → k < n → ec.BN_mpi2bn (ec.BN_bn2mpi k) = k ∧
    0 < (ec.BN_bn2mpi k).length ∧ (ec.BN_bn2mpi k).length ≤ 29
  set_private : ∀ k, 0 < k → k < n → ec.EC_KEY_set_private_key k = true
  set_public : ∀ Q, ec.EC_KEY_set_public_key Q = true
  compute : ∀ k Q, k • Q ≠ 0 → ec.ECDH_compute_key k Q = x (k • Q)
  compute_length : ∀ k Q, (ec.ECDH_compute_key k Q).length ≤ 512
  x_pos : ∀ Q, Q ≠ 0 → 0 < (x Q).length

theorem baseEc_curve : Curve baseEc (1 : ZMod 2) 2 (fun _ => baseX) where
  new := rfl
  bn_new := rfl
  oct := by decide
  oct_length := by decide
  mul := rfl
  mpi := fun k hk hk' => by
    obtain rfl : k = 1 := by omega
    decide
  set_private := fun k hk hk' => by
    obtain rfl : k = 1 := by omega
    rfl
  set_public := fun _ => rfl
  compute := fun k Q h => if_neg h
  compute_length := fun k Q => by
    show (if k • Q = 0 then [] else baseX).length ≤ 512
    split_ifs <;> decide
  x_pos := fun _ _ => by decide

section

variable {P : Type} [AddCommGroup P] {ec : Ec P} {G : P} {n : Int} {x : P → List UInt8}

/-- The shared key of two parties. -/
def agreed (ec : Ec P) (G : P) (x : P → List UInt8) (a b : Int) : List UInt8 :=
  hex (ec.MD5 (x ((a * b) • G))).bytes

theorem agreed_comm (a b : Int) : agreed ec G x a b = agreed ec G x b a := by
  rw [agreed, agreed, mul_comm]

theorem shared_eq (hc : Curve ec G n x) {a b : Int} (hab : (a * b) • G ≠ 0)
    (sharedkey : List UInt8) :
    shared ec a (b • G) sharedkey = .ok (0, agreed ec G x a b) := by
  have hmul : a • b • G = (a * b) • G := (mul_smul a b G).symm
  have hkey : ec.ECDH_compute_key a (b • G) = x ((a * b) • G) := by
    rw [hc.compute a (b • G) (hmul ▸ hab), hmul]
  have hpos := hc.x_pos _ hab
  rw [shared_cases hc.compute_length, hkey, if_neg (by omega), agreed]

theorem keyPair_eq (hc : Curve ec G n x) {a : Int} (ha : 0 < a) (ha' : a < n)
    (publickey privatekey : List UInt8) :
    Gen_ECDH_KeyPair ec (some (a, a • G)) publickey privatekey =
      .ok (0, hex (ec.EC_POINT_point2oct (a • G)), hex (ec.BN_bn2mpi a)) := by
  have hoct := hc.oct_length (a • G)
  have hmpi := hc.mpi a ha ha'
  unfold Gen_ECDH_KeyPair
  rw [hc.new]
  show (printHex _ >>= _) = _
  rw [printHex_eq (by omega)]
  show (printHex _ >>= _) = _
  rw [printHex_eq (by omega)]
  rfl

/-- The own point, from its string or without one. -/
theorem ownPoint_hex (hc : Curve ec G n x) (Q : P) :
    ownPoint ec (hex (ec.EC_POINT_point2oct Q)) = .ok (.ok Q) := by
  have hoct := hc.oct_length Q
  unfold ownPoint
  rw [if_pos (Nat.pos_of_ne_zero (hex_pos hoct.1)), readHex_hex (by omega), ok_bind, hc.oct]
  rfl

theorem ownPoint_nil (hc : Curve ec G n x) : ownPoint ec [] = .ok (.ok 0) := by
  unfold ownPoint
  rw [if_neg (by decide), hc.mul]

/-- `Gen_Shared_Key` with a private key that `Gen_ECDH_KeyPair` has made, up to the point where
it decodes the key of the other party. -/
theorem sharedKey_own (hc : Curve ec G n x) {a : Int} (ha : 0 < a) (ha' : a < n)
    {peerpub publickey : List UInt8} (hpeer : peerpub.length ≠ 0) {point : P}
    (hown : ownPoint ec publickey = .ok (.ok point)) (sharedkey : List UInt8) :
    Gen_Shared_Key ec peerpub publickey (hex (ec.BN_bn2mpi a)) sharedkey = (do
      let publickey := hex (ec.EC_POINT_point2oct point)
      let privatekey := hex (ec.BN_bn2mpi a)
      let svrpub ← readHex peerpub
      match ec.EC_POINT_oct2point svrpub with
      | none => pure ⟨-0x4, publickey, privatekey, sharedkey⟩
      | some point2 =>
        let (r, sharedkey) ← shared ec a point2 sharedkey
        pure ⟨r, publickey, privatekey, sharedkey⟩) := by
  have hpoint := hc.oct_length point
  obtain ⟨hmpi, hpos, hle⟩ := hc.mpi a ha ha'
  unfold Gen_Shared_Key
  simp only [hc.new, Bool.not_true, Bool.false_eq_true, if_false]
  rw [if_neg hpeer, if_neg (hex_pos hpos), readHex_hex (by omega)]
  simp only [ok_bind, hmpi, hc.bn_new, hc.set_private a ha ha', hown, hc.set_public, Bool.not_true,
    Bool.false_eq_true, if_false]
  rw [printHex_eq (by omega), printHex_eq (by omega)]
  rfl

/-- With the public key that the other party has made, whatever the own point is. -/
theorem sharedKey_eq (hc : Curve ec G n x) {a b : Int} (ha : 0 < a) (ha' : a < n)
    (hab : (a * b) • G ≠ 0) {publickey : List UInt8} {point : P}
    (hown : ownPoint ec publickey = .ok (.ok point)) (sharedkey : List UInt8) :
    Gen_Shared_Key ec (hex (ec.EC_POINT_point2oct (b • G))) publickey (hex (ec.BN_bn2mpi a))
        sharedkey =
      .ok ⟨0, hex (ec.EC_POINT_point2oct point), hex (ec.BN_bn2mpi a), agreed ec G x a b⟩ := by
  have hoct := hc.oct_length (b • G)
  rw [sharedKey_own hc ha ha' (hex_pos hoct.1) hown, readHex_hex (by omega)]
  simp only [ok_bind, hc.oct, shared_eq hc hab]
  rfl

theorem sharedKey_ec_eq (hc : Curve ec G n x) {a b : Int} (ha : 0 < a) (ha' : a < n)
    (hab : (a * b) • G ≠ 0) (sharedkey : List UInt8) :
    Gen_Shared_Key_ec ec (b • G) (a • G) a sharedkey = .ok (0, agreed ec G x a b) := by
  unfold Gen_Shared_Key_ec
  simp only [hc.new, hc.set_public, hc.set_private a ha ha', hc.oct, Bool.not_true,
    Bool.false_eq_true, if_false]
  exact shared_eq hc hab sharedkey

/-- Two parties that have made their keys and exchanged the public ones get the same shared key.
Without the own public key a party gets it too, but then the string it passes for that key is
set to the point at infinity. -/
theorem keys_agree (hc : Curve ec G n x) {a b : Int} (ha : 0 < a) (ha' : a < n) (hb : 0 < b)
    (hb' : b < n) (hab : (a * b) • G ≠ 0) :
    ∃ pubA priA pubB priB infinity key,
      (∀ p q, Gen_ECDH_KeyPair ec (some (a, a • G)) p q = .ok (0, pubA, priA)) ∧
      (∀ p q, Gen_ECDH_KeyPair ec (some (b, b • G)) p q = .ok (0, pubB, priB)) ∧
      getECPubkeyPoint ec (0 : P) = .ok infinity ∧ key.length = 32 ∧
      ∀ s, Gen_Shared_Key ec pubB pubA priA s = .ok ⟨0, pubA, priA, key⟩ ∧
        Gen_Shared_Key ec pubA pubB priB s = .ok ⟨0, pubB, priB, key⟩ ∧
        Gen_Shared_Key ec pubB [] priA s = .ok ⟨0, infinity, priA, key⟩ ∧
        Gen_Shared_Key_ec ec (b • G) (a • G) a s = .ok (0, key) ∧
        Gen_Shared_Key_ec ec (a • G) (b • G) b s = .ok (0, key) := by
  have hba : (b * a) • G ≠ 0 := by rwa [mul_comm]
  have hzero := hc.oct_length 0
  refine ⟨_, _, _, _, _, agreed ec G x a b, keyPair_eq hc ha ha', keyPair_eq hc hb hb',
    printHex_eq (by omega), ?_, fun s => ⟨?_, ?_, ?_, ?_, ?_⟩⟩
  · rw [agreed, hex_length, Database.Digest.length_eq]
  · exact sharedKey_eq hc ha ha' hab (ownPoint_hex hc _) s
  · rw [agreed_comm]
    exact sharedKey_eq hc hb hb' hba (ownPoint_hex hc _) s
  · exact sharedKey_eq hc ha ha' hab (ownPoint_nil hc) s
  · exact sharedKey_ec_eq hc ha ha' hab s
  · rw [agreed_comm]
    exact sharedKey_ec_eq hc hb hb' hba s

theorem keys_agree_base :
    ∃ pubA priA pubB priB infinity key,
      (∀ p q, Gen_ECDH_KeyPair baseEc (some (1, (1 : Int) • 1)) p q = .ok (0, pubA, priA)) ∧
      (∀ p q, Gen_ECDH_KeyPair baseEc (some (1, (1 : Int) • 1)) p q = .ok (0, pubB, priB)) ∧
      getECPubkeyPoint baseEc (0 : ZMod 2) = .ok infinity ∧ key.length = 32 ∧
      ∀ s, Gen_Shared_Key baseEc pubB pubA priA s = .ok ⟨0, pubA, priA, key⟩ ∧
        Gen_Shared_Key baseEc pubA pubB priB s = .ok ⟨0, pubB, priB, key⟩ ∧
        Gen_Shared_Key baseEc pubB [] priA s = .ok ⟨0, infinity, priA, key⟩ ∧
        Gen_Shared_Key_ec baseEc ((1 : Int) • 1) ((1 : Int) • 1) 1 s = .ok (0, key) ∧
        Gen_Shared_Key_ec baseEc ((1 : Int) • 1) ((1 : Int) • 1) 1 s = .ok (0, key) :=
  keys_agree baseEc_curve (a := 1) (b := 1) (by decide) (by decide) (by decide) (by decide)
    (by decide)

/-- With own keys that are in order, the call returns for exactly those strings of the other
party that the array has room for.  Any other string is written behind the array. -/
theorem peer_returns_iff (hc : Curve ec G n x) {a : Int} (ha : 0 < a) (ha' : a < n)
    (peerpub sharedkey : List UInt8) :
    (∃ k, Gen_Shared_Key ec peerpub (hex (ec.EC_POINT_point2oct (a • G)))
      (hex (ec.BN_bn2mpi a)) sharedkey = .ok k) ↔ Fits peerpub := by
  by_cases hpeer : peerpub.length = 0
  · have hret : ∃ k, Gen_Shared_Key ec peerpub (hex (ec.EC_POINT_point2oct (a • G)))
        (hex (ec.BN_bn2mpi a)) sharedkey = .ok k := by
      unfold Gen_Shared_Key
      rw [if_pos hpeer]
      exact ⟨_, rfl⟩
    refine iff_of_true hret ?_
    rw [Fits, hpeer]
    decide
  · rw [sharedKey_own hc ha ha' hpeer (ownPoint_hex hc _), ← readHex_returns_iff]
    cases readHex peerpub with
    | error e =>
      refine iff_of_false ?_ ?_
      · rintro ⟨_, h⟩
        cases h
      · rintro ⟨_, h⟩
        cases h
    | ok svrpub =>
      refine iff_of_true ?_ ⟨_, rfl⟩
      simp only [ok_bind]
      cases ec.EC_POINT_oct2point svrpub with
      | none => exact ⟨_, rfl⟩
      | some point2 =>
        simp only [shared_cases hc.compute_length]
        split_ifs
        · exact ⟨_, rfl⟩
        · exact ⟨_, rfl⟩

theorem peer_returns_iff_base :
    (∃ k, Gen_Shared_Key baseEc (hex (3 :: baseX))
      (hex (baseEc.EC_POINT_point2oct ((1 : Int) • 1))) (hex (baseEc.BN_bn2mpi 1)) [] = .ok k) ↔
      Fits (hex (3 :: baseX)) :=
  peer_returns_iff baseEc_curve (a := 1) (by decide) (by decide) _ []

end

/-! ## The codes of the calls that fail -/

section

variable {P : Type} {ec : Ec P}

/-- What a call leaves in the strings that it was given by reference. -/
structure Leaves (ec : Ec P) (publickey privatekey sharedkey : List UInt8) (k : Keys) : Prop where
  code : k.ret ∈ [0, -0x1, -0x2, -0x3, -0x4, -0x5, -0x7, -0x9, -0x10, -0x11, -0x55]
  shared_new : k.ret = 0 → ∃ key, 0 < key.length ∧ k.sharedkey = hex (ec.MD5 key).bytes
  shared_old : k.ret ≠ 0 → k.sharedkey = sharedkey
  own_new : k.ret ∈ [0, -0x4, -0x9] → ∃ m point, ec.EC_KEY_set_private_key m = true ∧
    ec.EC_KEY_set_public_key point = true ∧ getECPrivkeyBN ec m = .ok k.privatekey ∧
    getECPubkeyPoint ec point = .ok k.publickey
  own_old : k.ret ∉ [0, -0x4, -0x9] → k.publickey = publickey ∧ k.privatekey = privatekey

variable {publickey privatekey sharedkey : List UInt8}

theorem leaves_old {r : Int}
    (hr : r ∈ [-0x1, -0x2, -0x3, -0x5, -0x7, -0x10, -0x11, -0x55]) :
    Leaves ec publickey privatekey sharedkey ⟨r, publickey, privatekey, sharedkey⟩ where
  code := by
    simp only [List.mem_cons, List.not_mem_nil, or_false] at hr ⊢
    omega
  shared_new := by
    rintro rfl
    simp at hr
  shared_old := fun _ => rfl
  own_new := by
    simp only [List.mem_cons, List.not_mem_nil, or_false] at hr ⊢
    omega
  own_old := fun _ => ⟨rfl, rfl⟩

theorem leaves_own {r : Int} {pub priv new : List UInt8} (hr : r ∈ [0, -0x4, -0x9])
    (hown : ∃ m point, ec.EC_KEY_set_private_key m = true ∧
      ec.EC_KEY_set_public_key point = true ∧ getECPrivkeyBN ec m = .ok priv ∧
      getECPubkeyPoint ec point = .ok pub)
    (hnew : r = 0 → ∃ key, 0 < key.length ∧ new = hex (ec.MD5 key).bytes)
    (hold : r ≠ 0 → new = sharedkey) :
    Leaves ec publickey privatekey sharedkey ⟨r, pub, priv, new⟩ where
  code := by
    simp only [List.mem_cons, List.not_mem_nil, or_false] at hr ⊢
    omega
  shared_new := hnew
  shared_old := hold
  own_new := fun _ => hown
  own_old := fun hr' => absurd hr hr'

theorem shared_inv {m r : Int} {Q : P} {old new : List UInt8}
    (h : shared ec m Q old = .ok (r, new)) :
    (r = -0x9 ∧ new = old) ∨
      (r = 0 ∧ ∃ key, 0 < key.length ∧ new = hex (ec.MD5 key).bytes) := by
  unfold shared at h
  simp only at h
  split_ifs at h with hzero
  · cases h
    exact Or.inl ⟨rfl, rfl⟩
  · obtain ⟨_, -, h⟩ := bind_eq_ok h
    obtain ⟨⟨_, md5hex⟩, hmd5, h⟩ := bind_eq_ok h
    rw [md5Hex_eq] at hmd5
    cases hmd5
    cases h
    exact Or.inr ⟨rfl, _, Nat.pos_of_ne_zero hzero, rfl⟩

theorem ownPoint_error {r : Int} (h : ownPoint ec publickey = .ok (.error r)) :
    r ∈ [-0x2, -0x11] := by
  unfold ownPoint at h
  split_ifs at h with hpos
  · obtain ⟨buff, -, h⟩ := bind_eq_ok h
    cases hoct : ec.EC_POINT_oct2point buff with
    | none =>
      rw [hoct] at h
      cases h
      decide
    | some point =>
      rw [hoct] at h
      cases h
  · cases hmul : ec.EC_POINT_mul with
    | none =>
      rw [hmul] at h
      cases h
      decide
    | some point =>
      rw [hmul] at h
      cases h

/-- The shared key is replaced by a call that succeeds, and by no other.  The own keys are
replaced as soon as they are in order, whatever becomes of the key of the other party. -/
theorem leaves_of_yields {peerpub : List UInt8} {k : Keys}
    (h : Gen_Shared_Key ec peerpub publickey privatekey sharedkey = .ok k) :
    Leaves ec publickey privatekey sharedkey k := by
  unfold Gen_Shared_Key at h
  simp only at h
  split_ifs at h with hpeer hpriv hnew hbn
  · cases h
    exact leaves_old (by decide)
  · cases h
    exact leaves_old (by decide)
  · cases h
    exact leaves_old (by decide)
  · obtain ⟨buff, -, h⟩ := bind_eq_ok h
    cases h
    exact leaves_old (by decide)
  · obtain ⟨buff, -, h⟩ := bind_eq_ok h
    split_ifs at h with hset
    · cases h
      exact leaves_old (by decide)
    · obtain ⟨own, hown, h⟩ := bind_eq_ok h
      cases own with
      | error r =>
        cases h
        have hr := ownPoint_error hown
        refine leaves_old ?_
        simp only [List.mem_cons, List.not_mem_nil, or_false] at hr ⊢
        omega
      | ok point =>
        simp only at h
        split_ifs at h with hpub
        · cases h
          exact leaves_old (by decide)
        · obtain ⟨pub, hpubhex, h⟩ := bind_eq_ok h
          obtain ⟨priv, hprivhex, h⟩ := bind_eq_ok h
          obtain ⟨svrpub, -, h⟩ := bind_eq_ok h
          have hown : ∃ m point, ec.EC_KEY_set_private_key m = true ∧
              ec.EC_KEY_set_public_key point = true ∧ getECPrivkeyBN ec m = .ok priv ∧
              getECPubkeyPoint ec point = .ok pub :=
            ⟨_, point, by simpa using hset, by simpa using hpub, hprivhex, hpubhex⟩
          cases hoct : ec.EC_POINT_oct2point svrpub with
          | none =>
            rw [hoct] at h
            cases h
            exact leaves_own (by decide) hown (fun hr => absurd hr (by decide)) fun _ => rfl
          | some point2 =>
            rw [hoct] at h
            obtain ⟨⟨r, new⟩, hshared, h⟩ := bind_eq_ok h
            cases h
            rcases shared_inv hshared with ⟨rfl, rfl⟩ | ⟨rfl, hkey⟩
            · exact leaves_own (r := -0x9) (by decide) hown (fun hr => absurd hr (by decide))
                fun _ => rfl
            · exact leaves_own (r := 0) (by decide) hown (fun _ => hkey) fun hr => absurd rfl hr

end

/-- Two parties with the private key 1, and a shared key from before. -/
theorem leaves_of_yields_base :
    Leaves baseEc (hex (3 :: baseX)) (hex [0, 0, 0, 1, 1]) [97]
      ⟨0, hex (3 :: baseX), hex [0, 0, 0, 1, 1], agreed baseEc 1 (fun _ => baseX) 1 1⟩ :=
  leaves_of_yields (sharedKey_eq baseEc_curve (a := 1) (b := 1) (by decide) (by decide) (by decide)
    (ownPoint_hex baseEc_curve 1) [97])

end OCServer.Ecdh
