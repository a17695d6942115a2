import OCServer.Proto.JavaIn

/-!
# `ProtoInputStream` reads the format

`readBody_reads` says that the generic reader, behind a tag, reads every
well-formed value back from its encoding, whatever follows.  It is proved by
recursion on the type, from one lemma for each of the reader's bodies.
`read_reads` adds the search for the tag.
-/

namespace OCServer.Java

open BigEndian ByteIO ByteSource

/-- The bytes between position and limit. -/
instance : ByteSource JBuf where
  At b l := (b.data.take b.limit).drop b.pos = l
  Same b b' := b'.data = b.data ∧ b'.limit = b.limit
  same_refl _ := ⟨rfl, rfl⟩
  same_trans h h' := ⟨h'.1.trans h.1, h'.2.trans h.2⟩

/-! ## The buffer -/

theorem at_length {b : JBuf} {l : List UInt8} (h : At b l) : l.length = b.limit - b.pos := by
  have hle := b.limit_le
  rw [← h, List.length_drop, List.length_take]
  omega

/-- Two positions in the same buffer with the same bytes left. -/
theorem eq_of_at {b b' : JBuf} {r : List UInt8} (hb : At b r) (hb' : At b' r)
    (hsame : Same b b') : b = b' := by
  have hlen := at_length hb
  have hlen' := at_length hb'
  rcases b with ⟨data, pos, limit, hpos, hlimit, hsize⟩
  rcases b' with ⟨data', pos', limit', hpos', hlimit', hsize'⟩
  rcases hsame with ⟨hdata, hlim⟩
  simp only at hdata hlim hlen hlen' hpos hpos'
  subst hdata
  subst hlim
  have hpos : pos = pos' := by omega
  subst hpos
  rfl

/-- The position behind `bs`. -/
theorem pos_of_at {b b' : JBuf} {bs r : List UInt8} (hb : At b (bs ++ r)) (hb' : At b' r)
    (hsame : Same b b') : b'.pos = b.pos + bs.length := by
  have hlen := at_length hb
  have hlen' := at_length hb'
  have hpos := b.pos_le
  have hpos' := b'.pos_le
  have hlimit := hsame.2
  rw [List.length_append] at hlen
  omega

/-- What is left is shorter than the largest array. -/
theorem at_length_lt {b : JBuf} {l : List UInt8} (h : At b l) : l.length < 2 ^ 31 := by
  have hlen := at_length h
  have hle := b.limit_le
  have hlt := b.size_lt
  omega

/-- A reader may rely on the size that an array can have. -/
theorem reads_of_length {α : Type} {m : JIn α} {bs : List UInt8} {a : α}
    (h : bs.length < 2 ^ 31 → Reads m bs a) : Reads m bs a := by
  intro b r hb
  have hlt := at_length_lt hb
  rw [List.length_append] at hlt
  exact h (by omega) b r hb

theorem getBytes_reads (bs : List UInt8) : Reads (getBytes bs.length) bs bs := by
  intro b r hb
  have hlen := at_length hb
  rw [List.length_append] at hlen
  have hpos := b.pos_le
  have hle : b.pos + bs.length ≤ b.limit := by omega
  have htake : (b.data.drop b.pos).take bs.length = bs := by
    have h : ((b.data.take b.limit).drop b.pos).take bs.length = bs := by
      rw [show (b.data.take b.limit).drop b.pos = bs ++ r from hb, List.take_left]
    rwa [List.drop_take, List.take_take, Nat.min_eq_left (by omega)] at h
  refine ⟨{ b with pos := b.pos + bs.length, pos_le := hle }, ?_, ?_, rfl, rfl⟩
  · unfold getBytes
    rw [dif_pos hle, htake]
  · show (b.data.take b.limit).drop (b.pos + bs.length) = r
    rw [← List.drop_drop, show (b.data.take b.limit).drop b.pos = bs ++ r from hb,
      List.drop_left]

/-- A number that was written in its own width. -/
theorem getBits_reads {k w : Nat} (hk : k = 8 * w) (v : BitVec k) :
    Reads (getBits k w) (beBytes w v.toNat) v := by
  have h := getBytes_reads (beBytes w v.toNat)
  rw [beBytes_length] at h
  have hval : Reads (pure (BitVec.ofNat k (beVal (beBytes w v.toNat))) : JIn (BitVec k)) []
      v := by
    rw [beVal_bytes hk]
    exact Reads.pure v
  exact h.then hval

/-- A number below `256 ^ w`. -/
theorem getBits_reads_nat {k w n : Nat} (hk : k = 8 * w) (hn : n < 256 ^ w) :
    Reads (getBits k w) (beBytes w n) (BitVec.ofNat k n) := by
  have h := getBits_reads hk (BitVec.ofNat k n)
  have hpow : 2 ^ k = 256 ^ w := by rw [hk, Nat.pow_mul]
  rwa [BitVec.toNat_ofNat, Nat.mod_eq_of_lt (hpow ▸ hn)] at h

theorem capacity_reads {α : Type} {f : Nat → JIn α} {bs : List UInt8} {a : α}
    (h : ∀ n, bs.length ≤ n → Reads (f n) bs a) : Reads (capacity >>= f) bs a := by
  intro b r hb
  have hlen := at_length hb
  rw [List.length_append] at hlen
  have hle := b.limit_le
  exact h b.data.length (by omega) b r hb

/-! ## Headers -/

/-- Reading a header back. -/
theorem readHead_reads {type : UInt8} (htype : type.toNat < 16) (tag : UInt8) :
    Reads readHead (encHead type tag) (⟨type, tag.toNat⟩, (encHead type tag).length) := by
  have hbyte : ∀ b : UInt8, Reads get [b] b.toBitVec := by
    intro b
    have h := getBits_reads (k := 8) (w := 1) rfl b.toBitVec
    rwa [show beBytes 1 b.toBitVec.toNat = [b] from beBytes_one b] at h
  rcases encHead_cases htype tag with ⟨b, henc, ht, hg, hne⟩ | ⟨b, henc, ht, hg, hle⟩
  · rw [henc]
    refine (hbyte b).then ?_
    simp only [UInt8.ofBitVec_toBitVec, hg, hne, if_false, ht]
    exact Reads.pure _
  · rw [henc, show [b, tag] = [b] ++ [tag] from rfl]
    refine (hbyte b).bind ?_
    simp only [UInt8.ofBitVec_toBitVec, hg, if_true, ht]
    exact (hbyte tag).then (Reads.pure _)

/-- Looking at a header leaves the buffer as it is. -/
theorem peakHead_eq {type : UInt8} (htype : type.toNat < 16) (tag : UInt8) {b : JBuf}
    {r : List UInt8} (hb : At b (encHead type tag ++ r)) :
    peakHead b = .ok (⟨type, tag.toNat⟩, (encHead type tag).length) b := by
  obtain ⟨b', hread, _, _⟩ := readHead_reads htype tag b r hb
  unfold peakHead
  rw [hread]

/-- The bytes of a field: a header at the tag, not of type `STRUCT_END`. -/
def FieldAt (tag : UInt8) (bs : List UInt8) : Prop :=
  ∃ type rest, type.toNat < 16 ∧ type ≠ protoStructEnd ∧ bs = encHead type tag ++ rest

theorem FieldAt.head {type tag : UInt8} (htype : type.toNat < 16) (hne : type ≠ protoStructEnd)
    (rest : List UInt8) : FieldAt tag (encHead type tag ++ rest) :=
  ⟨type, rest, htype, hne, rfl⟩

/-- A field at the tag is found at once. -/
theorem skipToTag_hit (fuel : Nat) {tag : UInt8} {bs r : List UInt8} (h : FieldAt tag bs)
    {b : JBuf} (hb : At b (bs ++ r)) :
    skipToTag (fuel + 1) tag.toNat b = .ok true b := by
  obtain ⟨type, rest, htype, hne, rfl⟩ := h
  rw [List.append_assoc] at hb
  have hloop : skipToTagLoop (fuel + 1) tag.toNat b = .ok true b := by
    unfold skipToTagLoop
    rw [bind_of_ok (peakHead_eq htype tag hb)]
    simp only [hne, if_false, le_refl, if_true, beq_self_eq_true]
    rfl
  unfold skipToTag catchIn
  rw [hloop]

/-- A field that is required and comes next. -/
theorem required_reads {α : Type} (fuel : Nat) (tag : UInt8) {bs : List UInt8} {body : JIn α}
    {a : α} (hbs : FieldAt tag bs) (h : Reads body bs a) :
    Reads (required (skipToTag (fuel + 1) tag.toNat) body) bs a := by
  intro b r hb
  obtain ⟨b', hbody⟩ := h b r hb
  refine ⟨b', ?_⟩
  have hrun : required (skipToTag (fuel + 1) tag.toNat) body b = body b := by
    unfold required
    rw [bind_of_ok (skipToTag_hit fuel hbs hb)]
    rfl
  rw [hrun]
  exact hbody

/-- A field that comes next, with any default. -/
theorem optional_reads {α : Type} (fuel : Nat) {tag : UInt8} {bs : List UInt8} {body : JIn α}
    {a : α} (hbs : FieldAt tag bs) (h : Reads body bs a) (isRequire : Bool) (dflt : α) :
    Reads (optional (skipToTag (fuel + 1) tag.toNat) isRequire dflt body) bs a := by
  intro b r hb
  obtain ⟨b', hbody⟩ := h b r hb
  refine ⟨b', ?_⟩
  have hrun : optional (skipToTag (fuel + 1) tag.toNat) isRequire dflt body b = body b := by
    unfold optional
    rw [bind_of_ok (skipToTag_hit fuel hbs hb)]
    rfl
  rw [hrun]
  exact hbody

/-! ## Scalars -/

/-- A reader of integers accepts every width that the value needs. -/
theorem integerBody_reads (k : Nat) (widest tag : UInt8) (n : Int) (hk : 8 ≤ k)
    (hshort : ¬(-128 ≤ n ∧ n < 128) → protoShort ≤ widest ∧ 16 ≤ k)
    (hint : ¬(-32768 ≤ n ∧ n < 32768) → protoInt ≤ widest ∧ 32 ≤ k)
    (hlong : ¬(-2147483648 ≤ n ∧ n < 2147483648) → protoLong ≤ widest ∧ 64 ≤ k ∧
      -9223372036854775808 ≤ n ∧ n < 9223372036854775808) :
    Reads (integerBody k widest) (encInt tag n) (BitVec.ofInt k n) := by
  unfold encInt integerBody
  split
  · next hzero =>
    refine (readHead_reads (by decide) tag).then ?_
    rw [hzero]
    exact Reads.pure _
  · split
    · next hbyte =>
      refine (readHead_reads (by decide) tag).bind ?_
      refine (getBits_reads (k := 8) (w := 1) rfl (BitVec.ofInt 8 n)).then ?_
      rw [signExtend_ofInt (by omega) hk hbyte.1 hbyte.2]
      exact Reads.pure _
    · next hbyte =>
      obtain ⟨hw, hk⟩ := hshort hbyte
      split
      · next hrange =>
        refine (readHead_reads (by decide) tag).bind ?_
        simp only [hw]
        refine (getBits_reads (k := 16) (w := 2) rfl (BitVec.ofInt 16 n)).then ?_
        rw [signExtend_ofInt (by omega) hk hrange.1 hrange.2]
        exact Reads.pure _
      · next hrange =>
        obtain ⟨hw, hk⟩ := hint hrange
        split
        · next hrange =>
          refine (readHead_reads (by decide) tag).bind ?_
          simp only [hw]
          refine (getBits_reads (k := 32) (w := 4) rfl (BitVec.ofInt 32 n)).then ?_
          rw [signExtend_ofInt (by omega) hk hrange.1 hrange.2]
          exact Reads.pure _
        · next hrange =>
          obtain ⟨hw, hk, hlo, hhi⟩ := hlong hrange
          refine (readHead_reads (by decide) tag).bind ?_
          simp only [hw]
          refine (getBits_reads (k := 64) (w := 8) rfl (BitVec.ofInt 64 n)).then ?_
          rw [signExtend_ofInt (by omega) hk hlo hhi]
          exact Reads.pure _

theorem byteBody_reads (tag : UInt8) {n : Int} (hlo : -128 ≤ n) (hhi : n < 128) :
    Reads byteBody (encInt tag n) (BitVec.ofInt 8 n) := by
  unfold encInt byteBody
  split
  · next hzero =>
    refine (readHead_reads (by decide) tag).then ?_
    rw [hzero]
    exact Reads.pure _
  · rw [if_pos ⟨hlo, hhi⟩]
    refine (readHead_reads (by decide) tag).bind ?_
    exact getBits_reads (k := 8) (w := 1) rfl (BitVec.ofInt 8 n)

theorem floatBody_reads (tag : UInt8) (v : BitVec 32) :
    Reads floatBody (encHead protoFloat tag ++ beBytes 4 v.toNat) v := by
  unfold floatBody
  refine (readHead_reads (by decide) tag).bind ?_
  exact getBits_reads (k := 32) (w := 4) rfl v

/-! ## Strings and containers -/

section

variable (fuel : Nat)

theorem fieldAt_int (tag : UInt8) (n : Int) : FieldAt tag (encInt tag n) := by
  have hzero : FieldAt tag (encHead protoZeroTag tag ++ []) :=
    .head (by decide) (by decide) []
  rw [List.append_nil] at hzero
  unfold encInt
  repeat' split
  · exact hzero
  all_goals exact .head (by decide) (by decide) _

theorem fieldAt_string (tag : UInt8) (s : List UInt8) : FieldAt tag (encString tag s) := by
  unfold encString
  split <;> rw [List.append_assoc] <;> exact .head (by decide) (by decide) _

theorem fieldAt_prim (tag : UInt8) (p : Prim) (v : PrimVal p) :
    FieldAt tag (encPrim tag p v) := by
  cases p with
  | float => exact .head (by decide) (by decide) _
  | double => exact .head (by decide) (by decide) _
  | _ => exact fieldAt_int tag _

theorem fieldAt_enc (endTag : UInt8 → UInt8) (t : Ty) (tag : UInt8) (v : Val t) :
    FieldAt tag (enc endTag t tag v) := by
  cases t with
  | byte => exact fieldAt_int tag _
  | prim p => exact fieldAt_prim tag p v
  | string => exact fieldAt_string tag v
  | _ =>
    simp only [enc, List.append_assoc]
    exact .head (by decide) (by decide) _

/-- The size of a container. -/
theorem readSize_reads (n : Nat) :
    Reads (readSize (fuel + 1)) (encSize n) (BitVec.ofNat 32 n) := by
  have hlo := BitVec.le_toInt (x := BitVec.ofNat 32 n)
  have hhi := BitVec.toInt_lt (x := BitVec.ofNat 32 n)
  have h := required_reads fuel 0 (fieldAt_int 0 (BitVec.ofNat 32 n).toInt)
    (integerBody_reads 32 protoInt 0 (BitVec.ofNat 32 n).toInt (by omega)
      (fun _ => ⟨by decide, by omega⟩) (fun _ => ⟨by decide, Nat.le_refl _⟩) (by omega))
  rwa [BitVec.ofInt_toInt] at h

theorem stringBody_reads (tag : UInt8) {s : List UInt8}
    (hs : s.length ≤ protoMaxStringLength) : Reads stringBody (encString tag s) s := by
  have hmax : s.length ≤ 104857600 := hs
  unfold encString stringBody
  split
  · rw [List.append_assoc]
    refine (readHead_reads (by decide) tag).bind ?_
    refine (getBits_reads_nat (k := 32) (w := 4) rfl (by omega)).bind ?_
    have hlen : (BitVec.ofNat 32 s.length).toInt = s.length :=
      toInt_size (n := s.length) (by omega)
    refine capacity_reads fun cap hcap => ?_
    simp only [hlen]
    rw [if_neg (by omega)]
    exact getBytes_reads s
  · rw [List.append_assoc]
    refine (readHead_reads (by decide) tag).bind ?_
    refine (getBits_reads_nat (k := 8) (w := 1) rfl (by omega)).bind ?_
    have hlen : (BitVec.ofNat 8 s.length).toNat = s.length := by
      rw [BitVec.toNat_ofNat]
      omega
    rw [hlen]
    exact getBytes_reads s

/-- A `LIST` of elements at tag 0. -/
theorem listBody_reads {α : Type} {element : JIn α} {encElem : α → List UInt8}
    (tag : UInt8) (vs : List α) (hfield : ∀ v, FieldAt 0 (encElem v))
    (hpos : ∀ v, 0 < (encElem v).length) (h : ∀ v ∈ vs, Reads element (encElem v) v) :
    Reads (listBody (fuel + 1) element)
      (encHead protoList tag ++ encSize vs.length ++ vs.flatMap encElem) vs := by
  apply reads_of_length
  intro hlt
  have hle := length_le_flatMap hpos vs
  rw [List.length_append] at hlt
  have hsize : vs.length < 2 ^ 31 := by omega
  unfold listBody
  rw [List.append_assoc]
  refine (readHead_reads (by decide) tag).bind ?_
  refine (readSize_reads fuel _).bind ?_
  simp only [toInt_size hsize, Int.toNat_natCast]
  rw [if_neg (by omega)]
  exact Reads.repeatM vs fun v hv => required_reads fuel 0 (hfield v) (h v hv)

/-- A `byte[]` as it is written. -/
theorem byteArrayBody_reads (tag : UInt8) (i : Int) (bytes : List UInt8) :
    Reads (byteArrayBody (fuel + 1) i)
      (encHead protoSimpleList tag ++ encHead protoByte 0 ++ encSize bytes.length ++ bytes)
      bytes := by
  apply reads_of_length
  intro hlt
  simp only [List.length_append] at hlt
  have hsize : bytes.length < 2 ^ 31 := by omega
  unfold byteArrayBody
  rw [List.append_assoc, List.append_assoc]
  refine (readHead_reads (by decide) tag).bind ?_
  refine (readHead_reads (by decide) 0).bind ?_
  refine (readSize_reads fuel _).bind ?_
  refine capacity_reads fun cap hcap => ?_
  simp only [toInt_size hsize, Int.toNat_natCast]
  rw [if_neg (by omega)]
  exact getBytes_reads bytes

/-- A list of bytes is read as a `byte[]`. -/
theorem byteArrayBody_list_reads (endTag : UInt8 → UInt8) (tag : UInt8) (i : Int)
    (vs : List (BitVec 8)) :
    Reads (byteArrayBody (fuel + 1) i) (enc endTag (.list .byte) tag vs)
      (vs.map UInt8.ofBitVec) := by
  apply reads_of_length
  intro hlt
  have hle := length_le_flatMap (enc_length_pos endTag .byte 0) vs
  unfold enc at hlt ⊢
  rw [List.length_append] at hlt
  have hsize : vs.length < 2 ^ 31 := by omega
  unfold byteArrayBody
  rw [List.append_assoc]
  refine (readHead_reads (by decide) tag).bind ?_
  refine (readSize_reads fuel vs.length).bind ?_
  refine capacity_reads fun cap hcap => ?_
  dsimp only
  rw [toInt_size hsize, if_neg (by omega), Int.toNat_natCast]
  refine (Reads.repeatM vs fun v _ => ?_).then (Reads.pure _)
  have hlo := BitVec.le_toInt (x := v)
  have hhi := BitVec.toInt_lt (x := v)
  have hbyte := byteBody_reads 0 (n := v.toInt) (by omega) (by omega)
  rw [BitVec.ofInt_toInt] at hbyte
  exact required_reads fuel 0 (fieldAt_enc endTag .byte 0 v) hbyte

/-- A `MAP` as it is written. -/
theorem mapBody_puts {κ ν : Type} [DecidableEq κ] {key : JIn κ} {value : JIn ν}
    {encKey : κ → List UInt8} {encValue : ν → List UInt8} (tag : UInt8) (m : List (κ × ν))
    (hkey : ∀ k, FieldAt 0 (encKey k)) (hvalue : ∀ v, FieldAt 1 (encValue v))
    (hpos : ∀ k, 0 < (encKey k).length)
    (h : ∀ e ∈ m, Reads key (encKey e.1) e.1 ∧ Reads value (encValue e.2) e.2) :
    Reads (mapBody (fuel + 1) key value)
      (encHead protoMap tag ++ encSize m.length ++
        m.flatMap fun e => encKey e.1 ++ encValue e.2)
      (m.foldl (fun mr e => mapPut mr e.1 e.2) []) := by
  apply reads_of_length
  intro hlt
  have hle := length_le_flatMap (f := fun e : κ × ν => encKey e.1 ++ encValue e.2)
    (fun e => by have := hpos e.1; rw [List.length_append]; omega) m
  rw [List.length_append] at hlt
  have hsize : m.length < 2 ^ 31 := by omega
  unfold mapBody
  rw [List.append_assoc]
  refine (readHead_reads (by decide) tag).bind ?_
  refine (readSize_reads fuel _).bind ?_
  simp only [toInt_size hsize, Int.toNat_natCast]
  rw [if_neg (by omega)]
  refine (Reads.repeatM m fun e he => ?_).then (Reads.pure _)
  rcases h e he with ⟨hk, hv⟩
  refine (required_reads fuel 0 (hkey e.1) hk).bind ?_
  exact (required_reads fuel 1 (hvalue e.2) hv).then (Reads.pure _)

/-- A `MAP` with distinct keys. -/
theorem mapBody_reads {κ ν : Type} [DecidableEq κ] {key : JIn κ} {value : JIn ν}
    {encKey : κ → List UInt8} {encValue : ν → List UInt8} (tag : UInt8) (m : List (κ × ν))
    (hkey : ∀ k, FieldAt 0 (encKey k)) (hvalue : ∀ v, FieldAt 1 (encValue v))
    (hpos : ∀ k, 0 < (encKey k).length) (hnodup : (m.map Prod.fst).Nodup)
    (h : ∀ e ∈ m, Reads key (encKey e.1) e.1 ∧ Reads value (encValue e.2) e.2) :
    Reads (mapBody (fuel + 1) key value)
      (encHead protoMap tag ++ encSize m.length ++
        m.flatMap fun e => encKey e.1 ++ encValue e.2) m := by
  have hputs := mapBody_puts fuel tag m hkey hvalue hpos h
  rwa [foldl_mapPut m [] (by simpa using hnodup)] at hputs

/-- The header that ends a struct. -/
theorem skipToStructEnd_reads (tag : UInt8) :
    Reads (skipToStructEnd (fuel + 2)) (encHead protoStructEnd tag) () := by
  unfold skipToStructEnd
  refine (readHead_reads (by decide) tag).then ?_
  unfold skipField
  exact Reads.pure _

/-! ## The generic reader -/

variable [FloatOps]

theorem doubleBody_reads (tag : UInt8) (v : BitVec 64) :
    Reads doubleBody (encHead protoDouble tag ++ beBytes 8 v.toNat) v := by
  unfold doubleBody
  refine (readHead_reads (by decide) tag).bind ?_
  exact getBits_reads (k := 64) (w := 8) rfl v

/-- Every scalar. -/
theorem primBody_reads (tag : UInt8) (p : Prim) (v : PrimVal p) :
    Reads (primBody p) (encPrim tag p v) v := by
  cases p with
  | bool =>
    unfold primBody encPrim
    refine (byteBody_reads tag (by split <;> omega) (by split <;> omega)).then ?_
    cases v <;> exact Reads.pure _
  | short =>
    have hlo := BitVec.le_toInt (x := v)
    have hhi := BitVec.toInt_lt (x := v)
    have h := integerBody_reads 16 protoShort tag v.toInt
      (by omega) (fun _ => ⟨by decide, Nat.le_refl _⟩) (by omega) (by omega)
    rwa [BitVec.ofInt_toInt] at h
  | int =>
    have hlo := BitVec.le_toInt (x := v)
    have hhi := BitVec.toInt_lt (x := v)
    have h := integerBody_reads 32 protoInt tag v.toInt
      (by omega) (fun _ => ⟨by decide, by omega⟩) (fun _ => ⟨by decide, Nat.le_refl _⟩)
      (by omega)
    rwa [BitVec.ofInt_toInt] at h
  | long =>
    have hlo := BitVec.le_toInt (x := v)
    have hhi := BitVec.toInt_lt (x := v)
    have h := integerBody_reads 64 protoLong tag v.toInt
      (by omega) (fun _ => ⟨by decide, by omega⟩) (fun _ => ⟨by decide, by omega⟩)
      (fun _ => ⟨by decide, Nat.le_refl _, by omega, by omega⟩)
    rwa [BitVec.ofInt_toInt] at h
  | float => exact floatBody_reads tag v
  | double => exact doubleBody_reads tag v

mutual

/-- Behind its tag, every well-formed value is read back. -/
theorem readBody_reads (endTag : UInt8 → UInt8) : ∀ (t : Ty) (tag : UInt8) (i : Int) (v : Val t),
    Ok t v → Reads (readBody (fuel + 2) t i) (enc endTag t tag v) v
  | .byte, tag, _, v, _ => by
    have hlo := BitVec.le_toInt (x := v)
    have hhi := BitVec.toInt_lt (x := v)
    have h := byteBody_reads tag (n := v.toInt) (by omega) (by omega)
    rwa [BitVec.ofInt_toInt] at h
  | .prim p, tag, _, v, _ => primBody_reads tag p v
  | .string, tag, _, _, h => stringBody_reads tag h
  | .bytes, tag, i, v, _ => byteArrayBody_reads (fuel + 1) tag i v
  | .array p, tag, _, vs, _ =>
    listBody_reads (fuel + 1) tag vs (fieldAt_prim 0 p) (encPrim_length_pos 0 p)
      fun v _ => primBody_reads 0 p v
  | .list t, tag, _, vs, h =>
    listBody_reads (fuel + 1) tag vs (fieldAt_enc endTag t 0) (enc_length_pos endTag t 0)
      fun v hv => readBody_reads endTag t 0 0 v (h v hv)
  | .strMap, tag, _, m, h =>
    mapBody_reads (fuel + 1) tag m (fieldAt_string 0) (fieldAt_string 1)
      (encString_length_pos 0) h.1
      fun e he => ⟨stringBody_reads 0 (h.2 e he).1, stringBody_reads 1 (h.2 e he).2⟩
  | .map k v, tag, _, m, h =>
    mapBody_reads (fuel + 1) tag m (fieldAt_enc endTag k 0) (fieldAt_enc endTag v 1)
      (enc_length_pos endTag k 0) h.1
      fun e he => ⟨readBody_reads endTag k 0 0 e.1 (h.2 e he).1,
        readBody_reads endTag v 1 1 e.2 (h.2 e he).2⟩
  | .struct fs, tag, _, v, h => by
    unfold readBody enc
    rw [List.append_assoc]
    refine (readHead_reads (by decide) tag).bind ?_
    refine (readFrom_reads endTag fs v h).bind ?_
    exact (skipToStructEnd_reads fuel (endTag tag)).then (Reads.pure v)

/-- `readFrom` reads the fields back. -/
theorem readFrom_reads (endTag : UInt8 → UInt8) : ∀ (fs : Fields) (v : FieldVals fs),
    OkFields fs v → Reads (readFrom (fuel + 2) fs) (encFields endTag fs v) v
  | .nil, v, _ => Reads.pure v
  | .cons tag t fs, v, h => by
    unfold readFrom encFields
    refine (required_reads (fuel + 1) tag (fieldAt_enc endTag t tag v.1)
      (readBody_reads endTag t tag tag.toNat v.1 h.1)).bind ?_
    exact (readFrom_reads endTag fs v.2 h.2).then (Reads.pure v)

end

/-- Every well-formed value is read back at its tag. -/
theorem read_reads (endTag : UInt8 → UInt8) (t : Ty) (tag : UInt8) (v : Val t)
    (dflt : Option (Val t)) (isRequire : Bool) (h : Ok t v) :
    Reads (read (fuel + 2) t dflt tag.toNat isRequire) (enc endTag t tag v) (some v) :=
  optional_reads (fuel + 1) (fieldAt_enc endTag t tag v)
    ((readBody_reads fuel endTag t tag tag.toNat v h).map some) isRequire _

/-! ## Other type codes -/

/-- The type codes that the reader of a type has an arm for. -/
def arms : Ty → List UInt8
  | .byte | .prim .bool => [protoZeroTag, protoByte]
  | .prim .short => [protoZeroTag, protoByte, protoShort]
  | .prim .int => [protoZeroTag, protoByte, protoShort, protoInt]
  | .prim .long => [protoZeroTag, protoByte, protoShort, protoInt, protoLong]
  | .prim .float => [protoZeroTag, protoFloat]
  | .prim .double => [protoZeroTag, protoFloat, protoDouble]
  | .string => [protoString1, protoString4]
  | .bytes => [protoSimpleList, protoList]
  | .array _ | .list _ => [protoList]
  | .strMap | .map _ _ => [protoMap]
  | .struct _ => [protoStructBegin]

omit [FloatOps] in
theorem integerBody_unknown (k : Nat) {widest : UInt8} {hd : HeadData} {n : Nat} {b b₁ : JBuf}
    (hhead : readHead b = .ok (hd, n) b₁) (hzero : hd.type ≠ protoZeroTag)
    (hbyte : hd.type ≠ protoByte)
    (hwide : ∀ code ∈ [protoShort, protoInt, protoLong], code ≤ widest → hd.type ≠ code) :
    integerBody k widest b = .error (.decode "type mismatch.") b₁ := by
  have hunknown : ∀ code ∈ [protoShort, protoInt, protoLong],
      ¬(hd.type = code ∧ code ≤ widest) :=
    fun code hcode h => hwide code hcode h.2 h.1
  unfold integerBody
  rw [bind_of_ok hhead]
  simp only [if_neg hzero, if_neg hbyte, if_neg (hunknown protoShort (by decide)),
    if_neg (hunknown protoInt (by decide)), if_neg (hunknown protoLong (by decide))]
  rfl

omit [FloatOps] in
theorem byteBody_unknown {hd : HeadData} {n : Nat} {b b₁ : JBuf}
    (hhead : readHead b = .ok (hd, n) b₁) (h : hd.type ∉ arms .byte) :
    byteBody b = .error (.decode "type mismatch.") b₁ := by
  simp only [arms, List.mem_cons, List.not_mem_nil, or_false, not_or] at h
  unfold byteBody
  rw [bind_of_ok hhead]
  simp only [if_neg h.1, if_neg h.2]
  rfl

omit [FloatOps] in
theorem listBody_unknown {α : Type} (fuel : Nat) (element : JIn α) {hd : HeadData} {n : Nat}
    {b b₁ : JBuf} (hhead : readHead b = .ok (hd, n) b₁) (h : hd.type ≠ protoList) :
    listBody fuel element b = .error (.decode "type mismatch.") b₁ := by
  unfold listBody
  rw [bind_of_ok hhead]
  simp only [if_neg h]
  rfl

omit [FloatOps] in
theorem mapBody_unknown {κ ν : Type} [DecidableEq κ] (fuel : Nat) (key : JIn κ) (value : JIn ν)
    {hd : HeadData} {n : Nat} {b b₁ : JBuf} (hhead : readHead b = .ok (hd, n) b₁)
    (h : hd.type ≠ protoMap) :
    mapBody fuel key value b = .error (.decode "type mismatch.") b₁ := by
  unfold mapBody
  rw [bind_of_ok hhead]
  simp only [if_neg h]
  rfl

theorem primBody_unknown {p : Prim} {hd : HeadData} {n : Nat} {b b₁ : JBuf}
    (hhead : readHead b = .ok (hd, n) b₁) (h : hd.type ∉ arms (.prim p)) :
    primBody p b = .error (.decode "type mismatch.") b₁ := by
  cases p with
  | bool => exact bind_of_error (byteBody_unknown hhead h)
  | short =>
    simp only [arms, List.mem_cons, List.not_mem_nil, or_false, not_or] at h
    exact integerBody_unknown 16 hhead h.1 h.2.1 (by simp +decide [h])
  | int =>
    simp only [arms, List.mem_cons, List.not_mem_nil, or_false, not_or] at h
    exact integerBody_unknown 32 hhead h.1 h.2.1 (by simp +decide [h])
  | long =>
    simp only [arms, List.mem_cons, List.not_mem_nil, or_false, not_or] at h
    exact integerBody_unknown 64 hhead h.1 h.2.1 (by simp +decide [h])
  | float =>
    simp only [arms, List.mem_cons, List.not_mem_nil, or_false, not_or] at h
    show floatBody b = _
    unfold floatBody
    rw [bind_of_ok hhead]
    simp only [if_neg h.1, if_neg h.2]
    rfl
  | double =>
    simp only [arms, List.mem_cons, List.not_mem_nil, or_false, not_or] at h
    show doubleBody b = _
    unfold doubleBody
    rw [bind_of_ok hhead]
    simp only [if_neg h.1, if_neg h.2.1, if_neg h.2.2]
    rfl

/-- A type code without an arm is an exception. -/
theorem readBody_unknown (fuel : Nat) {t : Ty} (i : Int) {hd : HeadData} {n : Nat} {b b₁ : JBuf}
    (hhead : readHead b = .ok (hd, n) b₁) (h : hd.type ∉ arms t) :
    readBody fuel t i b = .error (.decode "type mismatch.") b₁ := by
  cases t with
  | byte => exact byteBody_unknown hhead h
  | prim p => exact primBody_unknown hhead h
  | string =>
    simp only [arms, List.mem_cons, List.not_mem_nil, or_false, not_or] at h
    unfold readBody stringBody
    rw [bind_of_ok hhead]
    simp only [if_neg h.1, if_neg h.2]
    rfl
  | bytes =>
    simp only [arms, List.mem_cons, List.not_mem_nil, or_false, not_or] at h
    unfold readBody byteArrayBody
    rw [bind_of_ok hhead]
    simp only [if_neg h.1, if_neg h.2]
    rfl
  | array p => exact listBody_unknown fuel (primBody p) hhead (by simpa [arms] using h)
  | list t => exact listBody_unknown fuel (readBody fuel t 0) hhead (by simpa [arms] using h)
  | strMap => exact mapBody_unknown fuel stringBody stringBody hhead (by simpa [arms] using h)
  | map k v =>
    exact mapBody_unknown fuel (readBody fuel k 0) (readBody fuel v 1) hhead
      (by simpa [arms] using h)
  | struct fs =>
    have hne : hd.type ≠ protoStructBegin := by simpa [arms] using h
    unfold readBody
    rw [bind_of_ok hhead]
    simp only [if_pos hne]
    rfl

end

end OCServer.Java
