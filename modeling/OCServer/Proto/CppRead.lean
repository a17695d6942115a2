import OCServer.Proto.CppIn

/-!
# `ProtoIn` on the format

What the readers of `ProtoIn` give on the bytes of the format.  A scalar is
read with its end and its tag, but an integer that was narrowed comes back
without its sign: `zeroExtended` is the value that the reader gives.  A
string with a length from 128 to 255 is not read at all, since its length
byte is negative.

`Kept` is what a value needs so that neither shows.  `read_reads` says that
a kept value is read back, and `read_misses` that every other value is not.
-/

namespace OCServer.Cpp

open BigEndian ByteIO ByteSource

/-- The bytes from the position on, while no `get` has failed. -/
instance : ByteSource IStream where
  At s l := s.fail = false ∧ s.pos ≤ s.data.length ∧ s.data.drop s.pos = l
  Same s s' := s'.data = s.data ∧ s'.seekable = s.seekable
  same_refl _ := ⟨rfl, rfl⟩
  same_trans h h' := ⟨h'.1.trans h.1, h'.2.trans h.2⟩

/-! ## The stream -/

theorem at_length {s : IStream} {l : List UInt8} (h : At s l) :
    s.pos + l.length = s.data.length := by
  obtain ⟨_, hle, hdrop⟩ := h
  rw [← hdrop, List.length_drop]
  omega

/-- A variable without a value does not matter when it is not read. -/
theorem declare_reads {α : Type} {f : UInt8 → CppIn α} {bs : List UInt8} {b : α}
    (h : ∀ a, Reads (f a) bs b) : Reads (declare >>= f) bs b :=
  fun s r hs => h (s.junk 0) { s with junk := fun i => s.junk (i + 1) } r hs

theorem getInto_reads (target b : UInt8) : Reads (getInto target) [b] b := by
  intro s r hs
  have hlen := at_length hs
  obtain ⟨hfail, hle, hdrop⟩ := hs
  rw [List.length_append, List.length_singleton] at hlen
  have hget : s.data[s.pos]? = some b := by
    rw [← List.head?_drop, hdrop]
    simp
  refine ⟨{ s with pos := s.pos + 1 }, ?_, ⟨hfail, ?_, ?_⟩, rfl, rfl⟩
  · unfold getInto
    rw [hfail, hget]
    rfl
  · show s.pos + 1 ≤ s.data.length
    omega
  · show s.data.drop (s.pos + 1) = r
    rw [← List.drop_drop, hdrop]
    simp

theorem getLoop_reads (bs : List UInt8) (a : UInt8) :
    Reads (getLoop bs.length a) bs bs := by
  induction bs generalizing a with
  | nil => exact Reads.pure []
  | cons b bs ih =>
    unfold getLoop
    exact (getInto_reads a b).bind ((ih b).then (Reads.pure _))

theorem getEach_reads (bs : List UInt8) : Reads (getEach bs.length) bs bs := by
  induction bs with
  | nil => exact Reads.pure []
  | cons b bs ih =>
    unfold getEach
    exact (getInto_reads 0 b).bind (ih.then (Reads.pure _))

theorem readInto_reads (bs : List UInt8) : Reads (readInto bs.length) bs bs := by
  intro s r hs
  have hlen := at_length hs
  obtain ⟨hfail, hle, hdrop⟩ := hs
  rw [List.length_append] at hlen
  have htake : (s.data.drop s.pos).take bs.length = bs := by rw [hdrop, List.take_left]
  refine ⟨{ s with pos := s.pos + bs.length }, ?_, ⟨hfail, ?_, ?_⟩, rfl, rfl⟩
  · unfold readInto
    rw [hfail, htake]
    simp
  · show s.pos + bs.length ≤ s.data.length
    omega
  · show s.data.drop (s.pos + bs.length) = r
    rw [← List.drop_drop, hdrop, List.drop_left]

theorem getChar_reads (b : UInt8) : Reads getChar [b] b :=
  declare_reads fun a => getInto_reads a b

/-- A number that was written in its own width. -/
theorem getNumber_reads {k w : Nat} (hk : k = 8 * w) (v : BitVec k) :
    Reads (getNumber k w) (beBytes w v.toNat) v := by
  unfold getNumber
  apply declare_reads
  intro a
  have h := getLoop_reads (beBytes w v.toNat) a
  rw [beBytes_length] at h
  refine h.then ?_
  rw [beVal_bytes hk]
  exact Reads.pure v

theorem getShort_reads (v : BitVec 16) : Reads getShort (beBytes 2 v.toNat) v := by
  unfold getShort
  apply declare_reads
  intro a
  apply declare_reads
  intro b
  have hval : BitVec.ofNat 16 (beVal (beBytes 2 v.toNat)) = v := beVal_bytes (w := 2) rfl v
  simp only [beBytes] at hval ⊢
  refine (getInto_reads a _).bind ((getInto_reads b _).then ?_)
  rw [hval]
  exact Reads.pure v

/-! ## Errors -/

theorem good_of_fail {s : IStream} (h : s.fail = true) : good s = .ok false s := by
  unfold good
  rw [h]
  rfl

theorem good_of_not_fail {s : IStream} (h : s.fail = false) : good s = .ok true s := by
  unfold good
  rw [h]
  rfl

/-- `seek` may fail, but it does not throw. -/
theorem seek_run (p : Int) (s : IStream) : ∃ s', seek p s = .ok () s' ∧ Same s s' := by
  unfold seek
  split <;> exact ⟨_, rfl, rfl, rfl⟩

/-- `readInto` gives as many bytes as it is asked for. -/
theorem readInto_run (n : Nat) (s : IStream) :
    ∃ bs s', readInto n s = .ok bs s' ∧ bs.length = n ∧ Same s s' := by
  unfold readInto
  split
  · exact ⟨_, _, rfl, List.length_replicate, rfl, rfl⟩
  · dsimp only
    split
    · exact ⟨_, _, rfl, ‹_›, rfl, rfl⟩
    · refine ⟨_, _, rfl, ?_, rfl, rfl⟩
      have hle := List.length_take_le n (s.data.drop s.pos)
      rw [List.length_append, List.length_replicate]
      omega

/-- `error` throws, whatever the state of the stream. -/
theorem error_run {α : Type} (message : String) (offset : Int) (s : IStream) :
    ∃ text s', (error message offset : CppIn α) s = .error (.protoError text) s' := by
  have hcontext : ∀ (p : Int) (f : List UInt8 → String) (t : IStream), ∃ text t',
      (readInto 30 >>= fun strbuf => seek p >>= fun _ => throw (.protoError (f strbuf)) :
        CppIn α) t = .error (.protoError text) t' := by
    intro p f t
    obtain ⟨bs, t₁, hrun₁, -, -⟩ := readInto_run 30 t
    obtain ⟨t₂, hrun₂, -⟩ := seek_run p t₁
    rw [bind_of_ok hrun₁, bind_of_ok hrun₂]
    exact ⟨_, _, rfl⟩
  have htell : ∃ p, tell s = .ok p s := ⟨_, rfl⟩
  obtain ⟨p, htell⟩ := htell
  unfold error
  rw [bind_of_ok (show good s = .ok (!s.fail) s from rfl)]
  split
  · exact ⟨message, s, bind_of_error rfl⟩
  · show ∃ text s', (tell >>= _ : CppIn α) s = .error (.protoError text) s'
    rw [bind_of_ok htell]
    split
    · obtain ⟨t, hrun, -⟩ := seek_run (offset - 15) s
      rw [bind_of_ok hrun]
      exact hcontext p _ t
    · exact hcontext p _ s

/-- `error` at the position of the stream. -/
theorem error_tell {α : Type} (message : String) (s : IStream) :
    ∃ text s', (tell >>= fun offset => error message offset : CppIn α) s =
      .error (.protoError text) s' := by
  obtain ⟨p, htell⟩ : ∃ p, tell s = .ok p s := ⟨_, rfl⟩
  rw [bind_of_ok htell]
  exact error_run message p s

/-! ## Headers -/

theorem readHead_reads {type : UInt8} (htype : type.toNat < 16) (tag : UInt8) :
    Reads readHead (encHead type tag) ⟨type, tag, (encHead type tag).length⟩ := by
  unfold readHead
  rcases encHead_cases htype tag with ⟨b, henc, ht, hg, hne⟩ | ⟨b, henc, ht, hg, hle⟩
  · rw [henc]
    refine (getInto_reads 0 b).then ?_
    rw [hg, ht, if_neg hne]
    exact Reads.pure _
  · rw [henc, show [b, tag] = [b] ++ [tag] from rfl]
    refine (getInto_reads 0 b).bind ?_
    rw [hg, ht, if_pos rfl]
    exact (getInto_reads b tag).then (Reads.pure _)

/-! ## Integers -/

/-- What `readInteger` gives for `n`: the narrow bits without their sign. -/
def zeroExtended (k : Nat) (n : Int) : BitVec k :=
  if n = 0 then 0
  else if -128 ≤ n ∧ n < 128 then (BitVec.ofInt 8 n).setWidth k
  else if -32768 ≤ n ∧ n < 32768 then (BitVec.ofInt 16 n).setWidth k
  else if -2147483648 ≤ n ∧ n < 2147483648 then (BitVec.ofInt 32 n).setWidth k
  else (BitVec.ofInt 64 n).setWidth k

/-- A reader of integers accepts every width that the value needs. -/
theorem readInteger_reads (k : Nat) (name stop : String) (widest tag : UInt8) (n : Int)
    (hshort : ¬(-128 ≤ n ∧ n < 128) → protoShort ≤ widest)
    (hint : ¬(-32768 ≤ n ∧ n < 32768) → protoInt ≤ widest)
    (hlong : ¬(-2147483648 ≤ n ∧ n < 2147483648) → protoLong ≤ widest) :
    Reads (readInteger k name widest stop) (encInt tag n) (zeroExtended k n, tag) := by
  unfold encInt zeroExtended readInteger
  split
  · exact (readHead_reads (by decide) tag).then (Reads.pure _)
  · split
    · refine (readHead_reads (by decide) tag).bind ?_
      rw [show beBytes 1 (BitVec.ofInt 8 n).toNat = [UInt8.ofBitVec (BitVec.ofInt 8 n)] from
        beBytes_one _]
      exact (getChar_reads _).then (Reads.pure _)
    · next hrange =>
      have hw := hshort hrange
      split
      · refine (readHead_reads (by decide) tag).bind ?_
        simp only [hw]
        exact (getShort_reads (BitVec.ofInt 16 n)).then (Reads.pure _)
      · next hrange =>
        have hw := hint hrange
        split
        · refine (readHead_reads (by decide) tag).bind ?_
          simp only [hw]
          exact (getNumber_reads (k := 32) (w := 4) rfl _).then (Reads.pure _)
        · next hrange =>
          have hw := hlong hrange
          refine (readHead_reads (by decide) tag).bind ?_
          simp only [hw]
          exact (getNumber_reads (k := 64) (w := 8) rfl _).then (Reads.pure _)

/-- A narrowed value comes back unless it is negative. -/
theorem zeroExtended_eq_short (v : BitVec 16) :
    zeroExtended 16 v.toInt = v ↔ 0 ≤ v.toInt ∨ v.toInt < -128 := by
  have hlo := BitVec.le_toInt (x := v)
  have hhi := BitVec.toInt_lt (x := v)
  unfold zeroExtended
  split
  · next h =>
    have hv : v = 0 := BitVec.eq_of_toInt_eq h
    simp [hv]
  · split
    · rw [widen_ofInt_eq v (by omega) (by omega)]
      omega
    · rw [if_pos (by omega), BitVec.ofInt_toInt, BitVec.setWidth_eq]
      simp only [true_iff]
      omega

theorem zeroExtended_eq_int (v : BitVec 32) :
    zeroExtended 32 v.toInt = v ↔ 0 ≤ v.toInt ∨ v.toInt < -32768 := by
  have hlo := BitVec.le_toInt (x := v)
  have hhi := BitVec.toInt_lt (x := v)
  unfold zeroExtended
  split
  · next h =>
    have hv : v = 0 := BitVec.eq_of_toInt_eq h
    simp [hv]
  · split
    · rw [widen_ofInt_eq v (by omega) (by omega)]
      omega
    · split
      · rw [widen_ofInt_eq v (by omega) (by omega)]
        omega
      · rw [if_pos (by omega), BitVec.ofInt_toInt, BitVec.setWidth_eq]
        simp only [true_iff]
        omega

theorem zeroExtended_eq_long (v : BitVec 64) :
    zeroExtended 64 v.toInt = v ↔ 0 ≤ v.toInt ∨ v.toInt < -2147483648 := by
  unfold zeroExtended
  split
  · next h =>
    have hv : v = 0 := BitVec.eq_of_toInt_eq h
    simp [hv]
  · split
    · rw [widen_ofInt_eq v (by omega) (by omega)]
      omega
    · split
      · rw [widen_ofInt_eq v (by omega) (by omega)]
        omega
      · split
        · rw [widen_ofInt_eq v (by omega) (by omega)]
          omega
        · rw [BitVec.ofInt_toInt, BitVec.setWidth_eq]
          simp only [true_iff]
          omega

/-- A `char` is never narrowed. -/
theorem zeroExtended_byte (v : BitVec 8) : zeroExtended 8 v.toInt = v := by
  have hlo := BitVec.le_toInt (x := v)
  have hhi := BitVec.toInt_lt (x := v)
  unfold zeroExtended
  split
  · next h => exact (BitVec.eq_of_toInt_eq h).symm
  · rw [if_pos (by omega), BitVec.ofInt_toInt, BitVec.setWidth_eq]

theorem readChar_reads (tag : UInt8) (v : BitVec 8) :
    Reads readChar (encInt tag v.toInt) (v, tag) := by
  have hlo := BitVec.le_toInt (x := v)
  have hhi := BitVec.toInt_lt (x := v)
  have h := readInteger_reads 8 "char" " ." protoByte tag v.toInt (by omega) (by omega) (by omega)
  rwa [zeroExtended_byte] at h

/-- `read( int & )` on the size of a container. -/
theorem readInt_size {n : Nat} (hn : n < 2 ^ 31) :
    Reads readInt (encSize n) (BitVec.ofNat 32 n, 0) := by
  have hint : (BitVec.ofNat 32 n).toInt = n := toInt_size hn
  have h := readInteger_reads 32 "int" " ." protoInt 0 (BitVec.ofNat 32 n).toInt
    (fun _ => by decide) (fun _ => by decide) (by omega)
  rwa [(zeroExtended_eq_int _).mpr (Or.inl (by omega))] at h

/-- What the readers of scalars give for `v`. -/
def primRead : (p : Prim) → PrimVal p → PrimVal p
  | .short, v => zeroExtended 16 v.toInt
  | .int, v => zeroExtended 32 v.toInt
  | .long, v => zeroExtended 64 v.toInt
  | .bool, v => v
  | .float, v => v
  | .double, v => v

/-- The scalars that come back: no negative value in a width that was
narrowed. -/
def KeptPrim : (p : Prim) → PrimVal p → Prop
  | .short, v => 0 ≤ v.toInt ∨ v.toInt < -128
  | .int, v => 0 ≤ v.toInt ∨ v.toInt < -32768
  | .long, v => 0 ≤ v.toInt ∨ v.toInt < -2147483648
  | .bool, _ => True
  | .float, _ => True
  | .double, _ => True

theorem primRead_eq (p : Prim) (v : PrimVal p) : primRead p v = v ↔ KeptPrim p v := by
  cases p with
  | short => exact zeroExtended_eq_short v
  | int => exact zeroExtended_eq_int v
  | long => exact zeroExtended_eq_long v
  | _ => simp [primRead, KeptPrim]

/-- Every scalar is read with its end. -/
theorem readPrim_reads [FloatOps] (tag : UInt8) (p : Prim) (v : PrimVal p) :
    ∃ c, Reads (readPrim p) (encPrim tag p v) (primRead p v, c) := by
  cases p with
  | bool =>
    have hchar := readChar_reads tag (if v then 1 else 0)
    refine ⟨1, ?_⟩
    unfold readPrim readBool encPrim
    cases v <;> exact hchar.then (Reads.pure _)
  | short =>
    have hlo := BitVec.le_toInt (x := v)
    have hhi := BitVec.toInt_lt (x := v)
    exact ⟨tag, readInteger_reads 16 _ _ protoShort tag v.toInt (fun _ => by decide)
      (by omega) (by omega)⟩
  | int =>
    have hlo := BitVec.le_toInt (x := v)
    have hhi := BitVec.toInt_lt (x := v)
    exact ⟨tag, readInteger_reads 32 _ _ protoInt tag v.toInt (fun _ => by decide)
      (fun _ => by decide) (by omega)⟩
  | long =>
    exact ⟨tag, readInteger_reads 64 _ _ protoLong tag v.toInt (fun _ => by decide)
      (fun _ => by decide) (fun _ => by decide)⟩
  | float =>
    refine ⟨tag, ?_⟩
    unfold readPrim readFloat encPrim
    refine (readHead_reads (by decide) tag).bind ?_
    exact (getNumber_reads (k := 32) (w := 4) rfl v).then (Reads.pure _)
  | double =>
    refine ⟨tag, ?_⟩
    unfold readPrim readDouble encPrim
    refine (readHead_reads (by decide) tag).bind ?_
    exact (getNumber_reads (k := 64) (w := 8) rfl v).then (Reads.pure _)

/-! ## Strings -/

/-- The strings whose length is not a negative `char`. -/
def KeptString (s : List UInt8) : Prop := s.length < 128 ∨ 255 < s.length

theorem readContent_reads {len : BitVec 32} {s : List UInt8} (tag : UInt8)
    (hlen : len.toInt = s.length) (hs : s.length ≤ protoMaxStringLength) :
    Reads (readContent len tag) s (s, tag) := by
  have hmax : s.length ≤ 104857600 := hs
  unfold readContent getString
  simp only [hlen, Int.toNat_natCast]
  rw [if_neg (by omega), if_neg (by omega)]
  exact (readInto_reads s).then (Reads.pure _)

/-- A negative length is not caught. -/
theorem readContent_negative {len : BitVec 32} (hlen : len.toInt < 0) (tag : UInt8)
    (s : IStream) : readContent len tag s = .error .lengthError s := by
  unfold readContent getString
  rw [if_neg (by show ¬len.toInt > 104857600; omega), if_pos hlen]
  rfl

/-- The length byte of a short string as the reader takes it. -/
theorem toInt_lengthByte (b : UInt8) :
    (b.toBitVec.signExtend 32).toInt =
      if b.toNat < 128 then (b.toNat : Int) else b.toNat - 256 := by
  rw [BitVec.toInt_signExtend_of_le (by decide), BitVec.toInt_eq_toNat_cond]
  show (if 2 * b.toNat < 2 ^ 8 then (b.toNat : Int) else b.toNat - 2 ^ 8) = _
  split <;> split <;> omega

/-- The length byte that was written. -/
theorem toNat_lengthByte {n : Nat} (hn : n < 256) : (UInt8.ofNat n).toNat = n :=
  UInt8.toNat_ofNat_of_lt' hn

theorem readString_reads [FloatOps] (tag : UInt8) {s : List UInt8}
    (hs : s.length ≤ protoMaxStringLength) (hkept : KeptString s) :
    Reads readString (encString tag s) (s, tag) := by
  have hmax : s.length ≤ 104857600 := hs
  unfold encString readString
  split
  · rw [List.append_assoc]
    refine (readHead_reads (by decide) tag).bind ?_
    have hpow : s.length < 256 ^ 4 := by omega
    have h := getEach_reads (beBytes 4 s.length)
    rw [beBytes_length] at h
    refine h.bind ?_
    rw [beVal_beBytes_of_lt hpow]
    exact readContent_reads tag (toInt_size (by omega)) hs
  · next hle =>
    rw [List.append_assoc]
    refine (readHead_reads (by decide) tag).bind ?_
    have hlt : s.length < 128 := by
      rcases hkept with h | h <;> omega
    have hbyte : beBytes 1 s.length = [UInt8.ofNat s.length] := by simp [beBytes]
    rw [hbyte]
    apply declare_reads
    intro a
    refine (getInto_reads a _).bind ?_
    refine readContent_reads tag ?_ hs
    rw [toInt_lengthByte, toNat_lengthByte (by omega), if_pos hlt]

theorem readString_misses [FloatOps] (tag : UInt8) {s : List UInt8} (hkept : ¬KeptString s)
    (P : List UInt8 × UInt8 → Prop) : Misses readString (encString tag s) P := by
  unfold KeptString at hkept
  have hlo : ¬s.length < 128 := fun h => hkept (Or.inl h)
  have hhi : ¬255 < s.length := fun h => hkept (Or.inr h)
  unfold encString readString
  rw [if_neg hhi, List.append_assoc]
  refine (readHead_reads (by decide) tag).bind_misses ?_
  have hbyte : beBytes 1 s.length = [UInt8.ofNat s.length] := by simp [beBytes]
  rw [hbyte]
  refine (getChar_reads _).bind_misses ?_
  apply Misses.of_error
  intro s' r _
  refine ⟨.lengthError, s', readContent_negative ?_ tag s'⟩
  rw [toInt_lengthByte, toNat_lengthByte (by omega), if_neg hlo]
  omega

/-! ## Containers -/

/-- A `byte[]` is read as a `std::vector<char>`. -/
theorem readChars_reads (tag : UInt8) {bytes : List UInt8} (hsize : bytes.length < 2 ^ 31) :
    Reads readChars
      (encHead protoSimpleList tag ++ encHead protoByte 0 ++ encSize bytes.length ++ bytes)
      (bytes, tag) := by
  unfold readChars
  rw [List.append_assoc, List.append_assoc]
  refine (readHead_reads (by decide) tag).bind ?_
  refine (readHead_reads (by decide) 0).bind ?_
  refine (readInt_size hsize).bind ?_
  apply declare_reads
  intro a
  simp only [toInt_size hsize, Int.toNat_natCast]
  exact (getLoop_reads bytes a).then (Reads.pure _)

/-- The header and the size of a vector. -/
theorem readVector_reads {α : Type} {element : CppIn α} (tag : UInt8) {n : Nat}
    (hsize : n < 2 ^ 31) {bs : List UInt8} {vs : List α} (h : Reads (repeatM element n) bs vs) :
    Reads (readVector element) (encHead protoList tag ++ encSize n ++ bs) vs := by
  unfold readVector
  rw [List.append_assoc]
  refine (readHead_reads (by decide) tag).bind ?_
  refine (readInt_size hsize).bind ?_
  simp only [toInt_size hsize, Int.toNat_natCast]
  rw [if_neg (by omega)]
  exact h

theorem readVector_misses {α : Type} {element : CppIn α} (tag : UInt8) {n : Nat}
    (hsize : n < 2 ^ 31) {bs : List UInt8} {P : List α → Prop}
    (h : Misses (repeatM element n) bs P) :
    Misses (readVector element) (encHead protoList tag ++ encSize n ++ bs) P := by
  unfold readVector
  rw [List.append_assoc]
  refine (readHead_reads (by decide) tag).bind_misses ?_
  refine (readInt_size hsize).bind_misses ?_
  simp only [toInt_size hsize, Int.toNat_natCast]
  rw [if_neg (by omega)]
  exact h

/-- The overload for a vector, whose elements all come back. -/
theorem vector_reads {α : Type} {m : CppIn (α × UInt8)} {encElem : α → List UInt8}
    (tag : UInt8) {vs : List α} (hsize : vs.length < 2 ^ 31)
    (h : ∀ v ∈ vs, ∃ c, Reads m (encElem v) (v, c)) :
    Reads (do
        let v ← readVector (Prod.fst <$> m)
        pure (v, (1 : UInt8)))
      (encHead protoList tag ++ encSize vs.length ++ vs.flatMap encElem) (vs, 1) := by
  refine (readVector_reads tag hsize (Reads.repeatM vs fun v hv => ?_)).then (Reads.pure _)
  obtain ⟨c, hv⟩ := h v hv
  exact hv.map Prod.fst

/-- The overload for a vector, with an element that does not come back. -/
theorem vector_misses {α : Type} {m : CppIn (α × UInt8)} {encElem : α → List UInt8}
    {good : α → Prop} (tag : UInt8) {vs : List α} (hsize : vs.length < 2 ^ 31)
    (hgood : ∀ v ∈ vs, good v → ∃ c, Reads m (encElem v) (v, c))
    (hbad : ∀ v ∈ vs, ¬good v → Misses m (encElem v) fun p => p.1 = v)
    (h : ¬∀ v ∈ vs, good v) :
    Misses (do
        let v ← readVector (Prod.fst <$> m)
        pure (v, (1 : UInt8)))
      (encHead protoList tag ++ encSize vs.length ++ vs.flatMap encElem) fun p => p.1 = vs := by
  have hloop : Misses (repeatM (Prod.fst <$> m) vs.length) (vs.flatMap encElem) (· = vs) := by
    refine Misses.repeatM (g := id) (P := fun v w => w = v) (Q := fun l l' => l' = l)
      (by simp) vs ?_ ?_ h
    · intro v hv hkept
      obtain ⟨c, hread⟩ := hgood v hv hkept
      exact hread.map Prod.fst
    · intro v hv hkept
      exact (hbad v hv hkept).map Prod.fst
  have hbind := (readVector_misses tag hsize hloop).bind (f := fun v => pure (v, (1 : UInt8)))
    (Q := fun p => p.1 = vs) (fun _ _ _ _ hrun heq => by cases hrun; exact heq) []
  rwa [List.append_nil] at hbind

/-- A vector of `char` reads an empty list. -/
theorem readChars_nil_reads (tag : UInt8) :
    Reads readChars (encHead protoList tag ++ encSize 0) ([], tag) := by
  unfold readChars
  refine (readHead_reads (by decide) tag).bind ?_
  refine (readInt_size (by decide)).then ?_
  exact declare_reads fun _ => Reads.pure _

/-- The first byte of a `byte` field is not the byte. -/
theorem encInt_first (v : BitVec 8) :
    ∃ b rest, encInt 0 v.toInt = b :: rest ∧ b.toBitVec ≠ v := by
  have hlo := BitVec.le_toInt (x := v)
  have hhi := BitVec.toInt_lt (x := v)
  unfold encInt
  split
  · next h =>
    have hv : v = 0 := BitVec.eq_of_toInt_eq h
    exact ⟨0x0C, [], rfl, by rw [hv]; decide⟩
  · next h =>
    rw [if_pos (by omega)]
    refine ⟨0, _, rfl, fun hv => h ?_⟩
    rw [← hv]
    rfl

/-- A vector of `char` does not read a list of bytes: it takes the header of
the first element for the element. -/
theorem readChars_list_misses (tag : UInt8) {vs : List (BitVec 8)} (hne : vs ≠ [])
    (hsize : vs.length < 2 ^ 31) :
    Misses readChars
      (encHead protoList tag ++ encSize vs.length ++ vs.flatMap fun v => encInt 0 v.toInt)
      fun p => p.1.map UInt8.toBitVec = vs := by
  unfold readChars
  rw [List.append_assoc]
  refine (readHead_reads (by decide) tag).bind_misses ?_
  refine (readInt_size hsize).bind_misses ?_
  simp only [toInt_size hsize, Int.toNat_natCast]
  cases vs with
  | nil => exact absurd rfl hne
  | cons v vs =>
    obtain ⟨b, rest, henc, hb⟩ := encInt_first v
    rw [List.flatMap_cons, henc]
    intro s r p s' hs hrun hp
    obtain ⟨a, s₁, hdecl, hrun⟩ := bind_eq_ok hrun
    cases hdecl
    obtain ⟨bl, s₂, hloop, hpure⟩ := bind_eq_ok hrun
    cases hpure
    obtain ⟨b', s₃, hget, hloop⟩ := bind_eq_ok hloop
    obtain ⟨bl, s₄, _, hpure⟩ := bind_eq_ok hloop
    cases hpure
    -- the first byte goes into the vector as it is
    obtain ⟨s₅, hget', _⟩ := getInto_reads (s.junk 0) b
      { s with junk := fun i => s.junk (i + 1) }
      (rest ++ (vs.flatMap fun v => encInt 0 v.toInt) ++ r) hs
    rw [hget'] at hget
    cases hget
    rw [List.map_cons, List.cons.injEq] at hp
    exact hb hp.1

/-- The header and the size of a map, and its entries. -/
theorem readMap_reads {κ ν : Type} [DecidableEq κ] {key : CppIn (κ × UInt8)}
    {value : CppIn (ν × UInt8)} {encKey : κ → List UInt8} {encValue : ν → List UInt8}
    (tag : UInt8) {m : List (κ × ν)} (hsize : m.length < 2 ^ 31)
    (hnodup : (m.map Prod.fst).Nodup)
    (h : ∀ e ∈ m, Reads key (encKey e.1) (e.1, 0) ∧ Reads value (encValue e.2) (e.2, 1)) :
    Reads (readMap key value)
      (encHead protoMap tag ++ encSize m.length ++
        m.flatMap fun e => encKey e.1 ++ encValue e.2) (m, tag) := by
  unfold readMap
  rw [List.append_assoc]
  refine (readHead_reads (by decide) tag).bind ?_
  refine (readInt_size hsize).bind ?_
  simp only [toInt_size hsize, Int.toNat_natCast]
  have hentries : Reads (repeatM (readEntry key value) m.length)
      (m.flatMap fun e => encKey e.1 ++ encValue e.2) (m.map some) := by
    apply Reads.repeatM_map
    intro e he
    exact (h e he).1.bind ((h e he).2.then (Reads.pure _))
  refine hentries.then ?_
  have hput : putEntries (m.map some) = m := by
    unfold putEntries
    rw [List.filterMap_map, show id ∘ (some : κ × ν → Option (κ × ν)) = some from rfl,
      List.filterMap_some]
    exact foldl_mapPut m [] (by simpa using hnodup)
  rw [hput]
  exact Reads.pure _

/-- A map with an entry that throws. -/
theorem readMap_misses {κ ν : Type} [DecidableEq κ] {key : CppIn (κ × UInt8)}
    {value : CppIn (ν × UInt8)} {enc : κ × ν → List UInt8} {good : κ × ν → Prop}
    (tag : UInt8) {m : List (κ × ν)} (hsize : m.length < 2 ^ 31)
    (hgood : ∀ e ∈ m, good e → Reads (readEntry key value) (enc e) (some e))
    (hbad : ∀ e ∈ m, ¬good e → Misses (readEntry key value) (enc e) fun _ => True)
    (h : ¬∀ e ∈ m, good e) (P : List (κ × ν) × UInt8 → Prop) :
    Misses (readMap key value) (encHead protoMap tag ++ encSize m.length ++ m.flatMap enc) P := by
  unfold readMap
  rw [List.append_assoc]
  refine (readHead_reads (by decide) tag).bind_misses ?_
  refine (readInt_size hsize).bind_misses ?_
  simp only [toInt_size hsize, Int.toNat_natCast]
  have hentries : Misses (repeatM (readEntry key value) m.length) (m.flatMap enc)
      fun _ => True :=
    Misses.repeatM (P := fun _ _ => True) (Q := fun _ _ => True)
      (fun _ _ _ _ _ => ⟨trivial, trivial⟩) m hgood hbad h
  have hbind := hentries.bind (f := fun entries => pure (putEntries entries, tag)) (Q := P)
    (fun _ _ _ _ _ _ => trivial) []
  rwa [List.append_nil] at hbind

/-- The header that ends a struct. -/
theorem skipToStructEnd_reads (fuel : Nat) (tag : UInt8) :
    Reads (skipToStructEnd (fuel + 2)) (encHead protoStructEnd tag) () := by
  unfold skipToStructEnd
  refine (readHead_reads (by decide) tag).then ?_
  unfold skipField
  exact Reads.pure _

/-! ## Values -/

mutual

/-- The types that both languages exchange: every map is a string map. -/
def Shared : Ty → Prop
  | .list t => Shared t
  | .map _ _ => False
  | .struct fs => SharedFields fs
  | _ => True

def SharedFields : Fields → Prop
  | .nil => True
  | .cons _ t fs => Shared t ∧ SharedFields fs

end

mutual

/-- The values that come back: no integer that was narrowed to a width in
which it is negative, no string with a length from 128 to 255, and no list
of bytes but the empty one. -/
def Kept : (t : Ty) → Val t → Prop
  | .byte, _ => True
  | .prim p, v => KeptPrim p v
  | .string, s => KeptString s
  | .bytes, _ => True
  | .array p, vs => ∀ v ∈ vs, KeptPrim p v
  | .list .byte, vs => vs = []
  | .list t, vs => ∀ v ∈ vs, Kept t v
  | .strMap, m => ∀ e ∈ m, KeptString e.1 ∧ KeptString e.2
  | .map k v, m => ∀ e ∈ m, Kept k e.1 ∧ Kept v e.2
  | .struct fs, v => KeptFields fs v

def KeptFields : (fs : Fields) → FieldVals fs → Prop
  | .nil, _ => True
  | .cons _ t fs, v => Kept t v.1 ∧ KeptFields fs v.2

end

theorem kept_list {t : Ty} (ht : t ≠ .byte) (vs : List (Val t)) :
    Kept (.list t) vs ↔ ∀ v ∈ vs, Kept t v := by
  cases t with
  | byte => exact absurd rfl ht
  | _ => rfl

section

variable [FloatOps] (fuel : Nat)

theorem read_list {t : Ty} (ht : t ≠ .byte) :
    read fuel (.list t) = (do
      let v ← readVector (Prod.fst <$> read fuel t)
      pure (v, 1)) := by
  cases t with
  | byte => exact absurd rfl ht
  | _ => rfl

/-- A string map whose strings come back. -/
theorem readEntry_strings {e : List UInt8 × List UInt8}
    (hok : e.1.length ≤ protoMaxStringLength ∧ e.2.length ≤ protoMaxStringLength) :
    (KeptString e.1 ∧ KeptString e.2 →
      Reads (readEntry readString readString) (encString 0 e.1 ++ encString 1 e.2) (some e)) ∧
    (¬(KeptString e.1 ∧ KeptString e.2) →
      Misses (readEntry readString readString) (encString 0 e.1 ++ encString 1 e.2)
        fun _ => True) := by
  unfold readEntry
  constructor
  · intro h
    rcases h with ⟨hk, hv⟩
    refine (readString_reads 0 hok.1 hk).bind ?_
    exact (readString_reads 1 hok.2 hv).then (Reads.pure _)
  · intro hbad
    by_cases hk : KeptString e.1
    · have hv : ¬KeptString e.2 := fun hv => hbad ⟨hk, hv⟩
      refine (readString_reads 0 hok.1 hk).bind_misses ?_
      have h := (readString_misses 1 hv fun _ => True).bind
        (f := fun p => pure (if p.2 = 1 then some (e.1, p.1) else none))
        (Q := fun _ => True) (fun _ _ _ _ _ _ => trivial) []
      rwa [List.append_nil] at h
    · exact (readString_misses 0 hk fun _ => True).bind (fun _ _ _ _ _ _ => trivial) _

mutual

/-- A kept value is read back. -/
theorem read_reads (endTag : UInt8 → UInt8) : ∀ (t : Ty) (tag : UInt8) (v : Val t),
    Shared t → Ok t v → (enc endTag t tag v).length < 2 ^ 31 → Kept t v →
    ∃ c, Reads (read (fuel + 2) t) (enc endTag t tag v) (v, c)
  | .byte, tag, v, _, _, _, _ => ⟨tag, readChar_reads tag v⟩
  | .prim p, tag, v, _, _, _, hkept => by
    obtain ⟨c, h⟩ := readPrim_reads tag p v
    rw [(primRead_eq p v).mpr hkept] at h
    exact ⟨c, h⟩
  | .string, tag, _, _, hok, _, hkept => ⟨tag, readString_reads tag hok hkept⟩
  | .bytes, tag, v, _, _, hlen, _ => by
    unfold enc at hlen
    rw [List.length_append] at hlen
    exact ⟨tag, readChars_reads tag (by omega)⟩
  | .array p, tag, vs, _, _, hlen, hkept => by
    have hle := length_le_flatMap (encPrim_length_pos 0 p) vs
    unfold enc at hlen
    rw [List.length_append] at hlen
    refine ⟨1, vector_reads tag (by omega) fun v hv => ?_⟩
    obtain ⟨c, h⟩ := readPrim_reads 0 p v
    rw [(primRead_eq p v).mpr (hkept v hv)] at h
    exact ⟨c, h⟩
  | .list t, tag, vs, hshared, hok, hlen, hkept => by
    have hle := length_le_flatMap (enc_length_pos endTag t 0) vs
    unfold enc at hlen ⊢
    rw [List.length_append] at hlen
    by_cases ht : t = .byte
    · subst ht
      have hnil : vs = [] := hkept
      subst hnil
      rw [List.flatMap_nil, List.append_nil]
      exact ⟨tag, (readChars_nil_reads tag).then (Reads.pure _)⟩
    · rw [read_list _ ht]
      refine ⟨1, vector_reads tag (by omega) fun v hv => ?_⟩
      have hv' := length_le_of_mem (enc endTag t 0) hv
      exact read_reads endTag t 0 v hshared (hok v hv) (by omega)
        ((kept_list ht vs).mp hkept v hv)
  | .strMap, tag, m, _, hok, hlen, hkept => by
    have hle := length_le_flatMap
      (f := fun e : List UInt8 × List UInt8 => encString 0 e.1 ++ encString 1 e.2)
      (fun e => by have := encString_length_pos 0 e.1; rw [List.length_append]; omega) m
    unfold enc at hlen
    rw [List.length_append] at hlen
    exact ⟨tag, readMap_reads tag (by omega) hok.1 fun e he =>
      ⟨readString_reads 0 (hok.2 e he).1 (hkept e he).1,
        readString_reads 1 (hok.2 e he).2 (hkept e he).2⟩⟩
  | .struct fs, tag, v, hshared, hok, hlen, hkept => by
    unfold enc at hlen ⊢
    unfold read
    rw [List.length_append, List.length_append] at hlen
    rw [List.append_assoc]
    refine ⟨0, (readHead_reads (by decide) tag).bind ?_⟩
    refine (readFrom_reads endTag fs v hshared hok (by omega) hkept).bind ?_
    exact (skipToStructEnd_reads fuel (endTag tag)).then (Reads.pure _)

theorem readFrom_reads (endTag : UInt8 → UInt8) : ∀ (fs : Fields) (v : FieldVals fs),
    SharedFields fs → OkFields fs v → (encFields endTag fs v).length < 2 ^ 31 →
    KeptFields fs v → Reads (readFrom (fuel + 2) fs) (encFields endTag fs v) v
  | .nil, v, _, _, _, _ => Reads.pure v
  | .cons tag t fs, v, hshared, hok, hlen, hkept => by
    unfold encFields at hlen ⊢
    unfold readFrom
    rw [List.length_append] at hlen
    obtain ⟨c, h⟩ := read_reads endTag t tag v.1 hshared.1 hok.1 (by omega) hkept.1
    refine h.bind ?_
    exact (readFrom_reads endTag fs v.2 hshared.2 hok.2 (by omega) hkept.2).then (Reads.pure v)

end

mutual

/-- A value that is not kept is not read back. -/
theorem read_misses (endTag : UInt8 → UInt8) : ∀ (t : Ty) (tag : UInt8) (v : Val t),
    Shared t → Ok t v → (enc endTag t tag v).length < 2 ^ 31 → ¬Kept t v →
    Misses (read (fuel + 2) t) (enc endTag t tag v) fun p => p.1 = v
  | .byte, _, _, _, _, _, hbad => absurd trivial hbad
  | .prim p, tag, v, _, _, _, hbad => by
    obtain ⟨c, h⟩ := readPrim_reads tag p v
    exact h.misses fun heq => hbad ((primRead_eq p v).mp heq)
  | .string, tag, _, _, _, _, hbad => readString_misses tag hbad _
  | .bytes, _, _, _, _, _, hbad => absurd trivial hbad
  | .array p, tag, vs, _, _, hlen, hbad => by
    have hle := length_le_flatMap (encPrim_length_pos 0 p) vs
    unfold enc at hlen
    rw [List.length_append] at hlen
    refine vector_misses tag (by omega) ?_ ?_ hbad
    · intro v _ hv
      obtain ⟨c, h⟩ := readPrim_reads 0 p v
      rw [(primRead_eq p v).mpr hv] at h
      exact ⟨c, h⟩
    · intro v _ hv
      obtain ⟨c, h⟩ := readPrim_reads 0 p v
      exact h.misses fun heq => hv ((primRead_eq p v).mp heq)
  | .list t, tag, vs, hshared, hok, hlen, hbad => by
    have hle := length_le_flatMap (enc_length_pos endTag t 0) vs
    unfold enc at hlen ⊢
    rw [List.length_append] at hlen
    by_cases ht : t = .byte
    · subst ht
      have h := (readChars_list_misses tag (fun hnil => hbad hnil) (by omega)).bind
        (f := fun p => pure (p.1.map UInt8.toBitVec, p.2)) (Q := fun p => p.1 = vs)
        (fun _ _ _ _ hrun heq => by cases hrun; exact heq) []
      rwa [List.append_nil] at h
    · rw [read_list _ ht]
      refine vector_misses tag (by omega) ?_ ?_ fun h => hbad ((kept_list ht vs).mpr h)
      · intro v hv
        have hv' := length_le_of_mem (enc endTag t 0) hv
        exact read_reads fuel endTag t 0 v hshared (hok v hv) (by omega)
      · intro v hv
        have hv' := length_le_of_mem (enc endTag t 0) hv
        exact read_misses endTag t 0 v hshared (hok v hv) (by omega)
  | .strMap, tag, m, _, hok, hlen, hbad => by
    have hle := length_le_flatMap
      (f := fun e : List UInt8 × List UInt8 => encString 0 e.1 ++ encString 1 e.2)
      (fun e => by have := encString_length_pos 0 e.1; rw [List.length_append]; omega) m
    unfold enc at hlen
    rw [List.length_append] at hlen
    exact readMap_misses tag (by omega)
      (fun e he => (readEntry_strings (hok.2 e he)).1)
      (fun e he => (readEntry_strings (hok.2 e he)).2) hbad _
  | .struct fs, tag, v, hshared, hok, hlen, hbad => by
    unfold enc at hlen ⊢
    unfold read
    rw [List.length_append, List.length_append] at hlen
    rw [List.append_assoc]
    refine (readHead_reads (by decide) tag).bind_misses ?_
    refine (readFrom_misses endTag fs v hshared hok (by omega) hbad).bind ?_ _
    intro v' s p s' hrun heq
    obtain ⟨_, _, _, hpure⟩ := bind_eq_ok hrun
    cases hpure
    exact heq

theorem readFrom_misses (endTag : UInt8 → UInt8) : ∀ (fs : Fields) (v : FieldVals fs),
    SharedFields fs → OkFields fs v → (encFields endTag fs v).length < 2 ^ 31 →
    ¬KeptFields fs v → Misses (readFrom (fuel + 2) fs) (encFields endTag fs v) (· = v)
  | .nil, _, _, _, _, hbad => absurd trivial hbad
  | .cons tag t fs, v, hshared, hok, hlen, hbad => by
    unfold encFields at hlen ⊢
    unfold readFrom
    rw [List.length_append] at hlen
    by_cases hkept : Kept t v.1
    · have hrest : ¬KeptFields fs v.2 := fun h => hbad ⟨hkept, h⟩
      obtain ⟨c, h⟩ := read_reads fuel endTag t tag v.1 hshared.1 hok.1 (by omega) hkept
      refine h.bind_misses ?_
      have hmiss := (readFrom_misses endTag fs v.2 hshared.2 hok.2 (by omega) hrest).bind
        (f := fun vs => pure (v.1, vs)) (Q := (· = v))
        (fun _ _ _ _ hrun heq => by cases hrun; exact congrArg Prod.snd heq) []
      rwa [List.append_nil] at hmiss
    · refine (read_misses endTag t tag v.1 hshared.1 hok.1 (by omega) hkept).bind ?_ _
      intro p s vs s' hrun heq
      obtain ⟨_, _, _, hpure⟩ := bind_eq_ok hrun
      cases hpure
      exact congrArg Prod.fst heq

end

end

end OCServer.Cpp
