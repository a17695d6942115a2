import OCServer.Proto.CppRound

/-!
# Skipping in `ProtoIn`

`skipField` and `skipToStructEnd` on what `ProtoOut` writes, over a string
stream whose positions fit in the `int` of `tell`: `Tellable`.

A field of a scalar, a string or a `std::vector<char>` is skipped exactly.
The others are not: the size of a list and of a map is a tagged field, but
`skipField` takes the next four bytes for it, and of a struct it skips the
header only.  `Flat` tells the two apart.
-/

namespace OCServer.Cpp

open BigEndian ByteIO ByteSource

/-! ## Fields -/

/-- No lists, maps and structs. -/
def Flat : Kind → Prop
  | .byte => True
  | .prim => True
  | .string => True
  | .bytes => True
  | _ => False

mutual

/-- The sizes and tags that `ProtoOut` writes as they are. -/
def Sized : (t : Ty) → Val t → Prop
  | .byte, _ => True
  | .prim _, _ => True
  | .string, _ => True
  | .bytes, v => v.length < 256
  | .array _, vs => vs.length < 2 ^ 31
  | .list t, vs => vs.length < 2 ^ 31 ∧ ∀ v ∈ vs, Sized t v
  | .strMap, m => m.length < 2 ^ 31
  | .map k v, m => m.length < 2 ^ 31 ∧ ∀ e ∈ m, Sized k e.1 ∧ Sized v e.2
  | .struct fs, v => SizedFields fs v

def SizedFields : (fs : Fields) → FieldVals fs → Prop
  | .nil, _ => True
  | .cons tag t fs, v => tag.toNat < 128 ∧ Sized t v.1 ∧ SizedFields fs v.2

end

/-! ## Moving the position -/

/-- A string stream whose positions are `int`s. -/
def Tellable (s : IStream) : Prop := s.seekable = true ∧ s.data.length < 2 ^ 31

theorem Tellable.of_same {s s' : IStream} (hsame : Same s s') (h : Tellable s) :
    Tellable s' := by
  rcases hsame with ⟨hdata, hseek⟩
  unfold Tellable
  rw [hdata, hseek]
  exact h

/-- Where a stream stands. -/
theorem tell_eq {s : IStream} {l : List UInt8} (h : Tellable s) (hs : At s l) :
    tell s = .ok (s.pos : Int) s := by
  rcases h with ⟨hseek, hlt⟩
  rcases hs with ⟨hfail, hle, _⟩
  have hpos : (BitVec.ofNat 32 s.pos).toInt = s.pos := toInt_size (by omega)
  unfold tell
  rw [hfail, hseek, hpos]
  rfl

/-- `seek( tell() + len )` over `len` bytes. -/
theorem skip_reads (len : Int) {bs : List UInt8} (hlen : len = bs.length) :
    ReadsWhen Tellable (skip len) bs () := by
  intro s r h hs
  have htell := tell_eq h hs
  have hlength := at_length hs
  rcases hs with ⟨hfail, hle, hdrop⟩
  rw [List.length_append] at hlength
  have hpos : ((s.pos : Int) + len).toNat = s.pos + bs.length := by omega
  refine ⟨{ s with pos := s.pos + bs.length, fail := false }, ?_, ⟨rfl, ?_, ?_⟩, rfl, rfl⟩
  · unfold skip
    rw [bind_of_ok htell]
    unfold seek
    rw [if_pos ⟨h.1, by omega, by omega⟩, hpos]
  · show s.pos + bs.length ≤ s.data.length
    omega
  · show s.data.drop (s.pos + bs.length) = r
    rw [← List.drop_drop, hdrop, List.drop_left]

/-! ## Flat fields -/

/-- The bytes of a field at the tag that `skipField` skips: a header, and
what `skipField( type )` takes, without recursion. -/
def Skipped (tag : UInt8) (bs : List UInt8) : Prop :=
  ∃ type rest, type.toNat < 16 ∧ type ≠ protoStructEnd ∧ bs = encHead type tag ++ rest ∧
    (∀ fuel, skipField (fuel + 1) type = skipField 1 type) ∧
    ReadsWhen Tellable (skipField 1 type) rest ()

theorem Skipped.of_head {type tag : UInt8} {rest : List UInt8} (htype : type.toNat < 16)
    (hne : type ≠ protoStructEnd) (hflat : ∀ fuel, skipField (fuel + 1) type = skipField 1 type)
    (h : ReadsWhen Tellable (skipField 1 type) rest ()) :
    Skipped tag (encHead type tag ++ rest) := ⟨type, rest, htype, hne, rfl, hflat, h⟩

theorem skipped_int (tag : UInt8) (n : Int) : Skipped tag (encInt tag n) := by
  have hzero : Skipped tag (encHead protoZeroTag tag ++ []) := by
    refine .of_head (by decide) (by decide) (fun _ => rfl) ?_
    unfold skipField
    exact (Reads.pure ()).when _
  rw [List.append_nil] at hzero
  unfold encInt
  split
  · exact hzero
  · split
    · exact .of_head (by decide) (by decide) (fun _ => rfl) (skip_reads 1 rfl)
    · split
      · exact .of_head (by decide) (by decide) (fun _ => rfl) (skip_reads 2 rfl)
      · split
        · exact .of_head (by decide) (by decide) (fun _ => rfl) (skip_reads 4 rfl)
        · exact .of_head (by decide) (by decide) (fun _ => rfl) (skip_reads 8 rfl)

theorem skipped_prim (tag : UInt8) (p : Prim) (v : PrimVal p) :
    Skipped tag (encPrim tag p v) := by
  cases p with
  | float => exact .of_head (by decide) (by decide) (fun _ => rfl) (skip_reads 4 rfl)
  | double => exact .of_head (by decide) (by decide) (fun _ => rfl) (skip_reads 8 rfl)
  | _ => exact skipped_int tag _

/-- A reader may rely on the size of the stream. -/
theorem readsWhen_of_length {m : CppIn Unit} {bs : List UInt8}
    (h : bs.length < 2 ^ 31 → ReadsWhen Tellable m bs ()) : ReadsWhen Tellable m bs () := by
  intro s r ht hs
  have hlen := at_length hs
  rw [List.length_append] at hlen
  have hlt := ht.2
  exact h (by omega) s r ht hs

/-- The length of a string is unsigned here. -/
theorem skipped_string (tag : UInt8) (s : List UInt8) : Skipped tag (encString tag s) := by
  unfold encString
  split
  · rw [List.append_assoc]
    refine .of_head (by decide) (by decide) (fun _ => rfl) (readsWhen_of_length fun hlt => ?_)
    rw [List.length_append, beBytes_length] at hlt
    have hlen : (BitVec.ofNat 32 s.length).toInt = s.length := toInt_size (by omega)
    have hnat : (BitVec.ofNat 32 s.length).toNat = s.length := by
      rw [BitVec.toNat_ofNat]
      omega
    have hget := (getNumber_reads (k := 32) (w := 4) rfl (BitVec.ofNat 32 s.length)).when Tellable
    rw [hnat] at hget
    exact hget.bind Tellable.of_same (skip_reads _ hlen)
  · rw [List.append_assoc]
    refine .of_head (by decide) (by decide) (fun _ => rfl) ?_
    have hlen : (UInt8.ofNat s.length).toNat = s.length := toNat_lengthByte (by omega)
    have hbyte : beBytes 1 s.length = [UInt8.ofNat s.length] := by simp [beBytes]
    have hget := (getChar_reads (UInt8.ofNat s.length)).when Tellable
    rw [hbyte]
    exact hget.bind (f := fun c : UInt8 => skip c.toNat) Tellable.of_same
      (skip_reads _ (congrArg Nat.cast hlen))

/-- The size is read by `read( int & )`, whose bytes are unsigned. -/
theorem skipped_chars (tag : UInt8) {v : List UInt8} (hv : v.length < 256) :
    Skipped tag (encHead protoSimpleList tag ++ (encHead protoByte 0 ++
      (encInt 0 (BitVec.ofNat 8 v.length).toInt ++ v))) := by
  refine .of_head (by decide) (by decide) (fun _ => rfl) ?_
  have hlen : (BitVec.ofNat 32 (v.length % 256)).toInt = v.length := by
    rw [Nat.mod_eq_of_lt hv]
    exact toInt_size (by omega)
  have hhead := (readHead_reads (show protoByte.toNat < 16 by decide) 0).when Tellable
  refine hhead.bind Tellable.of_same ?_
  exact ((readInt_byte v.length).when Tellable).bind Tellable.of_same (skip_reads _ hlen)

/-- A size of 128 and more is a `SHORT` in the format. -/
theorem skipped_bytes (tag : UInt8) (bytes : List UInt8) :
    Skipped tag (encHead protoSimpleList tag ++ (encHead protoByte 0 ++
      (encSize bytes.length ++ bytes))) := by
  refine .of_head (by decide) (by decide) (fun _ => rfl) (readsWhen_of_length fun hlt => ?_)
  simp only [List.length_append] at hlt
  have hhead := (readHead_reads (show protoByte.toNat < 16 by decide) 0).when Tellable
  refine hhead.bind Tellable.of_same ?_
  exact ((readInt_size (by omega)).when Tellable).bind Tellable.of_same
    (skip_reads _ (toInt_size (by omega)))

/-- A flat field of the format is skipped. -/
theorem skipped_enc (endTag : UInt8 → UInt8) {t : Ty} (ht : Flat t.kind) (tag : UInt8)
    (v : Val t) : Skipped tag (enc endTag t tag v) := by
  cases t with
  | byte => exact skipped_int tag _
  | prim p => exact skipped_prim tag p v
  | string => exact skipped_string tag v
  | bytes =>
    unfold enc
    rw [List.append_assoc, List.append_assoc]
    exact skipped_bytes tag v
  | _ => exact absurd ht id

/-- A flat field is written, and what is written is skipped. -/
theorem skipped_flat {t : Ty} (ht : Flat t.kind) {v : Val t} (hok : Ok t v) (hv : Sized t v)
    {tag : UInt8} (htag : tag.toNat < 128) : ∃ bs, Writes (write t v tag) bs ∧ Skipped tag bs := by
  cases t with
  | byte => exact ⟨_, writeChar_writes v htag, skipped_int tag _⟩
  | prim p => exact ⟨_, writePrim_writes p v htag, skipped_prim tag p v⟩
  | string => exact ⟨_, writeString_writes hok htag, skipped_string tag v⟩
  | bytes => exact ⟨_, writeChars_writes_byte v htag, skipped_chars tag hv⟩
  | _ => exact absurd ht id

theorem Skipped.skipAny {tag : UInt8} {bs : List UInt8} (h : Skipped tag bs) (fuel : Nat) :
    ReadsWhen Tellable (skipAny (fuel + 2)) bs () := by
  rcases h with ⟨type, rest, htype, _, rfl, hflat, hskip⟩
  rw [← hflat fuel] at hskip
  unfold Cpp.skipAny
  exact ((readHead_reads htype tag).when Tellable).bind Tellable.of_same hskip

/-- One round of the loop of `skipToStructEnd`. -/
theorem Skipped.round {tag : UInt8} {bs cs : List UInt8} (h : Skipped tag bs) {fuel : Nat}
    (hrest : ReadsWhen Tellable (skipToStructEnd (fuel + 1)) cs ()) :
    ReadsWhen Tellable (skipToStructEnd (fuel + 2)) (bs ++ cs) () := by
  rcases h with ⟨type, rest, htype, hne, rfl, hflat, hskip⟩
  rw [← hflat fuel] at hskip
  unfold skipToStructEnd
  rw [List.append_assoc]
  refine ((readHead_reads htype tag).when Tellable).bind Tellable.of_same ?_
  refine hskip.bind Tellable.of_same ?_
  dsimp only
  rw [if_neg hne]
  exact hrest

/-- Flat fields are written, and skipped with the end of the struct. -/
theorem skipToStructEnd_flat (tag : UInt8) :
    ∀ (us : Fields) (v : FieldVals us), us.All (fun t => Flat t.kind) → OkFields us v →
      SizedFields us v → ∃ bs, Writes (writeTo us v) bs ∧ ∀ fuel,
        ReadsWhen Tellable (skipToStructEnd (fuel + us.count + 2))
          (bs ++ encHead protoStructEnd tag) ()
  | .nil, v, _, _, _ =>
    ⟨[], Writes.pure, fun fuel => (skipToStructEnd_reads fuel tag).when Tellable⟩
  | .cons _ t us, v, hflat, hok, hsized => by
    rcases skipped_flat hflat.1 hok.1 hsized.2.1 hsized.1 with ⟨cs, hcs, hskip⟩
    rcases skipToStructEnd_flat tag us v.2 hflat.2 hok.2 hsized.2.2 with ⟨ds, hds, hrest⟩
    refine ⟨cs ++ ds, hcs.bind hds, fun fuel => ?_⟩
    rw [List.append_assoc]
    exact hskip.round (hrest fuel)

/-! ## The other fields -/

/-- On every string stream where `bs` comes next, `m` returns right behind
`bs`. -/
def SkipsTo (m : Nat → CppIn Unit) (bs : List UInt8) : Prop :=
  ∀ s r, Tellable s → At s (bs ++ r) → ∃ fuel s', m fuel s = .ok () s' ∧ At s' r ∧ Same s s'

/-- `skipField()` stops at the end of every field of the type. -/
def SkipsField (t : Ty) : Prop :=
  ∀ (tag : UInt8) (v : Val t) (bs : List UInt8), tag.toNat < 128 → Ok t v → Sized t v →
    Writes (write t v tag) bs → SkipsTo skipAny bs

/-- `skipToStructEnd` stops behind the end of the struct whenever the fields
`us` are unread. -/
def SkipsRest (us : Fields) : Prop :=
  ∀ (tag : UInt8) (v : FieldVals us) (bs : List UInt8), tag.toNat < 128 → OkFields us v →
    SizedFields us v → Writes (do writeTo us v; writeHead protoStructEnd tag) bs →
    SkipsTo skipToStructEnd bs

theorem skipsTo_of_reads {m : Nat → CppIn Unit} {bs : List UInt8} {fuel : Nat}
    (h : ReadsWhen Tellable (m fuel) bs ()) : SkipsTo m bs := by
  intro s r ht hs
  rcases h s r ht hs with ⟨s', hrun, hs', hsame⟩
  exact ⟨fuel, s', hrun, hs', hsame⟩

/-- A stream at the first of the bytes. -/
def IStream.of (data : List UInt8) : IStream := ⟨data, 0, false, true, fun _ => 0⟩

theorem at_of (data : List UInt8) : At (IStream.of data) data := ⟨rfl, Nat.zero_le _, rfl⟩

/-- A run that throws with every fuel never stops behind `bs`. -/
theorem not_skipsTo_of_error {m : Nat → CppIn Unit} {bs : List UInt8} {s : IStream}
    {r : List UInt8} (ht : Tellable s) (hs : At s (bs ++ r))
    (h : ∀ fuel, ∃ e s', m fuel s = .error e s') : ¬SkipsTo m bs := by
  intro hskip
  rcases hskip s r ht hs with ⟨fuel, s', hok, _⟩
  rcases h fuel with ⟨e, s₁, herr⟩
  rw [herr] at hok
  cases hok

/-- A header of type 14 is an error. -/
theorem skipAny_unknown {s : IStream} {r : List UInt8} (hs : At s (0x0E :: r)) :
    ∀ fuel, ∃ e s', skipAny fuel s = .error e s' := by
  intro fuel
  cases fuel with
  | zero => exact ⟨_, _, rfl⟩
  | succ fuel =>
    rcases readHead_reads (show (14 : UInt8).toNat < 16 by decide) 0 s r hs with ⟨s₁, hhead, _⟩
    unfold skipAny
    rw [bind_of_ok hhead]
    cases fuel with
    | zero => exact ⟨_, _, rfl⟩
    | succ fuel =>
      rcases error_tell (α := Unit) _ s₁ with ⟨text, s₂, herr⟩
      exact ⟨_, s₂, herr⟩

/-- `get_int` takes four bytes, whatever they are. -/
theorem getInt_reads (a b c d : UInt8) :
    Reads getInt [a, b, c, d] (BitVec.ofNat 32 (beVal [a, b, c, d])) :=
  declare_reads fun x => (getLoop_reads [a, b, c, d] x).then (Reads.pure _)

/-- The header of a size of zero and the three bytes behind it are a large
number. -/
theorem toInt_zeroSize (b c d : UInt8) :
    0 < (BitVec.ofNat 32 (beVal [0x0C, b, c, d])).toInt ∧
      0 < (BitVec.ofNat 32 (beVal [0x0C, b, c, d]) * 2).toInt := by
  have hval : beVal [0x0C, b, c, d] =
      ((12 * 256 + b.toNat) * 256 + c.toNat) * 256 + d.toNat := by
    simp [beVal]
  have hb := b.toNat_lt
  have hc := c.toNat_lt
  have hd := d.toNat_lt
  have hlen : (BitVec.ofNat 32 (beVal [0x0C, b, c, d])).toInt = beVal [0x0C, b, c, d] :=
    toInt_size (by omega)
  have hmul : (BitVec.ofNat 32 (beVal [0x0C, b, c, d]) * 2).toInt =
      (beVal [0x0C, b, c, d] * 2 : Nat) := by
    rw [show (2 : BitVec 32) = BitVec.ofNat 32 2 from rfl, ← BitVec.ofNat_mul]
    exact toInt_size (by omega)
  omega

/-- A list or a map whose size is a header alone: the first round is behind
four bytes. -/
theorem skipField_zeroSize {type : UInt8} (htype : type = protoList ∨ type = protoMap)
    {b c d : UInt8} {r : List UInt8} {s : IStream} (hs : At s ([0x0C, b, c, d] ++ 0x0E :: r)) :
    ∀ fuel, ∃ e s', skipField fuel type s = .error e s' := by
  intro fuel
  rcases toInt_zeroSize b c d with ⟨hlen, hlen2⟩
  rcases getInt_reads 0x0C b c d s _ hs with ⟨s₁, hrun, hs₁, _⟩
  generalize BitVec.ofNat 32 (beVal [0x0C, b, c, d]) = len at *
  have hloop : ∀ (fuel n : Nat), 0 < n → ∃ e s', repeatSkip (skipAny fuel) n s₁ = .error e s' := by
    intro fuel n hn
    rcases skipAny_unknown hs₁ fuel with ⟨e, s', herr⟩
    cases n with
    | zero => omega
    | succ n => exact ⟨e, s', bind_of_error herr⟩
  cases fuel with
  | zero => exact ⟨_, _, rfl⟩
  | succ fuel =>
    rcases htype with rfl | rfl
    · rcases hloop fuel len.toInt.toNat (by omega) with ⟨e, s', herr⟩
      refine ⟨e, s', ?_⟩
      show (getInt >>= fun len => repeatSkip (skipAny fuel) len.toInt.toNat) s = _
      rw [bind_of_ok hrun, herr]
    · rcases hloop fuel (len * 2).toInt.toNat (by omega) with ⟨e, s', herr⟩
      refine ⟨e, s', ?_⟩
      show (getInt >>= fun len => repeatSkip (skipAny fuel) (len * 2).toInt.toNat) s = _
      rw [bind_of_ok hrun, herr]

/-- The same behind the header, in both loops. -/
theorem head_zeroSize {type : UInt8} (htype : type = protoList ∨ type = protoMap)
    {b c d : UInt8} {r : List UInt8} {s : IStream}
    (hs : At s (encHead type 0 ++ ([0x0C, b, c, d] ++ 0x0E :: r))) :
    ∀ fuel, (∃ e s', skipAny fuel s = .error e s') ∧
      ∃ e s', skipToStructEnd fuel s = .error e s' := by
  intro fuel
  have hlt : type.toNat < 16 := by rcases htype with rfl | rfl <;> decide
  rcases readHead_reads hlt 0 s _ hs with ⟨s₁, hhead, hs₁, _⟩
  cases fuel with
  | zero => exact ⟨⟨_, _, rfl⟩, ⟨_, _, rfl⟩⟩
  | succ fuel =>
    rcases skipField_zeroSize htype hs₁ fuel with ⟨e, s', herr⟩
    unfold skipAny skipToStructEnd
    rw [bind_of_ok hhead, bind_of_ok hhead]
    exact ⟨⟨e, s', herr⟩, ⟨e, s', bind_of_error herr⟩⟩

/-- An empty list and an empty map are not skipped. -/
theorem not_skips_zeroSize {type : UInt8} (htype : type = protoList ∨ type = protoMap) :
    ¬SkipsTo skipAny (encHead type 0 ++ encSize 0) ∧
      ¬SkipsTo skipToStructEnd (encHead type 0 ++ encSize 0 ++ encHead protoStructEnd 0) := by
  have hhead : encHead type 0 = [type] := by rcases htype with rfl | rfl <;> rfl
  constructor
  · let s := IStream.of (encHead type 0 ++ ([0x0C, 0, 0, 0] ++ [0x0E]))
    have hs : At s (encHead type 0 ++ encSize 0 ++ [0, 0, 0, 0x0E]) := by
      rw [List.append_assoc]
      exact at_of _
    have ht : Tellable s := by
      refine ⟨rfl, ?_⟩
      show (encHead type 0 ++ ([0x0C, 0, 0, 0] ++ [0x0E])).length < 2 ^ 31
      simp [hhead]
    exact not_skipsTo_of_error ht hs fun fuel => (head_zeroSize htype (at_of _) fuel).1
  · let s := IStream.of (encHead type 0 ++ ([0x0C, 0x0B, 0, 0] ++ [0x0E]))
    have hs : At s (encHead type 0 ++ encSize 0 ++ encHead protoStructEnd 0 ++ [0, 0, 0x0E]) := by
      rw [List.append_assoc, List.append_assoc]
      exact at_of _
    have ht : Tellable s := by
      refine ⟨rfl, ?_⟩
      show (encHead type 0 ++ ([0x0C, 0x0B, 0, 0] ++ [0x0E])).length < 2 ^ 31
      simp [hhead]
    exact not_skipsTo_of_error ht hs fun fuel => (head_zeroSize htype (at_of _) fuel).2

/-- Bytes behind a field that is skipped stay unread. -/
theorem Skipped.not_skipsTo {tag : UInt8} {bs cs : List UInt8} (h : Skipped tag bs) (hcs : cs ≠ [])
    (hlen : (bs ++ cs).length < 2 ^ 31) : ¬SkipsTo Cpp.skipAny (bs ++ cs) := by
  intro hskip
  have hat : At (IStream.of (bs ++ cs)) (bs ++ cs ++ []) := by
    rw [List.append_nil]
    exact at_of _
  have ht : Tellable (IStream.of (bs ++ cs)) := ⟨rfl, hlen⟩
  rcases hskip _ [] ht hat with ⟨fuel, s', hrun, hs', _⟩
  rcases h with ⟨type, rest, htype, hne, rfl, hflat, hreads⟩
  have hhead : At (IStream.of (encHead type tag ++ rest ++ cs))
      (encHead type tag ++ (rest ++ cs)) := by
    rw [← List.append_assoc]
    exact at_of _
  rcases readHead_reads htype tag _ _ hhead with ⟨s₁, hread, _⟩
  cases fuel with
  | zero => cases hrun
  | succ fuel =>
    cases fuel with
    | zero =>
      unfold Cpp.skipAny at hrun
      rw [bind_of_ok hread] at hrun
      cases hrun
    | succ fuel =>
      have hskipped : Skipped tag (encHead type tag ++ rest) :=
        ⟨type, rest, htype, hne, rfl, hflat, hreads⟩
      rcases hskipped.skipAny fuel _ cs ht (at_of _) with ⟨s₂, hrun₂, hs₂, _⟩
      rw [hrun₂] at hrun
      cases hrun
      have hshort := at_length hs'
      have hlong := at_length hs₂
      have hpos : 0 < cs.length := List.length_pos_iff.mpr hcs
      rw [List.length_nil] at hshort
      omega

/-- The type has a field that fits in a stream. -/
def Encodable (t : Ty) : Prop :=
  ∃ (tag : UInt8) (v : Val t) (bs : List UInt8), tag.toNat < 128 ∧ Ok t v ∧ Sized t v ∧
    Writes (write t v tag) bs ∧ bs.length < 2 ^ 31

/-- A container whose elements are written. -/
theorem container_exists {α : Type} {type tag : UInt8} {n : BitVec 32} {f : α → CppOut Unit}
    (items : List α) (htag : tag.toNat < 128) (h : ∀ a ∈ items, ∃ bs, Writes (f a) bs) :
    ∃ bs, Writes (do writeHead type tag; writeInt n 0; writeAll f items) bs := by
  rcases Writes.writeAll_exists items h with ⟨bs, hbs⟩
  exact ⟨_, (writeHead_writes type htag).bind ((writeInt_writes n (by decide)).bind hbs)⟩

mutual

/-- Every value with the sizes of the format is written. -/
theorem write_exists : ∀ (t : Ty) (v : Val t) {tag : UInt8}, tag.toNat < 128 → Ok t v →
    Sized t v → ∃ bs, Writes (write t v tag) bs
  | .byte, v, _, h, _, _ => ⟨_, writeChar_writes v h⟩
  | .prim p, v, _, h, _, _ => ⟨_, writePrim_writes p v h⟩
  | .string, _, _, h, hok, _ => ⟨_, writeString_writes hok h⟩
  | .bytes, v, _, h, _, _ => ⟨_, writeChars_writes_byte v h⟩
  | .array p, v, _, h, _, _ =>
    container_exists v h fun e _ => ⟨_, writePrim_writes p e (by decide)⟩
  | .list t, v, _, h, hok, hs => by
    by_cases ht : t = .byte
    · subst ht
      exact ⟨_, writeChars_writes_byte _ h⟩
    · rw [write_list ht]
      exact container_exists v h fun e he => write_exists t e (by decide) (hok e he) (hs.2 e he)
  | .strMap, m, _, h, hok, _ =>
    container_exists m h fun e he =>
      ⟨_, (writeString_writes (hok.2 e he).1 (by decide)).bind
        (writeString_writes (hok.2 e he).2 (by decide))⟩
  | .map k v, m, _, h, hok, hs =>
    container_exists m h fun e he => by
      have htags : (0 : UInt8).toNat < 128 ∧ (1 : UInt8).toNat < 128 := by decide
      rcases write_exists k e.1 htags.1 (hok.2 e he).1 (hs.2 e he).1 with ⟨bs, hbs⟩
      rcases write_exists v e.2 htags.2 (hok.2 e he).2 (hs.2 e he).2 with ⟨cs, hcs⟩
      exact ⟨bs ++ cs, hbs.bind hcs⟩
  | .struct fs, v, tag, h, hok, hs => by
    rcases writeTo_exists fs v hok hs with ⟨bs, hbs⟩
    exact ⟨_, (writeHead_writes _ h).bind (hbs.bind (writeHead_writes _ h))⟩

theorem writeTo_exists : ∀ (fs : Fields) (v : FieldVals fs), OkFields fs v → SizedFields fs v →
    ∃ bs, Writes (writeTo fs v) bs
  | .nil, _, _, _ => ⟨[], Writes.pure⟩
  | .cons _ t fs, v, hok, hs => by
    rcases write_exists t v.1 hs.1 hok.1 hs.2.1 with ⟨bs, hbs⟩
    rcases writeTo_exists fs v.2 hok.2 hs.2.2 with ⟨cs, hcs⟩
    exact ⟨bs ++ cs, hbs.bind hcs⟩

end

/-- Of a struct only the header is skipped. -/
theorem skipAny_struct {s s₁ s' : IStream} {head : ProtoHead} (hhead : readHead s = .ok head s₁)
    (htype : head.type = protoStructBegin) {fuel : Nat} (h : skipAny fuel s = .ok () s') :
    s' = s₁ := by
  cases fuel with
  | zero => cases h
  | succ fuel =>
    unfold skipAny at h
    rw [bind_of_ok hhead, htype] at h
    cases fuel with
    | zero => cases h
    | succ fuel =>
      cases h
      rfl

theorem not_skipsField_struct {fs : Fields} (h : Encodable (.struct fs)) :
    ¬SkipsField (.struct fs) := by
  intro hskip
  rcases h with ⟨tag, v, bs, htag, hok, hsized, hw, hlen⟩
  have hto := hskip tag v bs htag hok hsized hw
  rcases writeTo_exists fs v hok hsized with ⟨cs, hcs⟩
  have hstruct : Writes (write (.struct fs) v tag)
      (encHead protoStructBegin tag ++ (cs ++ encHead protoStructEnd tag)) :=
    (writeHead_writes _ htag).bind (hcs.bind (writeHead_writes _ htag))
  obtain rfl := writes_unique hw hstruct
  let s := IStream.of (encHead protoStructBegin tag ++ (cs ++ encHead protoStructEnd tag))
  have hat : At s (encHead protoStructBegin tag ++ (cs ++ encHead protoStructEnd tag)) := at_of _
  rcases readHead_reads (by decide) tag _ _ hat with ⟨s₁, hhead, hs₁, _⟩
  rw [← List.append_nil (_ ++ _)] at hat
  rcases hto s [] ⟨rfl, hlen⟩ hat with ⟨fuel, s', hrun, hs', _⟩
  -- the position is behind the header, and the end of the struct is left
  rw [skipAny_struct hhead rfl hrun] at hs'
  have hlength := congrArg List.length (hs₁.2.2.symm.trans hs'.2.2)
  have hend := encHead_length_pos protoStructEnd tag
  rw [List.length_append, List.length_nil] at hlength
  omega

/-- The end of an unread struct is taken for the end of the struct it is
in. -/
theorem not_skipsRest_struct : ¬SkipsRest (.cons 0 (.struct .nil) .nil) := by
  intro hskip
  have hw : Writes (do writeTo (.cons 0 (.struct .nil) .nil) ((), ()); writeHead protoStructEnd 0)
      [0x0A, 0x0B, 0x0B] := by
    intro out
    refine ⟨_, rfl, ?_⟩
    show out ++ [0x0A] ++ [0x0B] ++ [0x0B] = out ++ [0x0A, 0x0B, 0x0B]
    simp
  have hto := hskip 0 ((), ()) _ (by decide) ⟨trivial, trivial⟩ ⟨by decide, trivial, trivial⟩ hw
  rcases hto (IStream.of [0x0A, 0x0B, 0x0B]) [] ⟨rfl, by decide⟩ (at_of _)
    with ⟨fuel, s', hrun, hs', hdata, _⟩
  have hstop : s'.pos = 2 := by
    cases fuel with
    | zero => cases hrun
    | succ fuel =>
      cases fuel with
      | zero => cases hrun
      | succ fuel =>
        cases fuel with
        | zero => cases hrun
        | succ fuel =>
          cases hrun
          rfl
  have hlength := at_length hs'
  rw [hstop, hdata] at hlength
  exact absurd hlength (by decide)

/-- The size of 256 bytes is written as zero. -/
theorem not_skipsField_listByte : ¬SkipsField (.list .byte) := by
  intro hskip
  obtain ⟨v, hv⟩ : ∃ v : List (BitVec 8), v.length = 256 :=
    ⟨List.replicate 256 0, List.length_replicate⟩
  have hw := @writeChars_writes_byte (v.map UInt8.ofBitVec) 0 (by decide)
  have hlength : (v.map UInt8.ofBitVec).length = 256 := by rw [List.length_map, hv]
  have hempty : Skipped 0 (encHead protoSimpleList 0 ++ (encHead protoByte 0 ++ encInt 0 0)) := by
    have h := skipped_chars 0 (v := []) (by decide)
    rw [List.append_nil] at h
    exact h
  have hsplit : encHead protoSimpleList 0 ++ (encHead protoByte 0 ++
      (encInt 0 (BitVec.ofNat 8 (v.map UInt8.ofBitVec).length).toInt ++ v.map UInt8.ofBitVec)) =
      encHead protoSimpleList 0 ++ (encHead protoByte 0 ++ encInt 0 0) ++
        v.map UInt8.ofBitVec := by
    rw [hlength, List.append_assoc, List.append_assoc]
    rfl
  rw [hsplit] at hw
  refine hempty.not_skipsTo (List.ne_nil_of_length_pos (by omega)) ?_
    (hskip 0 v _ (by decide) (by simp [Ok]) (by simp [Sized, hv]) hw)
  rw [List.length_append, hlength]
  decide

/-- An empty container is a header and a size. -/
theorem write_nil {t : Ty} (hflat : ¬Flat t.kind) (hstruct : t.kind ≠ .struct)
    (hbyte : t ≠ .list .byte) :
    ∃ (type : UInt8) (v : Val t), (type = protoList ∨ type = protoMap) ∧ Ok t v ∧ Sized t v ∧
      Writes (write t v 0) (encHead type 0 ++ encSize 0) := by
  have hempty : ∀ type, Writes (do
      writeHead type 0
      writeInt (BitVec.ofNat 32 0) 0
      pure ()) (encHead type 0 ++ encSize 0) := by
    intro type
    have hzero : (0 : UInt8).toNat < 128 := by decide
    have hsize := (writeInt_writes (BitVec.ofNat 32 0) hzero).bind
      (f := fun _ => pure ()) Writes.pure
    rw [List.append_nil] at hsize
    exact (writeHead_writes type (by decide)).bind hsize
  cases t with
  | array p => exact ⟨protoList, [], Or.inl rfl, trivial, by simp [Sized], hempty protoList⟩
  | list t =>
    refine ⟨protoList, [], Or.inl rfl, by simp [Ok], by simp [Sized], ?_⟩
    rw [write_list fun ht => hbyte (congrArg Ty.list ht)]
    exact hempty protoList
  | strMap => exact ⟨protoMap, [], Or.inr rfl, by simp [Ok], by simp [Sized], hempty protoMap⟩
  | map k v => exact ⟨protoMap, [], Or.inr rfl, by simp [Ok], by simp [Sized], hempty protoMap⟩
  | struct fs => exact absurd rfl hstruct
  | _ => exact absurd trivial hflat

theorem not_skipsField_of_not_flat {t : Ty} (hflat : ¬Flat t.kind) (h : Encodable t) :
    ¬SkipsField t := by
  by_cases hstruct : t.kind = .struct
  · cases t with
    | struct fs => exact not_skipsField_struct h
    | _ => cases hstruct
  by_cases hbyte : t = .list .byte
  · subst hbyte
    exact not_skipsField_listByte
  · rcases write_nil hflat hstruct hbyte with ⟨type, v, htype, hok, hsized, hw⟩
    exact fun hskip => (not_skips_zeroSize htype).1 (hskip 0 v _ (by decide) hok hsized hw)

/-- A type of the kind, whose fields are not skipped in a struct. -/
theorem not_skipsRest_of_not_flat {k : Kind} (hflat : ¬Flat k) :
    ∃ t : Ty, t.kind = k ∧ ¬SkipsRest (.cons 0 t .nil) := by
  have hcontainer : ∀ t : Ty, ¬Flat t.kind → t.kind ≠ .struct → t ≠ .list .byte →
      ¬SkipsRest (.cons 0 t .nil) := by
    intro t hflat hstruct hbyte hskip
    rcases write_nil hflat hstruct hbyte with ⟨type, v, htype, hok, hsized, hw⟩
    have hrest : Writes (do writeTo (.cons 0 t .nil) (v, ()); writeHead protoStructEnd 0)
        (encHead type 0 ++ encSize 0 ++ encHead protoStructEnd 0) := by
      have hto := hw.bind (f := fun _ => pure ()) Writes.pure
      rw [List.append_nil] at hto
      exact hto.bind (writeHead_writes protoStructEnd (by decide))
    exact (not_skips_zeroSize htype).2
      (hskip 0 (v, ()) _ (by decide) ⟨hok, trivial⟩ ⟨by decide, hsized, trivial⟩ hrest)
  cases k with
  | array => exact ⟨.array .bool, rfl, hcontainer _ id nofun nofun⟩
  | list => exact ⟨.list .string, rfl, hcontainer _ id nofun nofun⟩
  | strMap => exact ⟨.strMap, rfl, hcontainer _ id nofun nofun⟩
  | map => exact ⟨.map .byte .byte, rfl, hcontainer _ id nofun nofun⟩
  | struct => exact ⟨.struct .nil, rfl, not_skipsRest_struct⟩
  | _ => exact absurd trivial hflat

/-- For every type, `skipField()` stops at the end of all its fields if and
only if the type is flat.  For every set of kinds, `skipToStructEnd` stops
behind the end of the struct for all unread fields of these kinds if and only
if they are flat. -/
theorem skips_iff_flat (t : Ty) (ht : Encodable t) (K : Kind → Prop) :
    (SkipsField t ↔ Flat t.kind) ∧
    ((∀ us : Fields, us.All (fun t => K t.kind) → SkipsRest us) ↔ ∀ k, K k → Flat k) := by
  refine ⟨⟨fun hskip => ?_, fun hflat => ?_⟩, fun hskip k hk => ?_, ?_⟩
  · by_contra hflat
    exact not_skipsField_of_not_flat hflat ht hskip
  · intro tag v bs htag hok hsized hw
    rcases skipped_flat hflat hok hsized htag with ⟨bs', hw', hskipped⟩
    rw [writes_unique hw hw']
    exact skipsTo_of_reads (hskipped.skipAny 0)
  · by_contra hflat
    rcases not_skipsRest_of_not_flat hflat with ⟨t, rfl, ht⟩
    exact ht (hskip _ ⟨hk, trivial⟩)
  · intro hflat us hus tag v bs htag hok hsized hw
    have hall : us.All fun t => Flat t.kind := hus.imp fun t ht => hflat _ ht
    rcases skipToStructEnd_flat tag us v hall hok hsized with ⟨bs', hw', hrun⟩
    rw [writes_unique hw (hw'.bind (writeHead_writes protoStructEnd htag))]
    exact skipsTo_of_reads (hrun 0)

theorem skips_iff_flat_string : SkipsField .string ↔ Flat Ty.string.kind := by
  have hw : Writes (write .string [104] 1) [0x16, 1, 104] :=
    writeString_writes (s := [104]) (by decide) (by decide)
  have hstring : Encodable .string :=
    ⟨1, [104], [0x16, 1, 104], by decide, (by decide : 1 ≤ protoMaxStringLength), trivial, hw,
      by decide⟩
  exact (skips_iff_flat .string hstring Flat).1

/-- The empty `std::vector<int>` is not skipped. -/
theorem not_always_skips : ¬((∀ t, SkipsField t) ∧ ∀ us, SkipsRest us) := by
  intro h
  have hw : Writes (write (.array .int) [] 0) (encHead protoList 0 ++ encSize 0) := by
    intro out
    refine ⟨_, rfl, ?_⟩
    show out ++ [0x09] ++ [0x0C] = out ++ [0x09, 0x0C]
    simp
  exact (not_skips_zeroSize (Or.inl rfl)).1
    (h.1 (.array .int) 0 [] _ (by decide) trivial (by simp [Sized]) hw)

end OCServer.Cpp
