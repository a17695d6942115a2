import OCServer.Proto.CppRound

/-!
# Containers between `ProtoOut` and `ProtoIn`

An `Overload` is a C++ type with its overloads of `write` and `read`, and
`CType` are the types that have both.  The overloads for a `std::vector` and
a `std::map` use those of their elements, keys and values.

The reader of a map keeps an entry when `read` answers 0 for the key and 1
for the value.  Most overloads answer the tag of the field, but those for
`bool` and for vectors answer `true`: `answers_tag` and `answers_true`.  So a
map comes back exactly when the overload for its keys answers the tag.
-/

namespace OCServer.Cpp

open BigEndian ByteIO ByteSource

/-! ## Types with overloads -/

/-- A type with its overloads of `write` and `read`. -/
structure Overload where
  Val : Type
  decEq : DecidableEq Val
  write : Val → UInt8 → CppOut Unit
  read : CppIn (Val × UInt8)

/-- The types with overloads. -/
inductive CType
  | bool
  | char
  | ushort
  | short
  | int
  | uint
  | long
  | float
  | double
  | string
  | vector (e : CType)
  | map (k v : CType)
  deriving DecidableEq, Repr

namespace Overload

/-- `std::vector<char>`. -/
def chars : Overload := ⟨List UInt8, inferInstance, writeChars, readChars⟩

/-- The templates for `std::vector`. -/
def vector (e : Overload) : Overload where
  Val := List e.Val
  decEq :=
    have := e.decEq
    inferInstanceAs (DecidableEq (List e.Val))
  write := writeVector e.write
  read := do
    let v ← readVector (Prod.fst <$> e.read)
    pure (v, 1)

/-- The templates for `std::map`. -/
def map (k v : Overload) : Overload where
  Val := List (k.Val × v.Val)
  decEq :=
    have := k.decEq
    have := v.decEq
    inferInstanceAs (DecidableEq (List (k.Val × v.Val)))
  write := writeMap k.write v.write
  read :=
    have := k.decEq
    readMap k.read v.read

end Overload

section

variable [FloatOps]

/-- The overloads of a type.  The templates for vectors leave out `char`. -/
def CType.overload : CType → Overload
  | .bool => ⟨Bool, inferInstance, writeBool, readBool⟩
  | .char => ⟨BitVec 8, inferInstance, writeChar, readChar⟩
  | .ushort => ⟨BitVec 16, inferInstance, writeUShort, readUShort⟩
  | .short => ⟨BitVec 16, inferInstance, writeShort, readShort⟩
  | .int => ⟨BitVec 32, inferInstance, writeInt, readInt⟩
  | .uint => ⟨BitVec 32, inferInstance, writeUInt, readUInt⟩
  | .long => ⟨BitVec 64, inferInstance, writeLong, readLong⟩
  | .float => ⟨BitVec 32, inferInstance, writeFloat, readFloat⟩
  | .double => ⟨BitVec 64, inferInstance, writeDouble, readDouble⟩
  | .string => ⟨List UInt8, inferInstance, writeString, readString⟩
  | .vector .char => .chars
  | .vector e => .vector e.overload
  | .map k v => .map k.overload v.overload

/-- The overload of `read` answers the tag of the field. -/
def CType.AnswersTag : CType → Prop
  | .bool => False
  | .vector e => e = .char
  | _ => True

/-- `std::vector<char>` has an overload of its own. -/
theorem overload_vector {e : CType} (he : e ≠ .char) :
    (CType.vector e).overload = .vector e.overload := by
  cases e with
  | char => exact absurd rfl he
  | _ => rfl

end

/-! ## What `read` answers -/

/-- Whenever `m` gives a value, it answers `c`. -/
abbrev Answers {α : Type} (m : CppIn (α × UInt8)) (c : UInt8) : Prop := Gives m fun p => p.2 = c

/-- `m` reads a header first and answers its tag. -/
def Tagged {α : Type} (m : CppIn (α × UInt8)) : Prop :=
  ∃ f : ProtoHead → CppIn (α × UInt8), m = readHead >>= f ∧ ∀ head, Answers (f head) head.tag

section

variable {α β : Type} {c : UInt8}

/-- `error` gives nothing. -/
theorem error_gives (message : String) (P : α → Prop) :
    Gives (tell >>= fun offset => error message offset : CppIn α) P := by
  intro s p s' h
  rcases error_tell (α := α) message s with ⟨text, s₁, herr⟩
  rw [herr] at h
  cases h

theorem Tagged.body {f : ProtoHead → CppIn (α × UInt8)} (h : ∀ head, Answers (f head) head.tag) :
    Tagged (readHead >>= f) := ⟨f, rfl, h⟩

/-- Behind the header of the field, the tag is that of the field. -/
theorem Tagged.answer {m : CppIn (α × UInt8)} (hm : Tagged m) {type tag : UInt8}
    (htype : type.toNat < 16) {s s' : IStream} {rest : List UInt8} {p : α × UInt8}
    (hs : At s (encHead type tag ++ rest)) (h : m s = .ok p s') : p.2 = tag := by
  rcases hm with ⟨f, rfl, hf⟩
  rcases readHead_reads htype tag s rest hs with ⟨s₁, hhead, _⟩
  rw [bind_of_ok hhead] at h
  exact hf _ s₁ p s' h

theorem readInteger_tagged (k : Nat) (name stop : String) (widest : UInt8) :
    Tagged (readInteger k name widest stop) := by
  refine Tagged.body fun head => ?_
  split
  · exact Gives.pure rfl
  · split
    · exact Gives.bind fun _ => Gives.pure rfl
    · split
      · exact Gives.bind fun _ => Gives.pure rfl
      · split
        · exact Gives.bind fun _ => Gives.pure rfl
        · split
          · exact Gives.bind fun _ => Gives.pure rfl
          · exact error_gives _ _

theorem readFloat_tagged : Tagged readFloat := by
  refine Tagged.body fun head => ?_
  split
  · exact Gives.pure rfl
  · split
    · exact Gives.bind fun _ => Gives.pure rfl
    · exact error_gives _ _

theorem readDouble_tagged [FloatOps] : Tagged readDouble := by
  refine Tagged.body fun head => ?_
  split
  · exact Gives.pure rfl
  · split
    · exact Gives.bind fun _ => Gives.pure rfl
    · split
      · exact Gives.bind fun _ => Gives.pure rfl
      · exact error_gives _ _

theorem readContent_answers (len : BitVec 32) (tag : UInt8) :
    Answers (readContent len tag) tag := by
  have hread : Answers (getString len >>= fun s => pure (s, tag)) tag :=
    Gives.bind fun _ => Gives.pure rfl
  unfold readContent
  split
  · exact Gives.bind fun _ => Gives.bind fun _ => hread
  · exact hread

theorem readString_tagged [FloatOps] : Tagged readString := by
  refine Tagged.body fun head => ?_
  split
  · exact Gives.pure rfl
  · split
    · exact Gives.bind fun _ => Gives.bind fun _ => readContent_answers _ _
    · split
      · exact Gives.bind fun _ => readContent_answers _ _
      · exact Gives.bind fun _ => Gives.pure rfl

theorem readChars_tagged : Tagged readChars := by
  refine Tagged.body fun head => ?_
  have hrest : Answers (do
      let r ← readInt
      let a ← declare
      let bl ← getLoop r.1.toInt.toNat a
      pure (bl, head.tag)) head.tag :=
    Gives.bind fun _ => Gives.bind fun _ => Gives.bind fun _ => Gives.pure rfl
  split
  · refine Gives.bind fun ihead => ?_
    split
    · exact Gives.bind fun _ => hrest
    · exact hrest
  · exact hrest

theorem readMap_tagged {κ ν : Type} [DecidableEq κ] (key : CppIn (κ × UInt8))
    (value : CppIn (ν × UInt8)) : Tagged (readMap key value) := by
  refine Tagged.body fun head => ?_
  have hrest : Answers (do
      let r ← readInt
      let entries ← repeatM (readEntry key value) r.1.toInt.toNat
      pure (putEntries entries, head.tag)) head.tag :=
    Gives.bind fun _ => Gives.bind fun _ => Gives.pure rfl
  split
  · exact Gives.bind fun _ => Gives.bind fun _ => hrest
  · exact hrest

end

section

variable [FloatOps]

/-- The overloads that answer the tag. -/
theorem answers_tag {c : CType} (hc : c.AnswersTag) : Tagged c.overload.read := by
  cases c with
  | bool => exact absurd hc id
  | vector e =>
    obtain rfl : e = .char := hc
    exact readChars_tagged
  | float => exact readFloat_tagged
  | double => exact readDouble_tagged
  | string => exact readString_tagged
  | map k v =>
    exact @readMap_tagged _ _ k.overload.decEq k.overload.read v.overload.read
  | _ => exact readInteger_tagged _ _ _ _

/-- The other overloads answer `true`. -/
theorem answers_true {c : CType} (hc : ¬c.AnswersTag) : Answers c.overload.read 1 := by
  cases c with
  | bool => exact Gives.bind fun _ => Gives.pure rfl
  | vector e =>
    rw [overload_vector hc]
    exact Gives.bind fun _ => Gives.pure rfl
  | _ => exact absurd trivial hc

/-! ## What `write` starts with -/

end

section

variable {w : CppOut Unit} {tag : UInt8}

/-- `w` writes a header at the tag first, or always throws. -/
def Headed (w : CppOut Unit) (tag : UInt8) : Prop :=
  (∃ type rest, type.toNat < 16 ∧ Writes w (encHead type tag ++ rest)) ∨
    ∀ out, ∃ e out', w out = .error e out'

theorem Headed.of_writes {type : UInt8} {rest : List UInt8} (htype : type.toNat < 16)
    (h : Writes w (encHead type tag ++ rest)) : Headed w tag := Or.inl ⟨type, rest, htype, h⟩

theorem Headed.puts (h : Headed w tag) : Puts w := by
  rcases h with ⟨type, rest, _, h⟩ | h
  · exact h.puts
  · exact Or.inr h

/-- What a writer with a header at the tag appends. -/
theorem Headed.bytes (h : Headed w tag) {bs : List UInt8} (hw : Writes w bs) :
    ∃ type rest, type.toNat < 16 ∧ bs = encHead type tag ++ rest := by
  rcases h with ⟨type, rest, htype, h⟩ | h
  · exact ⟨type, rest, htype, writes_unique hw h⟩
  · rcases h [] with ⟨e, out, herr⟩
    rcases hw [] with ⟨out', hok, _⟩
    rw [herr] at hok
    cases hok

/-- An integer. -/
theorem Headed.int {n : Int} (h : Writes w (encInt tag n)) : Headed w tag := by
  unfold encInt at h
  split at h
  · rw [← List.append_nil (encHead protoZeroTag tag)] at h
    exact .of_writes (by decide) h
  · split at h
    · exact .of_writes (by decide) h
    · split at h
      · exact .of_writes (by decide) h
      · split at h <;> exact .of_writes (by decide) h

/-- A writer that goes on after the header. -/
theorem Headed.after {type : UInt8} {f : Unit → CppOut Unit} (htype : type.toNat < 16)
    (htag : tag.toNat < 128) (hf : Puts (f ())) : Headed (writeHead type tag >>= f) tag := by
  have hhead := writeHead_writes type htag
  rcases hf with ⟨rest, hrest⟩ | hthrow
  · exact .of_writes htype (hhead.bind hrest)
  · refine Or.inr fun out => ?_
    rcases hhead out with ⟨out', hrun, _⟩
    rcases hthrow out' with ⟨e, out'', herr⟩
    exact ⟨e, out'', by rw [bind_of_ok hrun, herr]⟩

theorem writeString_headed (s : List UInt8) (htag : tag.toNat < 128) :
    Headed (writeString s tag) tag := by
  have hputs : ∀ bs cs, Puts (put bs >>= fun _ => put cs) := fun bs cs =>
    (put_writes bs).puts.bind (put_writes cs).puts
  unfold writeString
  dsimp only
  split
  · exact Or.inr fun out => ⟨_, out, rfl⟩
  · split
    · exact .after (by decide) htag (hputs _ _)
    · exact .after (by decide) htag (hputs _ _)

end

section

variable [FloatOps]

/-- Every overload of `write` writes a header at the tag first. -/
theorem write_headed : ∀ (c : CType) (v : c.overload.Val) {tag : UInt8}, tag.toNat < 128 →
    Headed (c.overload.write v tag) tag
  | .bool, v, _, h => .int (writeChar_writes (if (show Bool from v) then 1 else 0) h)
  | .char, v, _, h => .int (writeChar_writes v h)
  | .ushort, v, _, h => .int (writeUShort_writes v h)
  | .short, v, _, h => .int (writeShort_writes v h)
  | .int, v, _, h => .int (writeInt_writes v h)
  | .uint, v, _, h => .int (writeUInt_writes v h)
  | .long, v, _, h => .int (writeLong_writes v h)
  | .float, v, _, h => .of_writes (by decide) (Writes.bind (writeHead_writes _ h) (put_writes _))
  | .double, v, _, h => .of_writes (by decide) (Writes.bind (writeHead_writes _ h) (put_writes _))
  | .string, v, _, h => writeString_headed v h
  | .vector e, v, tag, h => by
    by_cases he : e = .char
    · subst he
      exact .of_writes (by decide) (writeChars_writes_byte v h)
    · revert v
      rw [overload_vector he]
      intro v
      refine .after (by decide) h ?_
      refine (writeInt_writes _ (by decide)).puts.bind ?_
      exact Puts.writeAll v fun x _ => (write_headed e x (by decide)).puts
  | .map k w, m, tag, h => by
    refine .after (by decide) h ?_
    refine (writeInt_writes _ (by decide)).puts.bind ?_
    exact Puts.writeAll m fun e _ =>
      (write_headed k e.1 (by decide)).puts.bind (write_headed w e.2 (by decide)).puts

end

/-! ## Containers -/

/-- A value comes back with its end, when it is written at a tag. -/
def Overload.ComesBack (o : Overload) (tag : UInt8) (v : o.Val) : Prop :=
  ∃ c, RoundTrips (o.write v tag) o.read (v, c)

section

variable {α κ ν : Type}

/-- A vector has as many elements as an `int` can say. -/
theorem readVector_length (element : CppIn α) :
    Gives (readVector element) fun v => v.length < 2 ^ 31 := by
  have hloop : ∀ len : BitVec 32,
      Gives (repeatM element len.toInt.toNat) fun v => v.length < 2 ^ 31 := by
    intro len s v s' hrun
    have hlt := BitVec.toInt_lt (x := len)
    have hlen := Gives.repeatM_length element _ s v s' hrun
    show v.length < 2147483648
    omega
  have hrest : Gives (do
      let r ← readInt
      if r.1.toInt < 0 then
        error s!"Proto: size invalid when read array, got size {r.1.toInt}" (← tell)
      repeatM element r.1.toInt.toNat) fun v => v.length < 2 ^ 31 := by
    refine Gives.bind fun r => ?_
    dsimp only
    split
    · exact Gives.bind fun _ => Gives.bind fun _ => hloop r.1
    · exact hloop r.1
  refine Gives.bind fun head => ?_
  dsimp only
  split
  · exact Gives.bind fun _ => Gives.bind fun _ => hrest
  · exact hrest

theorem mapPut_length_le [DecidableEq κ] (m : List (κ × ν)) (k : κ) (v : ν) :
    (mapPut m k v).length ≤ m.length + 1 := by
  unfold mapPut
  split
  · rw [List.length_map]
    omega
  · rw [List.length_append]
    rfl

theorem putEntries_length_le [DecidableEq κ] (entries : List (Option (κ × ν))) :
    (putEntries entries).length ≤ entries.length := by
  have hfold : ∀ (es m : List (κ × ν)),
      (es.foldl (fun m e => mapPut m e.1 e.2) m).length ≤ m.length + es.length := by
    intro es
    induction es with
    | nil => exact fun m => Nat.le_refl _
    | cons e es ih =>
      intro m
      have hput := mapPut_length_le m e.1 e.2
      have hle := ih (mapPut m e.1 e.2)
      rw [List.foldl_cons, List.length_cons]
      omega
  have hle := hfold (entries.filterMap id) []
  have hfilter := List.length_filterMap_le id entries
  rw [List.length_nil, Nat.zero_add] at hle
  exact Nat.le_trans hle hfilter

/-- What a map is, from what its entries are. -/
theorem readMap_gives [DecidableEq κ] {key : CppIn (κ × UInt8)} {value : CppIn (ν × UInt8)}
    {P : List (κ × ν) → Prop}
    (h : ∀ n < 2 ^ 31, Gives (repeatM (readEntry key value) n) fun es => P (putEntries es)) :
    Gives (readMap key value) fun p => P p.1 := by
  have hrest : ∀ tag : UInt8, Gives (do
      let r ← readInt
      let entries ← repeatM (readEntry key value) r.1.toInt.toNat
      pure (putEntries entries, tag)) fun p => P p.1 := by
    intro tag
    refine Gives.bind fun r => ?_
    intro s p s' hrun
    rcases bind_eq_ok hrun with ⟨entries, s₁, hloop, hpure⟩
    cases hpure
    have hlt := BitVec.toInt_lt (x := r.1)
    exact h r.1.toInt.toNat (by omega) s entries _ hloop
  refine Gives.bind fun head => ?_
  dsimp only
  split
  · exact Gives.bind fun _ => Gives.bind fun _ => hrest _
  · exact hrest _

/-- A map has as many entries as an `int` can say. -/
theorem readMap_length [DecidableEq κ] (key : CppIn (κ × UInt8)) (value : CppIn (ν × UInt8)) :
    Gives (readMap key value) fun p => p.1.length < 2 ^ 31 := by
  refine readMap_gives (P := fun m => m.length < 2 ^ 31) fun n hn => ?_
  intro s es s' hloop
  have hlen := Gives.repeatM_length _ n s es s' hloop
  have hle := putEntries_length_le es
  omega

/-- A map whose keys are answered with something else than 0 is empty. -/
theorem readMap_nil [DecidableEq κ] {key : CppIn (κ × UInt8)} (value : CppIn (ν × UInt8))
    {c : UInt8} (hkey : Answers key c) (hc : c ≠ 0) :
    Gives (readMap key value) fun p => p.1 = [] := by
  have hentry : Gives (readEntry key value) fun e => e = none := by
    intro s e s' hrun
    rcases bind_eq_ok hrun with ⟨⟨k, ktag⟩, s₁, hk, hrest⟩
    obtain rfl : ktag = c := hkey s _ s₁ hk
    dsimp only at hrest
    rw [if_neg hc] at hrest
    cases hrest
    rfl
  refine readMap_gives (P := fun m => m = []) fun n _ => ?_
  induction n with
  | zero => exact Gives.pure rfl
  | succ n ih =>
    intro s es s' hrun
    rcases bind_eq_ok hrun with ⟨e, s₁, he, hrest⟩
    rcases bind_eq_ok hrest with ⟨es', s₂, hes, hpure⟩
    cases hpure
    obtain rfl := hentry s e s₁ he
    exact ih (by omega) s₁ es' _ hes

/-- What a reader gives on the bytes of a value. -/
theorem holds_of_reads {m : CppIn α} {bs : List UInt8} {a : α} (P : α → Prop)
    (hread : Reads m bs a) (hgives : Gives m P) : P a := by
  let s : IStream := ⟨bs, 0, false, true, fun _ => 0⟩
  have hs : At s (bs ++ []) := by
    rw [List.append_nil]
    exact ⟨rfl, Nat.zero_le _, rfl⟩
  rcases hread s [] hs with ⟨s', hok, _⟩
  exact hgives s a s' hok

/-- A vector of values that come back. -/
theorem vector_comesBack_iff (e : Overload) {tag : UInt8} (htag : tag.toNat < 128)
    {v : List e.Val} (h : ∀ x ∈ v, e.ComesBack 0 x) :
    (Overload.vector e).ComesBack tag v ↔ v.length < 2 ^ 31 := by
  constructor
  · intro h
    rcases h with ⟨c, bs, -, hread⟩
    have hgives : Gives (Overload.vector e).read fun p => p.1.length < 2 ^ 31 := by
      intro s p s' hrun
      rcases bind_eq_ok hrun with ⟨v, s₁, hv, hpure⟩
      cases hpure
      exact readVector_length _ s v _ hv
    exact holds_of_reads (fun p => p.1.length < 2 ^ 31) hread hgives
  · intro hsize
    choose! c enc hwrite hread using h
    exact ⟨1, _, writeVector_writes v htag hwrite,
      vector_reads tag hsize fun x hx => ⟨c x, hread x hx⟩⟩

end

section

variable [FloatOps]

/-- The bytes of a value that comes back, and what `read` answers for it. -/
theorem comesBack_answer {c : CType} {tag : UInt8} (htag : tag.toNat < 128) {v : c.overload.Val}
    (h : c.overload.ComesBack tag v) :
    ∃ bs a, Writes (c.overload.write v tag) bs ∧ Reads c.overload.read bs (v, a) ∧
      (c.AnswersTag ∧ a = tag ∨ ¬c.AnswersTag ∧ a = 1) := by
  rcases h with ⟨a, bs, hwrite, hread⟩
  refine ⟨bs, a, hwrite, hread, ?_⟩
  by_cases hc : c.AnswersTag
  · refine Or.inl ⟨hc, ?_⟩
    rcases (write_headed c v htag).bytes hwrite with ⟨type, rest, htype, rfl⟩
    let s : IStream := ⟨encHead type tag ++ rest, 0, false, true, fun _ => 0⟩
    have hs : At s (encHead type tag ++ rest ++ []) := by
      rw [List.append_nil]
      exact ⟨rfl, Nat.zero_le _, rfl⟩
    rcases hread s [] hs with ⟨s', hok, _⟩
    rw [List.append_assoc] at hs
    exact (answers_tag hc).answer htype hs hok
  · exact Or.inr ⟨hc, holds_of_reads (fun p => p.2 = 1) hread (answers_true hc)⟩

/-- A map of keys and values that come back. -/
theorem map_comesBack_iff (k v : CType) {tag : UInt8} (htag : tag.toNat < 128)
    {m : List (k.overload.Val × v.overload.Val)} (hnodup : (m.map Prod.fst).Nodup)
    (hk : ∀ e ∈ m, k.overload.ComesBack 0 e.1) (hv : ∀ e ∈ m, v.overload.ComesBack 1 e.2) :
    (Overload.map k.overload v.overload).ComesBack tag m ↔
      m.length < 2 ^ 31 ∧ (m = [] ∨ k.AnswersTag) := by
  have := k.overload.decEq
  constructor
  · intro h
    rcases h with ⟨c, bs, -, hread⟩
    have hlen : Gives (Overload.map k.overload v.overload).read
        fun p : List (_ × _) × UInt8 => p.1.length < 2 ^ 31 :=
      @readMap_length _ _ k.overload.decEq _ _
    refine ⟨holds_of_reads (fun p : List (_ × _) × UInt8 => p.1.length < 2 ^ 31) hread hlen, ?_⟩
    by_cases hc : k.AnswersTag
    · exact Or.inr hc
    · have hnil : Gives (Overload.map k.overload v.overload).read
          fun p : List (_ × _) × UInt8 => p.1 = [] :=
        @readMap_nil _ _ k.overload.decEq _ _ 1 (answers_true hc) (by decide)
      exact Or.inl (holds_of_reads (fun p : List (_ × _) × UInt8 => p.1 = []) hread hnil)
  · intro h
    rcases h with ⟨hsize, hkeys⟩
    have hk' : ∀ x ∈ m.map Prod.fst, ∃ bs, Writes (k.overload.write x 0) bs ∧
        Reads k.overload.read bs (x, 0) := by
      intro x hx
      rcases List.mem_map.mp hx with ⟨e, he, rfl⟩
      rcases comesBack_answer (by decide) (hk e he) with ⟨bs, a, hw, hr, ha⟩
      have hc : k.AnswersTag := hkeys.resolve_left (List.ne_nil_of_mem he)
      rcases ha with ⟨_, rfl⟩ | ⟨hno, _⟩
      · exact ⟨bs, hw, hr⟩
      · exact absurd hc hno
    have hv' : ∀ y ∈ m.map Prod.snd, ∃ bs, Writes (v.overload.write y 1) bs ∧
        Reads v.overload.read bs (y, 1) := by
      intro y hy
      rcases List.mem_map.mp hy with ⟨e, he, rfl⟩
      rcases comesBack_answer (by decide) (hv e he) with ⟨bs, a, hw, hr, ha⟩
      rcases ha with ⟨_, rfl⟩ | ⟨_, rfl⟩ <;> exact ⟨bs, hw, hr⟩
    choose! encKey hkw hkr using hk'
    choose! encValue hvw hvr using hv'
    have hfst : ∀ e ∈ m, e.1 ∈ m.map Prod.fst := fun e he => List.mem_map_of_mem he
    have hsnd : ∀ e ∈ m, e.2 ∈ m.map Prod.snd := fun e he => List.mem_map_of_mem he
    exact ⟨tag, _, writeMap_writes m htag (fun e he => hkw _ (hfst e he))
        (fun e he => hvw _ (hsnd e he)),
      @readMap_reads _ _ k.overload.decEq _ _ _ _ tag m hsize hnodup
        fun e he => ⟨hkr _ (hfst e he), hvr _ (hsnd e he)⟩⟩

/-- For every tag below 128: a vector whose elements come back comes back if
and only if it has less than `2 ^ 31` of them, or 256 when they are `char`s;
a map whose keys and values come back comes back if and only if it has less
than `2 ^ 31` entries and is empty or has keys whose overload of `read`
answers the tag. -/
theorem containers_comeBack_iff {tag : UInt8} (htag : tag.toNat < 128) :
    (∀ v : List UInt8, CType.char.vector.overload.ComesBack tag v ↔ v.length < 256) ∧
    (∀ (e : CType) (v : List e.overload.Val), e ≠ .char → (∀ x ∈ v, e.overload.ComesBack 0 x) →
      ((Overload.vector e.overload).ComesBack tag v ↔ v.length < 2 ^ 31)) ∧
    ∀ (k v : CType) (m : List (k.overload.Val × v.overload.Val)), (m.map Prod.fst).Nodup →
      (∀ e ∈ m, k.overload.ComesBack 0 e.1) → (∀ e ∈ m, v.overload.ComesBack 1 e.2) →
      ((k.map v).overload.ComesBack tag m ↔ m.length < 2 ^ 31 ∧ (m = [] ∨ k.AnswersTag)) := by
  refine ⟨fun v => ?_, fun e v _ h => vector_comesBack_iff e.overload htag h,
    fun k v m hnodup hk hv => map_comesBack_iff k v htag hnodup hk hv⟩
  constructor
  · intro h
    by_contra hv
    rcases comesBack_answer (c := .vector .char) htag h with ⟨bs, a, hw, hr, ha⟩
    obtain rfl : a = tag := by
      rcases ha with ⟨_, ha⟩ | ⟨hno, _⟩
      · exact ha
      · exact absurd rfl hno
    exact not_roundTrips_of_misses (writeChars_writes_byte v htag)
      (readChars_misses_byte a hv) ⟨bs, hw, hr⟩
  · intro hv
    exact ⟨tag, _, writeChars_writes_byte v htag, readChars_reads_byte tag (by omega)⟩

end

/-- The map of 5 and 300 to two strings comes back. -/
theorem containers_comeBack_iff_entry :
    (@CType.overload ⟨fun v => v.setWidth 64, fun _ => [], fun _ => []⟩
      (.map .uint .string)).ComesBack 3
        [((5 : BitVec 32), ([104, 105] : List UInt8)),
          ((300 : BitVec 32), ([111] : List UInt8))] := by
  let f : FloatOps := ⟨fun v => v.setWidth 64, fun _ => [], fun _ => []⟩
  let m : List (BitVec 32 × List UInt8) := [(5, [104, 105]), (300, [111])]
  have hnodup : (m.map Prod.fst).Nodup :=
    List.nodup_cons.mpr ⟨by simp, List.nodup_cons.mpr ⟨List.not_mem_nil, List.nodup_nil⟩⟩
  refine ((containers_comeBack_iff (show (3 : UInt8).toNat < 128 by decide)).2.2 .uint .string
    m hnodup ?_ ?_).mpr ⟨by decide, Or.inr trivial⟩
  · intro e he
    have hkey : e.1.toNat < 2 ^ 31 := by
      rcases List.mem_pair.mp he with rfl | rfl <;> decide
    exact ⟨0, _, writeUInt_writes e.1 (by decide), readUInt_reads 0 hkey⟩
  · intro e he
    have hvalue : e.2.length < 128 := by
      rcases List.mem_pair.mp he with rfl | rfl <;> decide
    have hmax : e.2.length ≤ protoMaxStringLength := by
      show e.2.length ≤ 104857600
      omega
    exact ⟨1, _, writeString_writes hmax (by decide), readString_reads 1 hmax (Or.inl hvalue)⟩

/-- A map with a `bool` for a key loses its entry. -/
theorem containers_not_always_comeBack :
    ¬∀ (f : FloatOps) (tag : UInt8), tag.toNat < 128 → ∀ (k v : CType)
      (m : List ((@CType.overload f k).Val × (@CType.overload f v).Val)),
      (m.map Prod.fst).Nodup → (∀ e ∈ m, (@CType.overload f k).ComesBack 0 e.1) →
      (∀ e ∈ m, (@CType.overload f v).ComesBack 1 e.2) →
      (@CType.overload f (k.map v)).ComesBack tag m := by
  intro h
  let f : FloatOps := ⟨fun v => v.setWidth 64, fun _ => [], fun _ => []⟩
  have hback : ∀ tag : UInt8, tag.toNat < 128 →
      (CType.bool.overload).ComesBack tag true := by
    intro tag htag
    refine ⟨1, _, writeChar_writes 1 htag, ?_⟩
    exact (readChar_reads tag 1).then (Reads.pure _)
  have hnodup : ([(true, true)].map Prod.fst).Nodup := by decide
  have hkey : ∀ e ∈ [(true, true)], CType.bool.overload.ComesBack 0 e.1 := by
    intro e he
    obtain rfl := List.mem_singleton.mp he
    exact hback 0 (by decide)
  have hvalue : ∀ e ∈ [(true, true)], CType.bool.overload.ComesBack 1 e.2 := by
    intro e he
    obtain rfl := List.mem_singleton.mp he
    exact hback 1 (by decide)
  have hmap := h f 1 (by decide) .bool .bool [(true, true)] hnodup hkey hvalue
  rcases ((map_comesBack_iff .bool .bool (by decide) hnodup hkey hvalue).mp hmap).2
    with hnil | htag
  · cases hnil
  · exact htag

end OCServer.Cpp
