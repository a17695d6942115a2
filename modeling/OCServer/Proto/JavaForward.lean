import OCServer.Proto.JavaOut
import OCServer.Proto.Message

/-!
# Optional reads of a newer message

A sequence of calls `read( default, tag, false )` with ascending tags, on a
message that may have other fields.  `Carries f t a` says that the field is
of a type that is compatible with `t`: its bytes are those of a value `a` of
`t` that the reader accepts, or it is a `float` that is read as a `double`,
or a list of bytes that is read as a `byte[]`.  `Clashes f t` says that the
readers of `t` have no arm for the type code of the field.

The reads never lose their place, but not every overload hands its default
back when the tag is missing, an empty sample is answered without a look at
the buffer, and a field that clashes is an exception.
`readAll_writeMessage` says exactly which sequences give each read the value
of its field, or its default when there is none.
-/

namespace OCServer.Java

open BigEndian ByteIO ByteSource

/-- The writes of the fields, in order. -/
def writeMessage (fs : List MessageField) : JOut Unit :=
  writeAll (fun f => write f.type f.value f.tag.toNat) fs

theorem writeMessage_writes (fs : List MessageField) :
    Writes (writeMessage fs) (encMessage endTag fs) :=
  Writes.writeAll fs fun f _ => write_writes f.type f.value f.tag

/-- A program writes one sequence of bytes. -/
theorem writes_unique {m : JOut Unit} {bs cs : List UInt8} (h : Writes m bs) (h' : Writes m cs) :
    bs = cs := by
  rcases h [] with ⟨ops, hrun, hbytes⟩
  rcases h' [] with ⟨ops', hrun', hbytes'⟩
  rw [hrun] at hrun'
  cases hrun'
  exact List.append_cancel_left (hbytes.symm.trans hbytes')

/-! ## Requests -/

/-- The first elements of a sample, down to its scalars, show its type. -/
def ShowsType : (t : Ty) → Val t → Prop
  | .list t, v => ∃ x xs, v = x :: xs ∧ ShowsType t x
  | .map k w, v => ∃ x xs, v = x :: xs ∧ ShowsType k x.1 ∧ ShowsType w x.2
  | .strMap, v => v ≠ []
  | .byte, _ | .prim _, _ | .string, _ | .bytes, _ | .array _, _ | .struct _, _ => True

/-- A default whose type can be told.  A number is not `null`, and neither is
a struct, whose class is asked for; a list or a map is `null`, empty or a
sample. -/
def Typed : (t : Ty) → Option (Val t) → Prop
  | .byte, dflt | .prim _, dflt | .struct _, dflt => dflt ≠ none
  | .list t, dflt => ∀ v, dflt = some v → v = [] ∨ ShowsType (.list t) v
  | .map k w, dflt => ∀ v, dflt = some v → v = [] ∨ ShowsType (.map k w) v
  | .string, _ | .bytes, _ | .array _, _ | .strMap, _ => True

theorem typed_list {t : Ty} {x : Val t} (xs : List (Val t)) (h : ShowsType t x) :
    Typed (.list t) (some (x :: xs)) := by
  intro v hv
  cases hv
  exact Or.inr ⟨x, xs, rfl, h⟩

/-- `readArray` and `readMap` answer a new container at once when their
sample is `null` or empty. -/
def atOnce : (t : Ty) → Option (Val t) → Option (Val t)
  | .list _, none | .list _, some [] | .map _ _, none | .map _ _, some [] => some []
  | _, _ => none

/-- A call of `read( dflt, tag, false )`. -/
structure Request where
  type : Ty
  dflt : Option (Val type)
  tag : Int
  typed : Typed type dflt

/-- A request and what it should give. -/
structure Query extends Request where
  answer : Option (Val type)

/-- The tags of the requests are strictly ascending. -/
def AscendingQueries (qs : List Query) : Prop := qs.Pairwise fun q q' => q.tag < q'.tag

/-- The overloads that hand back this default when the tag is missing. -/
def KeepsDefault : (t : Ty) → Option (Val t) → Prop
  | .prim .bool, dflt => dflt = some false
  | .bytes, dflt | .array _, dflt | .struct _, dflt => dflt = none
  | .list _, dflt => dflt = some []
  | .strMap, dflt | .map _ _, dflt => dflt = some []
  | .byte, _ | .prim .short, _ | .prim .int, _ | .prim .long, _ => True
  | .prim .float, _ | .prim .double, _ | .string, _ => True

section

variable [FloatOps]

/-- The call. -/
def Request.read (fuel : Nat) (w : Request) : JIn (Option (Val w.type)) :=
  match atOnce w.type w.dflt with
  | some v => pure (some v)
  | none => Java.read fuel w.type w.dflt w.tag false

/-- The requests, one after the other. -/
def readAll (fuel : Nat) : List Request → JIn (List (Σ t, Option (Val t)))
  | [] => pure []
  | w :: ws => do
    let v ← w.read fuel
    let vs ← readAll fuel ws
    pure (⟨w.type, v⟩ :: vs)

/-- The field holds a value of a type that is compatible with `t`. -/
inductive Carries : MessageField → (t : Ty) → Val t → Prop
  | same {f : MessageField} {t : Ty} {a : Val t} (hok : Ok t a)
      (henc : ∀ tag, enc endTag t tag a = enc endTag f.type tag f.value) : Carries f t a
  | widened (tag : UInt8) (v : BitVec 32) :
      Carries ⟨tag, .prim .float, v⟩ (.prim .double) (FloatOps.widen v)
  | byteList (tag : UInt8) (vs : List (BitVec 8)) :
      Carries ⟨tag, .list .byte, vs⟩ .bytes (vs.map UInt8.ofBitVec)

/-- The field has a type code that the readers of `t` do not know. -/
def Clashes (f : MessageField) (t : Ty) : Prop :=
  ∃ type rest, type.toNat < 16 ∧ type ∉ arms t ∧
    enc endTag f.type f.tag f.value = encHead type f.tag ++ rest

/-- The answer is the value of the field at the tag, or the default when
there is no such field or it clashes. -/
def Claimed (fs : List MessageField) (q : Query) : Prop :=
  (∃ f ∈ fs, (f.tag.toNat : Int) = q.tag ∧
    ((∃ a, Carries f q.type a ∧ q.answer = some a) ∨ Clashes f q.type ∧ q.answer = q.dflt)) ∨
  (∀ f ∈ fs, (f.tag.toNat : Int) ≠ q.tag) ∧ q.answer = q.dflt

/-- The request is answered at once and rightly, or it meets a compatible
field, or it meets no field and its overload hands the default back. -/
def Served (fs : List MessageField) (q : Query) : Prop :=
  match atOnce q.type q.dflt with
  | some v => q.answer = some v
  | none => (∃ f ∈ fs, (f.tag.toNat : Int) = q.tag ∧ ∃ a, Carries f q.type a) ∨
      (∀ f ∈ fs, (f.tag.toNat : Int) ≠ q.tag) ∧ KeepsDefault q.type q.dflt

/-! ## One request -/

omit [FloatOps] in
/-- What a missing field gives is the default, in the overloads that keep it. -/
theorem absent_eq_iff {t : Ty} {dflt : Option (Val t)} (h : atOnce t dflt = none) :
    absent t dflt = dflt ↔ KeepsDefault t dflt := by
  cases t with
  | byte | string => simp [absent, KeepsDefault]
  | prim p => cases p <;> simp [absent, KeepsDefault, eq_comm]
  | bytes | array | struct | strMap => simp [absent, KeepsDefault, eq_comm]
  | list t =>
    rcases dflt with _ | _ | ⟨x, xs⟩
    · cases h
    · cases h
    · simp [absent, KeepsDefault]
  | map k v =>
    rcases dflt with _ | _ | ⟨x, xs⟩
    · cases h
    · cases h
    · simp [absent, KeepsDefault]

/-- The body of a read on a field of a compatible type. -/
theorem Carries.reads {f : MessageField} {t : Ty} {a : Val t} (h : Carries f t a) (fuel : Nat)
    (i : Int) : Reads (readBody (fuel + 2) t i) (enc endTag f.type f.tag f.value) a := by
  cases h with
  | same hok henc =>
    rw [← henc]
    exact readBody_reads fuel endTag t f.tag i a hok
  | widened tag v =>
    show Reads doubleBody (encHead protoFloat tag ++ beBytes 4 v.toNat) (FloatOps.widen v)
    unfold doubleBody
    refine (readHead_reads (by decide) tag).bind ?_
    exact (getBits_reads (k := 32) (w := 4) rfl v).then (Reads.pure _)
  | byteList tag vs => exact byteArrayBody_list_reads (fuel + 1) endTag tag i vs

/-- The body of a read on a field that clashes. -/
theorem Clashes.throws {f : MessageField} {t : Ty} (h : Clashes f t) (fuel : Nat) (i : Int)
    {b : JBuf} {r : List UInt8} (hb : At b (enc endTag f.type f.tag f.value ++ r)) :
    ∃ b', readBody fuel t i b = .error (.decode "type mismatch.") b' := by
  rcases h with ⟨type, rest, htype, hunknown, henc⟩
  rw [henc, List.append_assoc] at hb
  rcases readHead_reads htype f.tag b _ hb with ⟨b₁, hhead, -⟩
  exact ⟨b₁, readBody_unknown fuel i hhead hunknown⟩

theorem Request.read_atOnce {w : Request} {v : Val w.type} (h : atOnce w.type w.dflt = some v)
    (fuel : Nat) (b : JBuf) : w.read fuel b = .ok (some v) b := by
  unfold Request.read
  rw [h]
  rfl

/-- `b'` is at the fields `gs` of the message, which are those behind a read
at `tag` or more. -/
structure Boundary (tail : List UInt8) (fs : List MessageField) (tag : Int) (b b' : JBuf)
    (gs : List MessageField) : Prop where
  suffix : gs <:+ fs
  keeps : ∀ f ∈ fs, tag < f.tag.toNat → f ∈ gs
  at_fields : At b' (encMessage endTag gs ++ tail)
  same : Same b b'

section

variable {tail : List UInt8} (htail : Ends tail) {fs : List MessageField} (hasc : Ascending fs)
  {fuel : Nat} (hfuel : 2 * (encMessage endTag fs).length < fuel + 2) {b : JBuf}
  (hb : At b (encMessage endTag fs ++ tail))

include htail hasc hfuel hb

/-- A read whose tag is there runs its body in front of the field. -/
theorem read_present {f : MessageField} (hf : f ∈ fs) {w : Request}
    (htag : (f.tag.toNat : Int) = w.tag) (hlook : atOnce w.type w.dflt = none) :
    ∃ b₁ gs, At b₁ (enc endTag f.type f.tag f.value ++ (encMessage endTag gs ++ tail)) ∧
      w.read (fuel + 2) b = (some <$> readBody (fuel + 2) w.type w.tag) b₁ ∧
      ∀ b', At b' (encMessage endTag gs ++ tail) → Same b₁ b' →
        Boundary tail fs w.tag b b' gs := by
  rcases skipToTag_message endTag htail w.tag fs hasc (fuel + 2) b hfuel hb
    with ⟨b₁, hskip, hb₁, hsame₁⟩
  have hhas : hasTag w.tag fs = true := hasTag_iff.mpr ⟨f, hf, htag⟩
  rcases fieldsFrom_eq_cons hasc hf with ⟨gs, hgs⟩
  rw [htag] at hgs
  have hsuffix : f :: gs <:+ fs := hgs ▸ List.dropWhile_suffix _
  rw [hgs] at hb₁
  unfold encMessage at hb₁
  rw [List.flatMap_cons, List.append_assoc] at hb₁
  refine ⟨b₁, gs, hb₁, ?_, fun b' hb' hsame' => ?_⟩
  · unfold Request.read Java.read optional
    rw [hlook]
    show (skipToTag (fuel + 2) w.tag >>= _) b = _
    rw [bind_of_ok hskip, hhas, if_pos rfl]
  · refine ⟨(List.suffix_cons f gs).trans hsuffix, ?_, hb', same_trans hsame₁ hsame'⟩
    intro g hg hlt
    have hmem := mem_fieldsFrom hg (Int.le_of_lt hlt)
    rw [hgs] at hmem
    rcases List.mem_cons.mp hmem with rfl | hmem
    · omega
    · exact hmem

/-- A read whose tag is missing. -/
theorem read_absent {w : Request} (habsent : ∀ f ∈ fs, (f.tag.toNat : Int) ≠ w.tag)
    (hlook : atOnce w.type w.dflt = none) :
    ∃ b' gs, w.read (fuel + 2) b = .ok (absent w.type w.dflt) b' ∧
      Boundary tail fs w.tag b b' gs := by
  rcases skipToTag_message endTag htail w.tag fs hasc (fuel + 2) b hfuel hb
    with ⟨b₁, hskip, hb₁, hsame₁⟩
  have hhas : hasTag w.tag fs = false := by
    rw [← Bool.not_eq_true, hasTag_iff]
    intro h
    rcases h with ⟨f, hf, htag⟩
    exact habsent f hf htag
  refine ⟨b₁, fieldsFrom w.tag fs, ?_, List.dropWhile_suffix _,
    fun f hf hlt => mem_fieldsFrom hf (Int.le_of_lt hlt), hb₁, hsame₁⟩
  unfold Request.read Java.read optional
  rw [hlook]
  show (skipToTag (fuel + 2) w.tag >>= _) b = _
  rw [bind_of_ok hskip, hhas]
  rfl

/-- A request that is served gives its answer, and the buffer is at a later
boundary of the message. -/
theorem Served.gives {q : Query} (hq : Claimed fs q) (h : Served fs q) :
    ∃ b' gs, q.read (fuel + 2) b = .ok q.answer b' ∧ Boundary tail fs q.tag b b' gs := by
  unfold Served at h
  split at h
  · next v hnow =>
    refine ⟨b, fs, ?_, List.suffix_refl fs, fun f hf _ => hf, hb, same_refl b⟩
    rw [h]
    exact Request.read_atOnce hnow (fuel + 2) b
  · next hlook =>
    rcases h with ⟨f, hf, htag, a, hcarries⟩ | ⟨habsent, hkeeps⟩
    · rcases read_present htail hasc hfuel hb hf htag hlook with ⟨b₁, gs, hb₁, hread, hgs⟩
      rcases hq with ⟨g, hg, htag', hq⟩ | ⟨habsent, -⟩
      · obtain rfl : f = g := hasc.eq_of_tag hf hg (UInt8.toNat_inj.mp (by omega))
        rcases hq with ⟨a', hcarries', hanswer⟩ | ⟨hclash, -⟩
        · rcases hcarries'.reads fuel q.tag b₁ _ hb₁ with ⟨b₂, hbody, hb₂, hsame⟩
          rw [hread, hanswer]
          exact ⟨b₂, gs, map_of_ok some hbody, hgs b₂ hb₂ hsame⟩
        · -- a field that clashes has no value of the type
          rcases hcarries.reads fuel q.tag b₁ _ hb₁ with ⟨b₂, hbody, -⟩
          rcases hclash.throws (fuel + 2) q.tag hb₁ with ⟨b₃, hthrow⟩
          rw [hbody] at hthrow
          cases hthrow
      · exact absurd htag (habsent f hf)
    · rcases read_absent htail hasc hfuel hb habsent hlook with ⟨b', gs, hread, hgs⟩
      rw [(absent_eq_iff hlook).mpr hkeeps] at hread
      rcases hq with ⟨f, hf, htag, -⟩ | ⟨-, hanswer⟩
      · exact absurd htag (habsent f hf)
      · rw [hanswer]
        exact ⟨b', gs, hread, hgs⟩

/-- A request that gives its answer is served. -/
theorem served_of_read {q : Query} (hq : Claimed fs q) {b' : JBuf}
    (h : q.read (fuel + 2) b = .ok q.answer b') : Served fs q := by
  unfold Served
  split
  · next v hnow =>
    rw [Request.read_atOnce hnow] at h
    injection h with hv
    exact hv.symm
  · next hlook =>
    rcases hq with ⟨f, hf, htag, ⟨a, hcarries, -⟩ | ⟨hclash, -⟩⟩ | ⟨habsent, hanswer⟩
    · exact Or.inl ⟨f, hf, htag, a, hcarries⟩
    · rcases read_present htail hasc hfuel hb hf htag hlook with ⟨b₁, gs, hb₁, hread, -⟩
      rcases hclash.throws (fuel + 2) q.tag hb₁ with ⟨b₂, hbody⟩
      rw [hread, map_of_error some hbody] at h
      cases h
    · rcases read_absent htail hasc hfuel hb habsent hlook with ⟨b₁, gs, hread, -⟩
      rw [hread, hanswer] at h
      injection h with hkept
      exact Or.inr ⟨habsent, (absent_eq_iff hlook).mp hkept⟩

end

/-! ## All requests -/

omit [FloatOps] in
/-- Behind a read, the fields at a later tag are the same. -/
theorem Boundary.mem_iff {tail : List UInt8} {fs gs : List MessageField} {tag tag' : Int}
    {b b' : JBuf} (h : Boundary tail fs tag b b' gs) (hlt : tag < tag') {f : MessageField}
    (htag : (f.tag.toNat : Int) = tag') : f ∈ gs ↔ f ∈ fs :=
  ⟨fun hf => h.suffix.subset hf, fun hf => h.keeps f hf (htag ▸ hlt)⟩

/-- What is claimed of a request depends on the fields at its tag only. -/
theorem Claimed.congr {fs gs : List MessageField} {q : Query}
    (h : ∀ f : MessageField, (f.tag.toNat : Int) = q.tag → (f ∈ gs ↔ f ∈ fs))
    (hq : Claimed fs q) : Claimed gs q := by
  rcases hq with ⟨f, hf, htag, hfield⟩ | ⟨habsent, hanswer⟩
  · exact Or.inl ⟨f, (h f htag).mpr hf, htag, hfield⟩
  · exact Or.inr ⟨fun f hf htag => habsent f ((h f htag).mp hf) htag, hanswer⟩

theorem Served.congr {fs gs : List MessageField} {q : Query}
    (h : ∀ f : MessageField, (f.tag.toNat : Int) = q.tag → (f ∈ gs ↔ f ∈ fs))
    (hq : Served fs q) : Served gs q := by
  unfold Served at hq ⊢
  split at hq
  · exact hq
  · rcases hq with ⟨f, hf, htag, hfield⟩ | ⟨habsent, hkeeps⟩
    · exact Or.inl ⟨f, (h f htag).mpr hf, htag, hfield⟩
    · exact Or.inr ⟨fun f hf htag => habsent f ((h f htag).mp hf) htag, hkeeps⟩

/-- The requests give what is claimed exactly when each of them is served,
and then they stop at a boundary. -/
theorem readAll_message {tail : List UInt8} (htail : Ends tail) (fuel : Nat) (qs : List Query)
    (hqs : AscendingQueries qs) :
    ∀ (fs : List MessageField) (b : JBuf), Ascending fs → (∀ q ∈ qs, Claimed fs q) →
      2 * (encMessage endTag fs).length < fuel + 2 → At b (encMessage endTag fs ++ tail) →
      ((∀ q ∈ qs, Served fs q) →
        ∃ b' gs, readAll (fuel + 2) (qs.map Query.toRequest) b =
            .ok (qs.map fun q => ⟨q.type, q.answer⟩) b' ∧
          gs <:+ fs ∧ At b' (encMessage endTag gs ++ tail) ∧ Same b b') ∧
      ∀ b', readAll (fuel + 2) (qs.map Query.toRequest) b =
          .ok (qs.map fun q => ⟨q.type, q.answer⟩) b' → ∀ q ∈ qs, Served fs q := by
  induction qs with
  | nil =>
    intro fs b _ _ _ hb
    exact ⟨fun _ => ⟨b, fs, rfl, List.suffix_refl fs, hb, same_refl b⟩, fun _ _ _ h => by cases h⟩
  | cons q qs ih =>
    intro fs b hasc hclaimed hfuel hb
    rcases List.pairwise_cons.mp hqs with ⟨hlt, hqs'⟩
    have hq := hclaimed q List.mem_cons_self
    -- what the other requests find behind this one
    have hrest : ∀ {b₁ : JBuf} {gs : List MessageField}, Boundary tail fs q.tag b b₁ gs → _ :=
      fun {b₁ gs} hgs => ih hqs' gs b₁ (hasc.sublist hgs.suffix.sublist)
        (fun q' hq' => (hclaimed q' (List.mem_cons_of_mem q hq')).congr
          fun f htag => hgs.mem_iff (hlt q' hq') htag)
        (by have := encMessage_length_le endTag hgs.suffix; omega) hgs.at_fields
    constructor
    · intro hserved
      rcases (hserved q List.mem_cons_self).gives htail hasc hfuel hb hq
        with ⟨b₁, gs, hread, hgs⟩
      have hlater : ∀ q' ∈ qs, Served gs q' := fun q' hq' =>
        (hserved q' (List.mem_cons_of_mem q hq')).congr
          fun f htag => hgs.mem_iff (hlt q' hq') htag
      rcases (hrest hgs).1 hlater with ⟨b₂, gs₂, hall, hsuffix, hb₂, hsame⟩
      refine ⟨b₂, gs₂, ?_, hsuffix.trans hgs.suffix, hb₂, same_trans hgs.same hsame⟩
      rw [List.map_cons]
      unfold readAll
      rw [bind_of_ok hread, bind_of_ok hall]
      rfl
    · intro b' hrun
      rw [List.map_cons] at hrun
      unfold readAll at hrun
      rcases bind_eq_ok hrun with ⟨v, b₁, hread, hrun⟩
      rcases bind_eq_ok hrun with ⟨vs, b₂, hall, hrun⟩
      injection hrun with hvs
      rcases List.cons.inj hvs with ⟨hv, rfl⟩
      obtain rfl : v = q.answer := eq_of_heq (Sigma.mk.inj hv).2
      have hserved := served_of_read htail hasc hfuel hb hq hread
      rcases hserved.gives htail hasc hfuel hb hq with ⟨b₁', gs, hread', hgs⟩
      rw [hread] at hread'
      cases hread'
      intro q' hq'
      rcases List.mem_cons.mp hq' with rfl | hq'
      · exact hserved
      · exact ((hrest hgs).2 b₂ hall q' hq').congr
          fun f htag => (hgs.mem_iff (hlt q' hq') htag).symm

/-- For every message that `ProtoOutputStream` writes, at the end of the data
or in front of the end of a struct, and all optional reads with ascending
tags: each read gives the value of its field, or its default when there is
none, with the position at the boundary of a field, exactly when every
request is served. -/
theorem readAll_writeMessage (fs : List MessageField) (qs : List Query) (hfs : Ascending fs)
    (hqs : AscendingQueries qs) (hclaimed : ∀ q ∈ qs, Claimed fs q)
    (hsize : (encMessage endTag fs).length < 2 ^ 31) :
    (∃ bs, Writes (writeMessage fs) bs ∧
      ∀ (tail : List UInt8) (b : JBuf), Ends tail → At b (bs ++ tail) →
      ∀ fuel, 2 * bs.length + 2 ≤ fuel →
      ∃ b' gs, readAll fuel (qs.map Query.toRequest) b =
          .ok (qs.map fun q => ⟨q.type, q.answer⟩) b' ∧
        gs <:+ fs ∧ At b' (encMessage endTag gs ++ tail) ∧ Same b b') ↔
    ∀ q ∈ qs, Served fs q := by
  constructor
  · intro h
    rcases h with ⟨bs, hwrites, hall⟩
    obtain rfl := writes_unique hwrites (writeMessage_writes fs)
    have hb : At (JBuf.wrap (encMessage endTag fs) hsize) (encMessage endTag fs ++ []) := by
      rw [List.append_nil]
      exact List.take_length
    rcases hall [] _ (Or.inl rfl) hb _ (Nat.le_refl _) with ⟨b', gs, hrun, -⟩
    exact (readAll_message (Or.inl rfl) _ qs hqs fs _ hfs hclaimed (by omega) hb).2 b' hrun
  · intro hserved
    refine ⟨_, writeMessage_writes fs, fun tail b htail hb fuel hfuel => ?_⟩
    have hle : 2 ≤ fuel := by omega
    have hfuel' : 2 * (encMessage endTag fs).length < fuel - 2 + 2 := by omega
    have h := (readAll_message htail (fuel - 2) qs hqs fs b hfs hclaimed hfuel' hb).1 hserved
    rwa [Nat.sub_add_cancel hle] at h

end

/-- An `int` that is read as a `long`, a `boolean` and a `byte[]` that are
missing, and a string and a list behind a struct that is not asked for. -/
theorem readAll_writeMessage_newer :
    ∃ bs, Writes (writeMessage [⟨1, .prim .int, 300⟩, ⟨3, .struct (.cons 7 (.list .byte) .nil),
        ([5], ())⟩, ⟨20, .string, [104, 105]⟩, ⟨21, .list (.prim .int), [1, 70000]⟩]) bs ∧
      ∀ (tail : List UInt8) (b : JBuf), Ends tail → At b (bs ++ tail) →
      ∀ fuel, 2 * bs.length + 2 ≤ fuel →
      ∃ b' gs, @readAll ⟨fun v => v.setWidth 64, fun _ => [], fun _ => []⟩ fuel
          [⟨.prim .long, some 7, 1, nofun⟩, ⟨.prim .bool, some false, 2, nofun⟩,
            ⟨.bytes, none, 4, trivial⟩, ⟨.string, some [], 20, trivial⟩,
            ⟨.list (.prim .int), some [0], 21, typed_list [] trivial⟩]
          b = .ok [⟨.prim .long, some 300⟩, ⟨.prim .bool, some false⟩, ⟨.bytes, none⟩,
            ⟨.string, some [104, 105]⟩, ⟨.list (.prim .int), some [1, 70000]⟩] b' ∧
        gs <:+ [⟨1, .prim .int, 300⟩, ⟨3, .struct (.cons 7 (.list .byte) .nil), ([5], ())⟩,
          ⟨20, .string, [104, 105]⟩, ⟨21, .list (.prim .int), [1, 70000]⟩] ∧
        At b' (encMessage endTag gs ++ tail) ∧ Same b b' := by
  let o : FloatOps := ⟨fun v => v.setWidth 64, fun _ => [], fun _ => []⟩
  let fs : List MessageField := [⟨1, .prim .int, 300⟩, ⟨3, .struct (.cons 7 (.list .byte) .nil),
    ([5], ())⟩, ⟨20, .string, [104, 105]⟩, ⟨21, .list (.prim .int), [1, 70000]⟩]
  let qs : List Query := [⟨⟨.prim .long, some 7, 1, nofun⟩, some 300⟩,
    ⟨⟨.prim .bool, some false, 2, nofun⟩, some false⟩, ⟨⟨.bytes, none, 4, trivial⟩, none⟩,
    ⟨⟨.string, some [], 20, trivial⟩, some [104, 105]⟩,
    ⟨⟨.list (.prim .int), some [0], 21, typed_list [] trivial⟩,
      some [1, 70000]⟩]
  have hint : Carries ⟨1, .prim .int, 300⟩ (.prim .long) 300 := .same trivial fun _ => rfl
  have hstring : Carries ⟨20, .string, [104, 105]⟩ .string [104, 105] :=
    .same (by decide : 2 ≤ protoMaxStringLength) fun _ => rfl
  have hlist : Carries ⟨21, .list (.prim .int), [1, 70000]⟩ (.list (.prim .int)) [1, 70000] :=
    .same (fun _ _ => trivial) fun _ => rfl
  have habsent : ∀ tag : Int, tag = 2 ∨ tag = 4 → ∀ f ∈ fs, (f.tag.toNat : Int) ≠ tag := by
    intro tag htag f hf
    simp only [fs, List.mem_cons, List.not_mem_nil, or_false] at hf
    rcases htag with rfl | rfl <;> rcases hf with rfl | rfl | rfl | rfl <;> decide
  refine (readAll_writeMessage fs qs ?_ ?_ ?_ ?_).mpr ?_
  · unfold Ascending
    decide
  · unfold AscendingQueries
    simp [qs]
  · intro q hq
    simp only [qs, List.mem_cons, List.not_mem_nil, or_false] at hq
    rcases hq with rfl | rfl | rfl | rfl | rfl
    · exact Or.inl ⟨_, by simp [fs], rfl, Or.inl ⟨_, hint, rfl⟩⟩
    · exact Or.inr ⟨habsent 2 (Or.inl rfl), rfl⟩
    · exact Or.inr ⟨habsent 4 (Or.inr rfl), rfl⟩
    · exact Or.inl ⟨⟨20, .string, [104, 105]⟩, by simp [fs], rfl, Or.inl ⟨_, hstring, rfl⟩⟩
    · exact Or.inl ⟨_, by simp [fs], rfl, Or.inl ⟨_, hlist, rfl⟩⟩
  · decide
  · intro q hq
    simp only [qs, List.mem_cons, List.not_mem_nil, or_false] at hq
    rcases hq with rfl | rfl | rfl | rfl | rfl
    · exact Or.inl ⟨_, by simp [fs], rfl, _, hint⟩
    · exact Or.inr ⟨habsent 2 (Or.inl rfl), rfl⟩
    · exact Or.inr ⟨habsent 4 (Or.inr rfl), rfl⟩
    · exact Or.inl ⟨⟨20, .string, [104, 105]⟩, by simp [fs], rfl, _, hstring⟩
    · exact Or.inl ⟨_, by simp [fs], rfl, _, hlist⟩

/-- A `boolean` that is missing is `false`, whatever the default. -/
theorem not_always_default :
    ¬∀ (_ : FloatOps) (fs : List MessageField) (qs : List Query), Ascending fs →
      AscendingQueries qs → (∀ q ∈ qs, Claimed fs q) →
      ∃ bs, Writes (writeMessage fs) bs ∧
        ∀ (tail : List UInt8) (b : JBuf), Ends tail → At b (bs ++ tail) →
        ∃ fuel b', readAll fuel (qs.map Query.toRequest) b =
          .ok (qs.map fun q => ⟨q.type, q.answer⟩) b' := by
  intro h
  let o : FloatOps := ⟨fun v => v.setWidth 64, fun _ => [], fun _ => []⟩
  let q : Query := ⟨⟨.prim .bool, some true, 2, nofun⟩, some true⟩
  have habsent : ∀ f ∈ [(⟨1, .prim .int, 300⟩ : MessageField)], (f.tag.toNat : Int) ≠ 2 := by
    intro f hf
    rw [List.mem_singleton] at hf
    subst hf
    decide
  rcases h o [⟨1, .prim .int, 300⟩] [q] (List.pairwise_singleton _ _)
    (List.pairwise_singleton _ _)
    (List.forall_mem_singleton.mpr (Or.inr ⟨habsent, rfl⟩)) with ⟨bs, hw, hrun⟩
  obtain rfl : [0x11, 1, 44] = bs := writes_unique (writeMessage_writes [⟨1, .prim .int, 300⟩]) hw
  rcases hrun [] (.wrap [0x11, 1, 44] (by decide)) (Or.inl rfl) rfl with ⟨fuel, b', hok⟩
  rcases fuel with _ | _ | fuel
  · cases hok
  · cases hok
  · cases hok

end OCServer.Java
