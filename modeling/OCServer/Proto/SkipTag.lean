import OCServer.Lib.Fuel
import OCServer.Proto.CppSkip
import OCServer.Proto.Message

/-!
# `skipToTag` in the two languages

`ProtoIn::skipToTag` on a message whose fields below the wanted tag are
flat: a field that is there is found, as in Java.  When there is none, the
header that ends the search has been read, and at the end of the data the
search goes on from the first byte.

`Agrees` compares the two, and `agrees_iff` says exactly when they agree.
-/

namespace OCServer.Cpp

open BigEndian ByteIO ByteSource Fuel

/-- A result that is not cut off. -/
def Settled {α : Type} (r : EStateM.Result CppExc IStream α) : Prop :=
  ∀ s, r ≠ .error .outOfFuel s

theorem settled_ok {α : Type} (a : α) (s : IStream) : Settled (.ok a s) := by
  intro s' h
  cases h

/-- `skipToTag` as a run with fuel. -/
def run (tag : Int) (n : Nat) (s : IStream) : EStateM.Result CppExc IStream Bool :=
  skipToTag n tag s

/-! ## One header -/

section

variable {s : IStream} {tag : Int}

theorem good_eq {l : List UInt8} (hs : At s l) : good s = .ok true s := good_of_not_fail hs.1

/-- A tag below 128 is not negative. -/
theorem toInt_tag {t : UInt8} (ht : t.toNat < 128) : t.toBitVec.toInt = t.toNat :=
  BitVec.toInt_eq_toNat_of_lt (by show 2 * t.toNat < 2 ^ 8; omega)

/-- What the loop does behind a header. -/
theorem skipToTagLoop_head (tag : Int) {type t : UInt8} (htype : type.toNat < 16) {r : List UInt8}
    (hs : At s (encHead type t ++ r)) :
    ∃ s₁, readHead s = .ok ⟨type, t, (encHead type t).length⟩ s₁ ∧ At s₁ r ∧ Same s s₁ ∧
      ∀ fuel, skipToTagLoop (fuel + 1) tag s =
        (if type = protoStructEnd then pure false
        else if tag ≤ t.toBitVec.toInt then
          if tag = t.toBitVec.toInt then
            tell >>= fun p => seek (p - (encHead type t).length) >>= fun _ => pure true
          else pure false
        else skipField fuel type >>= fun _ => skipToTagLoop fuel tag : CppIn Bool) s₁ := by
  rcases readHead_reads htype t s r hs with ⟨s₁, hhead, hs₁, hsame⟩
  refine ⟨s₁, hhead, hs₁, hsame, fun fuel => ?_⟩
  conv_lhs => unfold skipToTagLoop
  rw [bind_of_ok (good_eq hs)]
  show (readHead >>= _) s = _
  rw [bind_of_ok hhead]

/-- Seeking back over the header. -/
theorem seek_back {bs r : List UInt8} {s₁ : IStream} (ht : Tellable s) (hs : At s (bs ++ r))
    (hs₁ : At s₁ r) (hsame : Same s s₁) :
    ∃ s₂, (tell >>= fun p => seek (p - bs.length)) s₁ = .ok () s₂ ∧ At s₂ (bs ++ r) ∧
      Same s s₂ := by
  have ht₁ := Tellable.of_same hsame ht
  have hlen := at_length hs
  have hlen₁ := at_length hs₁
  rcases hsame with ⟨hdata, hseek⟩
  rw [List.length_append] at hlen
  rw [hdata] at hlen₁
  have hpos : (s₁.pos : Int) - bs.length = s.pos := by omega
  refine ⟨{ s₁ with pos := s.pos, fail := false }, ?_, ⟨rfl, ?_, ?_⟩, hdata, hseek⟩
  · rw [bind_of_ok (tell_eq ht₁ hs₁), hpos]
    unfold seek
    rw [if_pos ⟨ht₁.1, by omega, by rw [hdata]; omega⟩, Int.toNat_natCast]
  · show s.pos ≤ s₁.data.length
    rw [hdata]
    omega
  · show s₁.data.drop s.pos = bs ++ r
    rw [hdata]
    exact hs.2.2

/-- The wanted field. -/
theorem yields_found {type t : UInt8} {rest : List UInt8} (htype : type.toNat < 16)
    (hne : type ≠ protoStructEnd) (htag : t.toNat < 128) (ht : Tellable s)
    (hs : At s (encHead type t ++ rest)) :
    ∃ s', Yields (run t.toNat) s (.ok true s') ∧ At s' (encHead type t ++ rest) ∧ Same s s' := by
  rcases skipToTagLoop_head _ htype hs with ⟨s₁, _, hs₁, hsame, hloop⟩
  rcases seek_back ht hs hs₁ hsame with ⟨s₂, hback, hs₂, hsame₂⟩
  refine ⟨s₂, Yields.of_succ fun n => ?_, hs₂, hsame₂⟩
  have hrun : skipToTagLoop (n + 1) t.toNat s = .ok true s₂ := by
    rw [hloop, if_neg hne, toInt_tag htag, if_pos (Int.le_refl _), if_pos rfl]
    show (do (tell >>= fun p => seek (p - (encHead type t).length)); pure true : CppIn Bool) s₁ = _
    rw [bind_of_ok hback]
    rfl
  unfold run skipToTag catchError
  rw [hrun]

/-- A larger field: its header has been read. -/
theorem yields_larger {type t : UInt8} {rest : List UInt8} (htype : type.toNat < 16)
    (hne : type ≠ protoStructEnd) (htag : t.toNat < 128) (hlt : tag < t.toNat)
    (hs : At s (encHead type t ++ rest)) :
    ∃ s', Yields (run tag) s (.ok false s') ∧ At s' rest ∧ Same s s' := by
  rcases skipToTagLoop_head _ htype hs with ⟨s₁, _, hs₁, hsame, hloop⟩
  refine ⟨s₁, Yields.of_succ fun n => ?_, hs₁, hsame⟩
  have hrun : skipToTagLoop (n + 1) tag s = .ok false s₁ := by
    rw [hloop, if_neg hne, toInt_tag htag, if_pos (by omega), if_neg (by omega)]
    rfl
  unfold run skipToTag catchError
  rw [hrun]

/-- The end of a struct: its header has been read. -/
theorem yields_end (tag : Int) {t : UInt8} {rest : List UInt8}
    (hs : At s (encHead protoStructEnd t ++ rest)) :
    ∃ s', Yields (run tag) s (.ok false s') ∧ At s' rest ∧ Same s s' := by
  rcases skipToTagLoop_head _ (by decide) hs with ⟨s₁, _, hs₁, hsame, hloop⟩
  refine ⟨s₁, Yields.of_succ fun n => ?_, hs₁, hsame⟩
  have hrun : skipToTagLoop (n + 1) tag s = .ok false s₁ := by
    rw [hloop, if_pos rfl]
    rfl
  unfold run skipToTag catchError
  rw [hrun]

/-- Two loops that do the same do so behind the handler. -/
theorem steps_of_loop {t : IStream}
    (hzero : ∃ s', skipToTagLoop 1 tag s = .error .outOfFuel s')
    (hsucc : ∀ n, skipToTagLoop (n + 2) tag s = skipToTagLoop (n + 1) tag t) :
    Steps Settled (run tag) s t := by
  refine ⟨fun h => h s rfl, fun n r hr => ?_⟩
  unfold run skipToTag catchError
  cases n with
  | zero =>
    rcases hzero with ⟨s', hzero⟩
    rw [hzero]
    constructor
    · intro h
      exact absurd h.symm (hr s')
    · intro h
      exact absurd h.symm (hr t)
  | succ n => rw [hsucc]

/-- A smaller field that is skipped. -/
theorem steps_below {t : UInt8} {bs r : List UInt8} (h : Skipped t bs) (htag : t.toNat < 128)
    (hlt : (t.toNat : Int) < tag) (ht : Tellable s) (hs : At s (bs ++ r)) :
    ∃ s', Steps Settled (run tag) s s' ∧ At s' r ∧ Same s s' := by
  rcases h with ⟨type, rest, htype, hne, rfl, hflat, hskip⟩
  rw [List.append_assoc] at hs
  rcases skipToTagLoop_head tag htype hs with ⟨s₁, _, hs₁, hsame, hloop⟩
  rcases hskip s₁ r (Tellable.of_same hsame ht) hs₁ with ⟨s₂, hrun, hs₂, hsame₂⟩
  have hbelow : ∀ n, skipToTagLoop (n + 1) tag s =
      (skipField n type >>= fun _ => skipToTagLoop n tag) s₁ := by
    intro n
    rw [hloop, if_neg hne, toInt_tag htag, if_neg (by omega)]
  refine ⟨s₂, steps_of_loop ⟨s₁, ?_⟩ fun n => ?_, hs₂, same_trans hsame hsame₂⟩
  · rw [hbelow]
    rfl
  · rw [hbelow, hflat n, bind_of_ok hrun]

/-! ## The end of the data -/

theorem getInto_nil (target : UInt8) (hs : At s []) :
    getInto target s = .ok target { s with fail := true } := by
  have hlen := at_length hs
  rw [List.length_nil] at hlen
  have hget : s.data[s.pos]? = none := List.getElem?_eq_none (by omega)
  unfold getInto
  rw [hs.1, hget]
  rfl

/-- A header that is not there is a `BYTE` at tag 0. -/
theorem readHead_nil (hs : At s []) : readHead s = .ok ⟨0, 0, 1⟩ { s with fail := true } := by
  unfold readHead
  rw [bind_of_ok (getInto_nil 0 hs)]
  rfl

theorem skipToTagLoop_nil (tag : Int) (hs : At s []) (fuel : Nat) :
    skipToTagLoop (fuel + 1) tag s =
      (if tag ≤ 0 then
        if tag = 0 then tell >>= fun p => seek (p - 1) >>= fun _ => pure true else pure false
      else skipField fuel protoByte >>= fun _ => skipToTagLoop fuel tag : CppIn Bool)
        { s with fail := true } := by
  conv_lhs => unfold skipToTagLoop
  rw [bind_of_ok (good_eq hs)]
  show (readHead >>= _) s = _
  rw [bind_of_ok (readHead_nil hs)]
  rfl

/-- A tag that is not positive is answered on a stream that has failed. -/
theorem skipToTagLoop_nonpos (hs : At s []) (htag : tag ≤ 0) (fuel : Nat) :
    skipToTagLoop (fuel + 1) tag s = .ok (tag == 0) { s with fail := true } := by
  rw [skipToTagLoop_nil tag hs, if_pos htag]
  by_cases hzero : tag = 0
  · have hseek : seek (-1 - 1) { s with fail := true } = .ok () { s with fail := true } := by
      unfold seek
      rw [if_neg (by omega)]
    rw [if_pos hzero]
    show (seek (-1 - 1) >>= fun _ => pure true : CppIn Bool) { s with fail := true } = _
    rw [bind_of_ok hseek, hzero]
    rfl
  · rw [if_neg hzero, beq_eq_false_iff_ne.mpr hzero]
    rfl

theorem yields_nil_of_nonpos (hs : At s []) (htag : tag ≤ 0) :
    ∃ s', Yields (run tag) s (.ok (tag == 0) s') ∧ s'.fail = true := by
  refine ⟨{ s with fail := true }, Yields.of_succ fun n => ?_, rfl⟩
  unfold run skipToTag catchError
  rw [skipToTagLoop_nonpos hs htag]

/-- A move from a stream that has failed starts at -1. -/
theorem skip_failed (ht : Tellable s) :
    skip 1 { s with fail := true } = .ok () { s with pos := 0, fail := false } := by
  show seek (-1 + 1) { s with fail := true } = _
  unfold seek
  rw [if_pos ⟨ht.1, by omega, Nat.zero_le _⟩]
  rfl

/-- A positive tag is searched from the first byte of the data. -/
theorem steps_nil (hs : At s []) (ht : Tellable s) (htag : 0 < tag) :
    ∃ s', Steps Settled (run tag) s s' ∧ At s' s.data ∧ Same s s' := by
  have hloop := skipToTagLoop_nil tag hs
  refine ⟨{ s with pos := 0, fail := false }, steps_of_loop ⟨{ s with fail := true }, ?_⟩
    fun n => ?_, ⟨rfl, Nat.zero_le _, rfl⟩, rfl, rfl⟩
  · rw [hloop, if_neg (by omega)]
    rfl
  · rw [hloop, if_neg (by omega)]
    show (skip 1 >>= fun _ => skipToTagLoop (n + 1) tag : CppIn Bool) { s with fail := true } = _
    rw [bind_of_ok (skip_failed ht)]

/-! ## A message -/

/-- The fields below the tag are flat. -/
def FlatBelow (tag : Int) (fs : List MessageField) : Prop :=
  ∀ f ∈ fs, (f.tag.toNat : Int) < tag → Flat f.type.kind

/-- The search goes to the first field that is not below the tag. -/
theorem yields_fields (endTag : UInt8 → UInt8) (tag : Int) {l : List UInt8} (fs : List MessageField)
    (hsmall : ∀ f ∈ fs, f.tag.toNat < 128) (hflat : FlatBelow tag fs) :
    ∀ s : IStream, Tellable s → At s (encMessage endTag fs ++ l) →
      ∃ s', (∀ r, Settled r → (Yields (run tag) s r ↔ Yields (run tag) s' r)) ∧
        At s' (encMessage endTag (fieldsFrom tag fs) ++ l) ∧ Same s s' := by
  induction fs with
  | nil => exact fun s _ hs => ⟨s, fun _ _ => Iff.rfl, hs, same_refl s⟩
  | cons f fs ih =>
    intro s ht hs
    by_cases hle : tag ≤ f.tag.toNat
    · rw [fieldsFrom_cons_of_le hle]
      exact ⟨s, fun _ _ => Iff.rfl, hs, same_refl s⟩
    · have hlt : (f.tag.toNat : Int) < tag := by omega
      rw [fieldsFrom_cons_of_lt hlt]
      unfold encMessage at hs
      rw [List.flatMap_cons, List.append_assoc] at hs
      have hskipped := skipped_enc endTag (hflat f List.mem_cons_self hlt) f.tag f.value
      rcases steps_below hskipped (hsmall f List.mem_cons_self) hlt ht hs
        with ⟨s₁, hstep, hs₁, hsame₁⟩
      rcases ih (fun g hg => hsmall g (List.mem_cons_of_mem f hg))
        (fun g hg => hflat g (List.mem_cons_of_mem f hg)) s₁ (Tellable.of_same hsame₁ ht) hs₁
        with ⟨s₂, hyields, hs₂, hsame₂⟩
      exact ⟨s₂, fun r hr => (hstep.yields hr).trans (hyields r hr), hs₂,
        same_trans hsame₁ hsame₂⟩

/-- A stream and a buffer before the fields `fs` of a message, behind its
fields `pre`.  A message that the end of the data ends is all of the data. -/
structure AtMessage (endTag : UInt8 → UInt8) (pre fs : List MessageField) (tail : List UInt8)
    (s : IStream) (b : Java.JBuf) : Prop where
  ascending : Ascending (pre ++ fs)
  small : ∀ f ∈ pre ++ fs, f.tag.toNat < 128
  ends : Ends tail
  tellable : Tellable s
  stream : At s (encMessage endTag fs ++ tail)
  top : tail = [] → s.data = encMessage endTag (pre ++ fs)
  data : b.data = s.data
  pos : b.pos = s.pos
  limit : b.limit = b.data.length

/-- The two return the same answer, and `tell` gives the position of the
buffer. -/
def Agrees (tag : Int) (s : IStream) (b : Java.JBuf) : Prop :=
  ∃ r s' b', Yields (run tag) s (.ok r s') ∧
    Yields (fun n b => Java.skipToTag n tag b) b (.ok r b') ∧ tell s' = .ok (b'.pos : Int) s'

/-- A search at the end of the data that stops behind the last field of the
message by accident: all that this field has is a header, and it is the first
one above the tag. -/
def Lucky (endTag : UInt8 → UInt8) (tag : Int) (pre fs : List MessageField)
    (tail : List UInt8) : Prop :=
  fs = [] ∧ tail = [] ∧ 0 < tag ∧ ∃ init g type, pre = init ++ [g] ∧
    (∀ f ∈ init, (f.tag.toNat : Int) < tag) ∧ tag < g.tag.toNat ∧
    enc endTag g.type g.tag g.value = encHead type g.tag

section

variable {endTag : UInt8 → UInt8} {pre fs : List MessageField} {tail : List UInt8} {s : IStream}
  {b : Java.JBuf} {tag : Int}

/-- What the Java reader does. -/
theorem AtMessage.java (h : AtMessage endTag pre fs tail s b) (tag : Int) :
    ∃ b', Yields (fun n b => Java.skipToTag n tag b) b (.ok (hasTag tag fs) b') ∧
      b'.pos + (encMessage endTag (fieldsFrom tag fs) ++ tail).length = s.data.length := by
  have hb : At b (encMessage endTag fs ++ tail) := by
    show (b.data.take b.limit).drop b.pos = _
    rw [h.limit, List.take_length, h.data, h.pos]
    exact h.stream.2.2
  have hasc : Ascending fs := h.ascending.sublist (List.sublist_append_right pre fs)
  have hrun := fun n hn => Java.skipToTag_message endTag h.ends tag fs hasc n b hn hb
  rcases hrun (2 * (encMessage endTag fs).length + 1) (by omega) with ⟨b', _, hb', hsame⟩
  refine ⟨b', ⟨2 * (encMessage endTag fs).length + 1, fun n hn => ?_⟩, ?_⟩
  · rcases hrun n (by omega) with ⟨b₁, hrun₁, hb₁, hsame₁⟩
    have hsame' : Same b' b₁ :=
      ⟨hsame₁.1.trans hsame.1.symm, hsame₁.2.trans hsame.2.symm⟩
    rw [Java.eq_of_at hb' hb₁ hsame']
    exact hrun₁
  · have hlen := Java.at_length hb'
    have hpos := b'.pos_le
    rw [hsame.2, h.limit, h.data] at hlen
    rw [hsame.2, h.limit, h.data] at hpos
    omega

/-- The two agree when the results that they have are the same. -/
theorem agrees_iff_of_yields {r r' : Bool} {s' : IStream} {b' : Java.JBuf}
    (hs : Yields (run tag) s (.ok r s'))
    (hb : Yields (fun n b => Java.skipToTag n tag b) b (.ok r' b')) :
    Agrees tag s b ↔ r = r' ∧ tell s' = .ok (b'.pos : Int) s' := by
  constructor
  · intro h
    rcases h with ⟨r₁, s₁, b₁, hs₁, hb₁, htell⟩
    have heqs := hs.unique hs₁
    have heqb := hb.unique hb₁
    cases heqs
    cases heqb
    exact ⟨rfl, htell⟩
  · intro h
    rcases h with ⟨rfl, htell⟩
    exact ⟨r, s', b', hs, hb, htell⟩

/-- The position by what is left. -/
theorem tell_iff {s' : IStream} {l : List UInt8} {p : Nat} (ht : Tellable s) (hs' : At s' l)
    (hsame : Same s s') : tell s' = .ok (p : Int) s' ↔ p + l.length = s.data.length := by
  have hlen := at_length hs'
  rw [tell_eq (Tellable.of_same hsame ht) hs']
  rw [hsame.1] at hlen
  constructor
  · intro h
    injection h with hpos _
    omega
  · intro h
    have hpos : s'.pos = p := by omega
    rw [hpos]

/-- A search for a tag above all fields of the message never ends. -/
theorem never_settled {all : List MessageField} (htag : 0 < tag)
    (hsmall : ∀ f ∈ all, f.tag.toNat < 128)
    (hbelow : ∀ f ∈ all, (f.tag.toNat : Int) < tag) (hflat : FlatBelow tag all) :
    ∀ (n : Nat) (s : IStream), (Tellable s ∧ s.data = encMessage endTag all ∧
      ∃ gs, gs <:+ all ∧ At s (encMessage endTag gs)) → ¬Settled (run tag n s) := by
  apply not_done_of_progress
  intro s h
  rcases h with ⟨ht, hdata, gs, hsuffix, hs⟩
  cases gs with
  | nil =>
    rcases steps_nil hs ht htag with ⟨s', hstep, hs', hsame⟩
    rw [hdata] at hs'
    exact ⟨s', hstep, Tellable.of_same hsame ht, hsame.1.trans hdata, all,
      List.suffix_refl all, hs'⟩
  | cons f gs =>
    have hf : f ∈ all := hsuffix.subset List.mem_cons_self
    have hskipped := skipped_enc endTag (hflat f hf (hbelow f hf)) f.tag f.value
    unfold encMessage at hs
    rw [List.flatMap_cons] at hs
    rcases steps_below hskipped (hsmall f hf) (hbelow f hf) ht hs with ⟨s', hstep, hs', hsame⟩
    exact ⟨s', hstep, Tellable.of_same hsame ht, hsame.1.trans hdata, gs,
      (List.suffix_cons f gs).trans hsuffix, hs'⟩

/-- A field at the tag or above it comes first. -/
theorem agrees_iff_of_cons (h : AtMessage endTag pre fs tail s b) (hflat : FlatBelow tag fs)
    {f : MessageField} {gs : List MessageField} (hfrom : fieldsFrom tag fs = f :: gs) :
    Agrees tag s b ↔ (f.tag.toNat : Int) = tag := by
  have hle := le_of_fieldsFrom_cons hfrom
  have hasc : Ascending fs := h.ascending.sublist (List.sublist_append_right pre fs)
  have hsmall : ∀ g ∈ fs, g.tag.toNat < 128 := fun g hg =>
    h.small g (List.mem_append_right pre hg)
  have hmem : f ∈ fs := by
    apply (List.dropWhile_sublist _).subset
    show f ∈ fieldsFrom tag fs
    rw [hfrom]
    exact List.mem_cons_self
  rcases h.java tag with ⟨b', hjava, hpos⟩
  rcases yields_fields endTag tag fs hsmall hflat s h.tellable h.stream
    with ⟨s₁, hyields, hs₁, hsame₁⟩
  have ht₁ := Tellable.of_same hsame₁ h.tellable
  rcases Java.fieldAt_enc endTag f.type f.tag f.value with ⟨type, rest, htype, hne, henc⟩
  rw [hfrom] at hs₁ hpos
  unfold encMessage at hs₁ hpos
  rw [List.flatMap_cons, henc, List.append_assoc, List.append_assoc] at hs₁ hpos
  by_cases heq : (f.tag.toNat : Int) = tag
  · subst heq
    rcases yields_found htype hne (hsmall f hmem) ht₁ hs₁ with ⟨s₂, hfound, hs₂, hsame₂⟩
    have hhas := (hasTag_iff_fieldsFrom hasc).mpr ⟨f, gs, hfrom, rfl⟩
    rw [hhas] at hjava
    refine iff_of_true ?_ rfl
    rw [agrees_iff_of_yields ((hyields _ (settled_ok _ _)).mpr hfound) hjava]
    exact ⟨rfl, (tell_iff h.tellable hs₂ (same_trans hsame₁ hsame₂)).mpr hpos⟩
  · refine iff_of_false ?_ heq
    have hlt : tag < f.tag.toNat := by omega
    rcases yields_larger htype hne (hsmall f hmem) hlt hs₁ with ⟨s₂, hlarger, hs₂, hsame₂⟩
    rw [agrees_iff_of_yields ((hyields _ (settled_ok _ _)).mpr hlarger) hjava,
      tell_iff h.tellable hs₂ (same_trans hsame₁ hsame₂)]
    have hhead := encHead_length_pos type f.tag
    rw [List.length_append] at hpos
    omega

/-- Behind the last field below the tag, the end of a struct has been read. -/
theorem not_agrees_of_end (h : AtMessage endTag pre fs tail s b) (hflat : FlatBelow tag fs)
    (hfrom : fieldsFrom tag fs = []) {t : UInt8} {r : List UInt8}
    (htail : tail = encHead protoStructEnd t ++ r) : ¬Agrees tag s b := by
  have hsmall : ∀ g ∈ fs, g.tag.toNat < 128 := fun g hg =>
    h.small g (List.mem_append_right pre hg)
  rcases h.java tag with ⟨b', hjava, hpos⟩
  rcases yields_fields endTag tag fs hsmall hflat s h.tellable h.stream
    with ⟨s₁, hyields, hs₁, hsame₁⟩
  rw [hfrom, htail] at hs₁ hpos
  rcases yields_end tag hs₁ with ⟨s₂, hend, hs₂, hsame₂⟩
  rw [agrees_iff_of_yields ((hyields _ (settled_ok _ _)).mpr hend) hjava,
    tell_iff h.tellable hs₂ (same_trans hsame₁ hsame₂)]
  have hhead := encHead_length_pos protoStructEnd t
  have hlen : (encMessage endTag [] ++ (encHead protoStructEnd t ++ r)).length =
      (encHead protoStructEnd t).length + r.length := by
    rw [show encMessage endTag [] = [] from rfl, List.nil_append, List.length_append]
  omega

/-- At the end of the data, a tag that is not positive leaves a stream that
has failed. -/
theorem not_agrees_of_nonpos (h : AtMessage endTag pre fs [] s b) (hflat : FlatBelow tag fs)
    (hfrom : fieldsFrom tag fs = []) (htag : tag ≤ 0) : ¬Agrees tag s b := by
  have hsmall : ∀ g ∈ fs, g.tag.toNat < 128 := fun g hg =>
    h.small g (List.mem_append_right pre hg)
  rcases h.java tag with ⟨b', hjava, hpos⟩
  rcases yields_fields endTag tag fs hsmall hflat s h.tellable h.stream
    with ⟨s₁, hyields, hs₁, hsame₁⟩
  rw [hfrom] at hs₁
  rcases yields_nil_of_nonpos hs₁ htag with ⟨s₂, hrun, hfail⟩
  rw [agrees_iff_of_yields ((hyields _ (settled_ok _ _)).mpr hrun) hjava]
  intro hboth
  have htell : tell s₂ = .ok (-1) s₂ := by
    unfold tell
    rw [hfail]
    rfl
  have hneg := htell.symm.trans hboth.2
  injection hneg with hneg _
  omega

/-- The length of a header depends on the tag. -/
theorem encHead_length_eq (type type' t : UInt8) :
    (encHead type t).length = (encHead type' t).length := by
  unfold encHead
  split <;> rfl

/-- The search from the first byte stops at the end of the message when it is
lucky. -/
theorem lucky_iff {f : MessageField} {gs : List MessageField} (hfrom : fieldsFrom tag pre = f :: gs)
    (hlt : tag < f.tag.toNat) (htag : 0 < tag) {type : UInt8} {rest : List UInt8}
    (henc : enc endTag f.type f.tag f.value = encHead type f.tag ++ rest) :
    Lucky endTag tag pre [] [] ↔ rest = [] ∧ gs = [] := by
  have hsplit : pre.takeWhile (fun f => decide ((f.tag.toNat : Int) < tag)) ++
      fieldsFrom tag pre = pre := List.takeWhile_append_dropWhile
  constructor
  · intro h
    rcases h with ⟨_, _, _, init, g, type', rfl, hinit, _, hg⟩
    have hlast : fieldsFrom tag (init ++ [g]) = fieldsFrom tag [g] :=
      List.dropWhile_append_of_pos fun f hf => decide_eq_true (hinit f hf)
    rw [hlast, fieldsFrom_cons_of_le (by omega)] at hfrom
    cases hfrom
    refine ⟨?_, rfl⟩
    have hlen := congrArg List.length (henc.symm.trans hg)
    rw [List.length_append, encHead_length_eq type type'] at hlen
    exact List.length_eq_zero_iff.mp (by omega)
  · intro h
    rcases h with ⟨rfl, rfl⟩
    rw [hfrom] at hsplit
    rw [List.append_nil] at henc
    refine ⟨rfl, rfl, htag, _, f, type, hsplit.symm, fun g hg => ?_, hlt, henc⟩
    have hdecide := List.mem_takeWhile_imp hg
    exact of_decide_eq_true hdecide

/-- At the end of the data, the search for a positive tag starts again. -/
theorem agrees_iff_of_restart (h : AtMessage endTag pre fs [] s b)
    (hflat : FlatBelow tag (pre ++ fs)) (hfrom : fieldsFrom tag fs = []) (htag : 0 < tag) :
    Agrees tag s b ↔ Lucky endTag tag pre fs [] := by
  have hbelow := below_of_fieldsFrom_nil hfrom
  have hsmall : ∀ g ∈ fs, g.tag.toNat < 128 := fun g hg =>
    h.small g (List.mem_append_right pre hg)
  have hhas : hasTag tag fs = false := by
    rw [← Bool.not_eq_true, hasTag_iff]
    intro hex
    rcases hex with ⟨f, hf, heq⟩
    have := hbelow f hf
    omega
  rcases h.java tag with ⟨b', hjava, hpos⟩
  rw [hfrom] at hpos
  have hend : b'.pos = s.data.length := hpos
  rcases yields_fields endTag tag fs hsmall (fun f hf => hflat f (List.mem_append_right pre hf)) s
    h.tellable h.stream with ⟨s₁, hyields₁, hs₁, hsame₁⟩
  rw [hfrom] at hs₁
  have ht₁ := Tellable.of_same hsame₁ h.tellable
  rcases steps_nil hs₁ ht₁ htag with ⟨s₂, hstep, hs₂, hsame₂⟩
  have hdata : s₁.data = encMessage endTag (pre ++ fs) := hsame₁.1.trans (h.top rfl)
  rw [hdata, ← List.append_nil (encMessage endTag (pre ++ fs))] at hs₂
  rcases yields_fields endTag tag (pre ++ fs) h.small hflat s₂ (Tellable.of_same hsame₂ ht₁) hs₂
    with ⟨s₃, hyields₃, hs₃, hsame₃⟩
  have hsame := same_trans hsame₁ (same_trans hsame₂ hsame₃)
  have hyields : ∀ r, Settled r → (Yields (run tag) s r ↔ Yields (run tag) s₃ r) := fun r hr =>
    ((hyields₁ r hr).trans (hstep.yields hr)).trans (hyields₃ r hr)
  cases hall : fieldsFrom tag (pre ++ fs) with
  | nil =>
    have hbelow' := below_of_fieldsFrom_nil hall
    refine iff_of_false ?_ ?_
    · intro hagrees
      rcases hagrees with ⟨r, s', _, hrun, _⟩
      rcases (hyields _ (settled_ok r s')).mp hrun with ⟨N, hN⟩
      rw [hall] at hs₃
      refine never_settled htag h.small hbelow' hflat N s₃
        ⟨Tellable.of_same hsame h.tellable, hsame.1.trans (h.top rfl), [], List.nil_suffix, hs₃⟩ ?_
      rw [hN N (Nat.le_refl N)]
      exact settled_ok r s'
    · intro hlucky
      rcases hlucky with ⟨_, _, _, init, g, _, rfl, _, hlt, _⟩
      have := hbelow' g (by simp)
      omega
  | cons f gs =>
    have hle := le_of_fieldsFrom_cons hall
    -- the field is not behind the start, and so nothing is
    have hmem : f ∈ pre ++ fs := by
      apply (List.dropWhile_sublist _).subset
      show f ∈ fieldsFrom tag (pre ++ fs)
      rw [hall]
      exact List.mem_cons_self
    have hnil : fs = [] := by
      rw [List.eq_nil_iff_forall_not_mem]
      intro g hg
      have hg' := hbelow g hg
      rcases List.mem_append.mp hmem with hf | hf
      · have hfg := (List.pairwise_append.mp h.ascending).2.2 f hf g hg
        omega
      · have hf' := hbelow f hf
        omega
    subst hnil
    rw [List.append_nil] at hall hmem
    rcases Java.fieldAt_enc endTag f.type f.tag f.value with ⟨type, rest, htype, hne, henc⟩
    have ht₃ := Tellable.of_same hsame h.tellable
    have hf128 := h.small f (List.mem_append_left [] hmem)
    rw [List.append_nil pre, hall, List.append_nil] at hs₃
    unfold encMessage at hs₃
    rw [List.flatMap_cons, henc, List.append_assoc] at hs₃
    rw [hhas] at hjava
    by_cases heq : (f.tag.toNat : Int) = tag
    · subst heq
      rcases yields_found htype hne hf128 ht₃ hs₃ with ⟨s₄, hfound, _, _⟩
      refine iff_of_false ?_ ?_
      · rw [agrees_iff_of_yields ((hyields _ (settled_ok _ _)).mpr hfound) hjava]
        intro hboth
        cases hboth.1
      · intro hlucky
        rcases hlucky with ⟨_, _, _, init, g, _, rfl, hinit, hlt, _⟩
        rcases List.mem_append.mp hmem with hf | hf
        · have := hinit f hf
          omega
        · rw [List.mem_singleton] at hf
          subst hf
          omega
    · have hlt : tag < f.tag.toNat := by omega
      rcases yields_larger htype hne hf128 hlt hs₃ with ⟨s₄, hlarger, hs₄, hsame₄⟩
      rw [agrees_iff_of_yields ((hyields _ (settled_ok _ _)).mpr hlarger) hjava,
        tell_iff h.tellable hs₄ (same_trans hsame hsame₄), lucky_iff hall hlt htag henc]
      have hle' := length_le_flatMap (f := fun f : MessageField => enc endTag f.type f.tag f.value)
        (fun f => enc_length_pos endTag f.type f.tag f.value) gs
      have hflatten : (rest ++ gs.flatMap fun f => enc endTag f.type f.tag f.value).length =
          rest.length + (gs.flatMap fun f => enc endTag f.type f.tag f.value).length :=
        List.length_append
      constructor
      · intro hboth
        have hpos' := hboth.2
        exact ⟨List.length_eq_zero_iff.mp (by omega), List.length_eq_zero_iff.mp (by omega)⟩
      · intro hboth
        rcases hboth with ⟨rfl, rfl⟩
        exact ⟨rfl, hend⟩

/-- Where the fields below the tag are flat, the two agree if and only if the
tag is there, or the search is lucky. -/
theorem agrees_iff (h : AtMessage endTag pre fs tail s b) (hflat : FlatBelow tag fs)
    (hpre : hasTag tag fs = false → tail = [] → FlatBelow tag pre) :
    Agrees tag s b ↔ hasTag tag fs = true ∨ Lucky endTag tag pre fs tail := by
  have hasc : Ascending fs := h.ascending.sublist (List.sublist_append_right pre fs)
  rw [← Bool.not_eq_true, hasTag_iff_fieldsFrom hasc] at hpre
  rw [hasTag_iff_fieldsFrom hasc]
  cases hfrom : fieldsFrom tag fs with
  | cons f gs =>
    rw [agrees_iff_of_cons h hflat hfrom]
    constructor
    · exact fun heq => Or.inl ⟨f, gs, rfl, heq⟩
    · intro hor
      rcases hor with ⟨g, hs, hcons, heq⟩ | hlucky
      · cases hcons
        exact heq
      · rw [hlucky.1] at hfrom
        cases hfrom
  | nil =>
    have hno : ¬∃ f gs, ([] : List MessageField) = f :: gs ∧ (f.tag.toNat : Int) = tag := by
      intro hex
      rcases hex with ⟨f, gs, hcons, _⟩
      cases hcons
    rw [hfrom] at hpre
    rw [or_iff_right hno]
    rcases h.ends with rfl | ⟨t, r, htail⟩
    · by_cases htag : 0 < tag
      · have hall : FlatBelow tag (pre ++ fs) := by
          intro f hf hlt
          rcases List.mem_append.mp hf with hf | hf
          · exact hpre hno rfl f hf hlt
          · exact hflat f hf hlt
        exact agrees_iff_of_restart h hall hfrom htag
      · refine iff_of_false (not_agrees_of_nonpos h hflat hfrom (by omega)) ?_
        intro hlucky
        exact htag hlucky.2.2.1
    · refine iff_of_false (not_agrees_of_end h hflat hfrom htail) ?_
      intro hlucky
      have hlen := congrArg List.length (htail.symm.trans hlucky.2.1)
      have hhead := encHead_length_pos protoStructEnd t
      rw [List.length_append, List.length_nil] at hlen
      omega

end

end

/-! ## Fields that are not flat -/

/-- A message that is all of the data, from its start. -/
theorem atMessage_of {endTag : UInt8 → UInt8} {fs : List MessageField} {data : List UInt8}
    (hfs : encMessage endTag fs = data) (hasc : Ascending fs) (hsmall : ∀ f ∈ fs, f.tag.toNat < 128)
    (hlen : data.length < 2 ^ 31) :
    AtMessage endTag [] fs [] (IStream.of data) (Java.JBuf.wrap data hlen) where
  ascending := hasc
  small := hsmall
  ends := Or.inl rfl
  tellable := ⟨rfl, hlen⟩
  stream := by
    rw [List.append_nil, hfs]
    exact at_of data
  top _ := hfs.symm
  data := rfl
  pos := rfl
  limit := rfl

/-- An empty list or map before the wanted field. -/
theorem not_agrees_zeroSize {type : UInt8} (htype : type = protoList ∨ type = protoMap) {t : Ty}
    {v : Val t} (henc : enc id t 0 v = [type, 0x0C]) :
    ∃ s b, AtMessage id [] [⟨0, t, v⟩, ⟨1, .string, [0, 0x0E]⟩] [] s b ∧ ¬Agrees 1 s b := by
  have hfs : encMessage id [⟨0, t, v⟩, ⟨1, .string, [0, 0x0E]⟩] =
      [type, 0x0C, 0x16, 2, 0, 0x0E] := by
    show enc id t 0 v ++ [0x16, 2, 0, 0x0E] = _
    rw [henc]
    rfl
  have hat := atMessage_of hfs (by unfold Ascending; simp) (by simp) (by simp)
  refine ⟨_, _, hat, ?_⟩
  intro hagrees
  rcases hagrees with ⟨r, s', b', hs, hb, _⟩
  rcases hat.java 1 with ⟨b₁, hjava, _⟩
  have hr := hb.unique hjava
  injection hr with hr _
  rw [show hasTag 1 [⟨0, t, v⟩, ⟨1, .string, [0, 0x0E]⟩] = true from rfl] at hr
  subst hr
  have hhead : encHead type 0 = [type] := by rcases htype with rfl | rfl <;> rfl
  have hlt : type.toNat < 16 := by rcases htype with rfl | rfl <;> decide
  have hne : type ≠ protoStructEnd := by rcases htype with rfl | rfl <;> decide
  have hstart : At (IStream.of [type, 0x0C, 0x16, 2, 0, 0x0E])
      (encHead type 0 ++ ([0x0C, 0x16, 2, 0] ++ 0x0E :: [])) := by
    rw [hhead]
    exact at_of _
  rcases skipToTagLoop_head 1 hlt hstart with ⟨s₁, _, hs₁, _, hloop⟩
  rcases hs with ⟨N, hN⟩
  have hrun := hN (N + 1) (by omega)
  rcases skipField_zeroSize htype hs₁ N with ⟨e, s₂, herr⟩
  have hthrow : skipToTagLoop (N + 1) 1 (IStream.of [type, 0x0C, 0x16, 2, 0, 0x0E]) =
      .error e s₂ := by
    rw [hloop, if_neg hne, if_neg (by decide)]
    exact bind_of_error herr
  unfold run skipToTag catchError at hrun
  rw [hthrow] at hrun
  cases e with
  | protoError _ => cases hrun
  | _ => cases hrun

/-- An empty struct before the wanted field. -/
theorem not_agrees_struct :
    ∃ s b, AtMessage id [] [⟨0, .struct .nil, ()⟩, ⟨1, .byte, 0⟩] [] s b ∧ ¬Agrees 1 s b := by
  have hat := @atMessage_of id [⟨0, .struct .nil, ()⟩, ⟨1, .byte, 0⟩] [0x0A, 0x0B, 0x1C] rfl
    (by unfold Ascending; simp) (by simp) (by simp)
  refine ⟨_, _, hat, ?_⟩
  intro hagrees
  rcases hagrees with ⟨r, s', b', hs, hb, _⟩
  rcases hat.java 1 with ⟨b₁, hjava, _⟩
  have hr := hb.unique hjava
  injection hr with hr _
  rcases hs with ⟨N, hN⟩
  have hrun := hN (N + 2) (by omega)
  rw [hr] at hrun
  cases hrun

/-- A message with a field of the kind before the wanted one. -/
theorem not_agrees_of_not_flat {k : Kind} (hflat : ¬Flat k) :
    ∃ (f g : MessageField) (s : IStream) (b : Java.JBuf), f.type.kind = k ∧ f.tag = 0 ∧ g.tag = 1 ∧
      AtMessage id [] [f, g] [] s b ∧ ¬Agrees 1 s b := by
  have hzero : ∀ (type : UInt8) (t : Ty) (v : Val t), (type = protoList ∨ type = protoMap) →
      enc id t 0 v = [type, 0x0C] →
      ∃ (f g : MessageField) (s : IStream) (b : Java.JBuf), f.type.kind = t.kind ∧ f.tag = 0 ∧
        g.tag = 1 ∧ AtMessage id [] [f, g] [] s b ∧ ¬Agrees 1 s b := by
    intro type t v htype henc
    rcases not_agrees_zeroSize htype henc with ⟨s, b, hat, hno⟩
    exact ⟨⟨0, t, v⟩, _, s, b, rfl, rfl, rfl, hat, hno⟩
  cases k with
  | array => exact hzero protoList (.array .bool) [] (Or.inl rfl) rfl
  | list => exact hzero protoList (.list .byte) [] (Or.inl rfl) rfl
  | strMap => exact hzero protoMap .strMap [] (Or.inr rfl) rfl
  | map => exact hzero protoMap (.map .byte .byte) [] (Or.inr rfl) rfl
  | struct =>
    rcases not_agrees_struct with ⟨s, b, hat, hno⟩
    exact ⟨_, _, s, b, rfl, rfl, rfl, hat, hno⟩
  | _ => exact absurd trivial hflat

/-- For every message, start and tag: where the fields before the tag are
flat, the two agree if and only if the tag is there (or, at the end of the
data, the search is lucky).  For every set of kinds, they agree on all
messages that have the tag, with fields of these kinds before it, if and only
if the kinds are flat. -/
theorem skipToTag_agrees_iff (K : Kind → Prop) :
    (∀ (endTag : UInt8 → UInt8) (pre fs : List MessageField) (tail : List UInt8) (s : IStream)
      (b : Java.JBuf) (tag : Int), AtMessage endTag pre fs tail s b → FlatBelow tag fs →
      (hasTag tag fs = false → tail = [] → FlatBelow tag pre) →
      (Agrees tag s b ↔ hasTag tag fs = true ∨ Lucky endTag tag pre fs tail)) ∧
    ((∀ (endTag : UInt8 → UInt8) (pre fs : List MessageField) (tail : List UInt8) (s : IStream)
      (b : Java.JBuf) (tag : Int), AtMessage endTag pre fs tail s b →
      (∀ f ∈ fs, (f.tag.toNat : Int) < tag → K f.type.kind) → hasTag tag fs = true →
      Agrees tag s b) ↔
    ∀ k, K k → Flat k) := by
  refine ⟨fun endTag pre fs tail s b tag h hflat hpre => agrees_iff h hflat hpre,
    fun hall k hk => ?_, fun hK endTag pre fs tail s b tag h hkinds hhas => ?_⟩
  · by_contra hflat
    rcases not_agrees_of_not_flat hflat with ⟨f, g, s, b, rfl, hf, hg, hat, hno⟩
    refine hno (hall id [] [f, g] [] s b 1 hat ?_ ?_)
    · intro f' hf' hlt
      rcases List.mem_cons.mp hf' with rfl | hf'
      · exact hk
      · rw [List.mem_singleton] at hf'
        rw [hf', hg] at hlt
        exact absurd hlt (by decide)
    · rw [hasTag_iff]
      exact ⟨g, by simp, by rw [hg]; rfl⟩
  · have hflat : FlatBelow tag fs := fun f hf hlt => hK _ (hkinds f hf hlt)
    rw [agrees_iff h hflat fun hno => ?_]
    · exact Or.inl hhas
    · rw [hhas] at hno
      cases hno

/-- A string behind a byte is found. -/
theorem skipToTag_agrees_iff_string :
    Agrees 3 (IStream.of [0x10, 5, 0x36, 1, 104])
      (Java.JBuf.wrap [0x10, 5, 0x36, 1, 104] (by decide)) := by
  have hat := @atMessage_of id [⟨1, .byte, 5⟩, ⟨3, .string, [104]⟩] [0x10, 5, 0x36, 1, 104] rfl
    (by unfold Ascending; simp) (by simp) (by decide)
  refine ((skipToTag_agrees_iff Flat).1 id [] _ [] _ _ 3 hat ?_ ?_).mpr (Or.inl rfl)
  · intro f hf _
    simp only [List.mem_cons, List.not_mem_nil, or_false] at hf
    rcases hf with rfl | rfl <;> exact trivial
  · intro hno
    cases hno

/-- Tag 1 is missing, and the header of tag 2 has been read. -/
theorem not_always_agrees :
    ¬∀ (endTag : UInt8 → UInt8) (pre fs : List MessageField) (tail : List UInt8) (s : IStream)
      (b : Java.JBuf) (tag : Int), AtMessage endTag pre fs tail s b → Agrees tag s b := by
  intro h
  have hat := @atMessage_of id [⟨2, .byte, 0⟩] [0x2C] rfl (List.pairwise_singleton _ _) (by simp)
    (by decide)
  have hagrees := h id [] _ [] _ _ 1 hat
  have hflat : FlatBelow 1 [⟨2, .byte, 0⟩] := by
    intro f hf _
    rw [List.mem_singleton] at hf
    subst hf
    exact trivial
  have heq := (agrees_iff_of_cons hat hflat rfl).mp hagrees
  exact absurd heq (by decide)

end OCServer.Cpp
