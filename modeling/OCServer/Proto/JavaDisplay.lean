import OCServer.Lib.Fuel
import OCServer.Proto.JavaForward
import OCServer.Proto.JavaInteger

/-!
# `ProtoDisplayer` in Java

`display` shows one field after the other until the buffer is empty.  It
looks at a header, and the arm of `do_display` for its type has to go to the
end of the field.  The text itself is left out: nothing depends on it.

`display_iff` says which messages are shown field by field.  A zero is not
read at all, so that the loop never ends, and an empty `byte[]` is indexed.
-/

namespace OCServer.Java

open BigEndian ByteIO ByteSource

/-- What `display` throws. -/
inductive DisplayExc
  | read (e : JExc)
  | arrayIndexOutOfBounds
  deriving DecidableEq

/-- A displayer, over the buffer of its `ProtoInputStream`. -/
abbrev JDisplay := EStateM DisplayExc JBuf

/-- A call on the stream. -/
def reading {α : Type} (m : JIn α) : JDisplay α := fun b =>
  match m b with
  | .ok a b => .ok a b
  | .error e b => .error (.read e) b

/-- `bs.hasRemaining()`. -/
def hasRemaining (b : JBuf) : Prop := b.pos < b.limit

instance (b : JBuf) : Decidable (hasRemaining b) := inferInstanceAs (Decidable (_ < _))

section

variable [FloatOps] (fuel : Nat)

/-- The `switch` of `do_display`. -/
def displayField (hd : HeadData) : JDisplay Unit := do
  if hd.type = protoByte then
    let _ ← reading (read fuel .byte (some 0) hd.tag false)
  else if hd.type = protoDouble then
    let _ ← reading (read fuel (.prim .double) (some 0) hd.tag false)
  else if hd.type = protoFloat then
    let _ ← reading (read fuel (.prim .float) (some 0) hd.tag false)
  else if hd.type = protoInt then
    let _ ← reading (read fuel (.prim .int) (some 0) hd.tag false)
  else if hd.type = protoList then reading (skipAny fuel)
  else if hd.type = protoLong then
    let _ ← reading (read fuel (.prim .long) (some 0) hd.tag false)
  else if hd.type = protoMap then
    let _ ← reading (read fuel .strMap none hd.tag false)
  else if hd.type = protoShort then
    let _ ← reading (read fuel (.prim .short) (some 0) hd.tag false)
  else if hd.type = protoSimpleList then
    -- the array is `null` when the tag is not found
    let i ← reading (read fuel .bytes none hd.tag false)
    if i = some [] then throw .arrayIndexOutOfBounds
  else if hd.type = protoString1 ∨ hd.type = protoString4 then
    let _ ← reading (read fuel .string (some []) hd.tag false)
  else if hd.type = protoStructBegin then reading (skipAny fuel)
  else if hd.type = protoStructEnd then reading (skipAny fuel)
  -- `ZERO_TAG`, and the types that have no arm
  else pure ()

/-- `do_display`. -/
def do_display : JDisplay Bool := do
  let hd ← reading peakHead
  displayField fuel hd.1
  pure true

/-- The loop of `display`. -/
def displayLoop : Nat → JDisplay Unit
  | 0 => throw (.read .outOfFuel)
  | n + 1 => fun b =>
    if hasRemaining b then
      (do if ← do_display fuel then displayLoop n : JDisplay Unit) b
    else .ok () b

/-- `display`. -/
def display : JDisplay Unit := displayLoop fuel fuel

/-- The loop of `display` makes one iteration for each of the fields, which
takes the bytes of this field, and is at the end of the buffer then. -/
inductive Shows : List MessageField → JBuf → JBuf → Prop
  | nil {b : JBuf} (hend : ¬hasRemaining b) : Shows [] b b
  | cons {f : MessageField} {fs : List MessageField} {b b₁ b₂ : JBuf} (hmore : hasRemaining b)
    (hrun : do_display fuel b = .ok true b₁)
    (hpos : b₁.pos = b.pos + (enc endTag f.type f.tag f.value).length) (hrest : Shows fs b₁ b₂) :
    Shows (f :: fs) b b₂

end

/-! ## Which fields are shown -/

/-- Neither a zero nor `false`. -/
def ShownPrim : (p : Prim) → PrimVal p → Prop
  | .bool, v => v = true
  | .short, v => v ≠ 0
  | .int, v => v ≠ 0
  | .long, v => v ≠ 0
  | .float, _ => True
  | .double, _ => True

/-- A string that a reader accepts. -/
def ShortString (s : List UInt8) : Prop := s.length ≤ protoMaxStringLength

/-- No zero integer, no empty `byte[]` and no string that is too long. -/
def Shown : (t : Ty) → Val t → Prop
  | .byte, v => v ≠ 0
  | .prim p, v => ShownPrim p v
  | .string, s => ShortString s
  | .bytes, bytes => bytes ≠ []
  | .strMap, m => ∀ e ∈ m, ShortString e.1 ∧ ShortString e.2
  | .array _, _ => True
  | .list _, _ => True
  | .map _ _, _ => True
  | .struct _, _ => True

/-! ## Reading behind a look at the header -/

theorem reading_reads {α : Type} {m : JIn α} {bs : List UInt8} {a : α} (h : Reads m bs a) :
    Reads (reading m) bs a := by
  intro b r hb
  rcases h b r hb with ⟨b', hm, hb', hsame⟩
  refine ⟨b', ?_, hb', hsame⟩
  unfold reading
  rw [hm]

theorem hasRemaining_of_at {bs r : List UInt8} {b : JBuf} (hpos : 0 < bs.length)
    (hb : At b (bs ++ r)) : hasRemaining b := by
  have hlen := at_length hb
  rw [List.length_append] at hlen
  unfold hasRemaining
  omega

/-! ## Strings that are too long -/

/-- A reader may rely on the size that an array can have. -/
theorem misses_of_length {α : Type} {m : JIn α} {bs : List UInt8} {P : α → Prop}
    (h : bs.length < 2 ^ 31 → Misses m bs P) : Misses m bs P := by
  intro b r a b' hb
  have hlt := at_length_lt hb
  rw [List.length_append] at hlt
  exact h (by omega) b r a b' hb

theorem stringBody_misses {s : List UInt8} (hs : ¬ShortString s) (tag : UInt8)
    (P : List UInt8 → Prop) : Misses stringBody (encString tag s) P := by
  have hlong : 104857600 < s.length := Nat.lt_of_not_le hs
  apply misses_of_length
  intro hlt
  unfold encString stringBody at *
  rw [if_pos (by omega)] at *
  simp only [List.length_append] at hlt
  rw [List.append_assoc]
  refine (readHead_reads (by decide) tag).bind_misses ?_
  refine (getBits_reads_nat (k := 32) (w := 4) rfl (by omega)).bind_misses ?_
  have hlen : (BitVec.ofNat 32 s.length).toInt = s.length := toInt_size (by omega)
  apply Misses.of_error
  intro b r _
  have htoo : (s.length : Int) > protoMaxStringLength ∨ (s.length : Int) < 0 ∨
      (s.length : Int) > b.data.length := Or.inl (by exact_mod_cast hlong)
  have hcapacity : capacity b = .ok b.data.length b := rfl
  simp only [hlen]
  refine ⟨.decode s!"String too long: {(s.length : Int)}", b, ?_⟩
  rw [bind_of_ok hcapacity, if_pos htoo]
  rfl

/-- A required field with a body that throws. -/
theorem required_misses {α : Type} (fuel : Nat) (tag : UInt8) {bs : List UInt8} {body : JIn α}
    {P : α → Prop} (hbs : FieldAt tag bs) (h : Misses body bs P) :
    Misses (required (skipToTag (fuel + 1) tag.toNat) body) bs P := by
  intro b r a b' hb hrun
  unfold required at hrun
  rw [bind_of_ok (skipToTag_hit fuel hbs hb)] at hrun
  exact h b r a b' hb hrun

/-- An optional field with a body that throws. -/
theorem optional_misses {α : Type} (fuel : Nat) {tag : UInt8} {bs : List UInt8} {body : JIn α}
    {P : α → Prop} (hbs : FieldAt tag bs) (h : Misses body bs P) (isRequire : Bool) (dflt : α) :
    Misses (optional (skipToTag (fuel + 1) tag.toNat) isRequire dflt body) bs P := by
  intro b r a b' hb hrun
  unfold optional at hrun
  rw [bind_of_ok (skipToTag_hit fuel hbs hb)] at hrun
  exact h b r a b' hb hrun

theorem mapBody_misses (fuel : Nat) {m : List (List UInt8 × List UInt8)} (tag : UInt8)
    (h : ¬∀ e ∈ m, ShortString e.1 ∧ ShortString e.2)
    (P : List (List UInt8 × List UInt8) → Prop) :
    Misses (mapBody (fuel + 1) stringBody stringBody) (enc endTag .strMap tag m) P := by
  have hkey := fun s => fieldAt_string 0 s
  have hvalue := fun s => fieldAt_string 1 s
  apply misses_of_length
  intro hlt
  have hle := length_le_flatMap (f := fun e : List UInt8 × List UInt8 =>
    encString 0 e.1 ++ encString 1 e.2)
    (fun e => by have := encString_length_pos 0 e.1; rw [List.length_append]; omega) m
  unfold enc at hlt ⊢
  rw [List.length_append] at hlt
  unfold mapBody
  rw [List.append_assoc]
  refine (readHead_reads (by decide) tag).bind_misses ?_
  refine (readSize_reads fuel _).bind_misses ?_
  simp only [toInt_size (show m.length < 2 ^ 31 by omega), Int.toNat_natCast]
  rw [if_neg (by omega), ← List.append_nil (m.flatMap _)]
  refine Misses.bind (P := fun _ => True) ?_ (fun _ _ _ _ _ _ => trivial) []
  refine Misses.repeatM (P := fun _ _ => True) (Q := fun _ _ => True) (g := id)
    (fun _ _ _ _ _ => ⟨trivial, trivial⟩) m ?_ ?_ h
  · intro e _ hgood
    refine (required_reads fuel 0 (hkey e.1) (stringBody_reads 0 hgood.1)).bind ?_
    exact (required_reads fuel 1 (hvalue e.2) (stringBody_reads 1 hgood.2)).then (Reads.pure _)
  · intro e _ hbad
    by_cases hshort : ShortString e.1
    · have hlong : ¬ShortString e.2 := fun hv => hbad ⟨hshort, hv⟩
      refine (required_reads fuel 0 (hkey e.1) (stringBody_reads 0 hshort)).bind_misses ?_
      rw [← List.append_nil (encString 1 e.2)]
      refine Misses.bind (P := fun _ => True) ?_ (fun _ _ _ _ _ _ => trivial) []
      exact required_misses fuel 1 (hvalue e.2) (stringBody_misses hlong 1 _)
    · refine Misses.bind (P := fun _ => True) ?_ (fun _ _ _ _ _ _ => trivial) _
      exact required_misses fuel 0 (hkey e.1) (stringBody_misses hshort 0 _)

section

variable [FloatOps] {fuel : Nat}

/-- In front of a header, `do_display` is the arm of its type. -/
theorem do_display_eq {type tag : UInt8} (htype : type.toNat < 16) {r : List UInt8} {b : JBuf}
    (hb : At b (encHead type tag ++ r)) :
    do_display fuel b = (displayField fuel ⟨type, tag.toNat⟩ >>= fun _ => pure true) b := by
  have hpeak : reading peakHead b = .ok (⟨type, tag.toNat⟩, (encHead type tag).length) b := by
    unfold reading
    rw [peakHead_eq htype tag hb]
  exact bind_of_ok hpeak

/-- A field whose arm reads it. -/
theorem do_display_reads {type tag : UInt8} (htype : type.toNat < 16) {rest : List UInt8}
    (h : Reads (displayField fuel ⟨type, tag.toNat⟩) (encHead type tag ++ rest) ()) :
    Reads (do_display fuel) (encHead type tag ++ rest) true := by
  intro b r hb
  have hb' := hb
  rw [List.append_assoc] at hb'
  rw [do_display_eq htype hb']
  exact h.then (Reads.pure true) b r hb

/-! ## The arms -/

theorem do_display_integer {n : Int} (hne : n ≠ 0) (hlong : IntegerType.long.InRange n)
    (tag : UInt8) : Reads (do_display (fuel + 2)) (encInt tag n) true := by
  rcases IntegerType.encInt_nonzero hne hlong tag with ⟨t, value, henc, hin⟩
  rcases (t.inRange_iff n).mp hin with ⟨v, rfl⟩
  have hread := fun dflt => reading_reads (t.read_reads fuel v dflt tag false)
  rw [henc] at hread ⊢
  refine do_display_reads (by cases t <;> decide) ?_
  cases t with
  | byte => exact (hread (some (0 : BitVec 8))).then (Reads.pure ())
  | short => exact (hread (some (0 : BitVec 16))).then (Reads.pure ())
  | int => exact (hread (some (0 : BitVec 32))).then (Reads.pure ())
  | long => exact (hread (some (0 : BitVec 64))).then (Reads.pure ())

theorem do_display_string {s : List UInt8} (hs : ShortString s) (tag : UInt8) :
    Reads (do_display (fuel + 2)) (encString tag s) true := by
  have hread := reading_reads (read_reads fuel endTag .string tag s (some []) false hs)
  change Reads _ (encString tag s) _ at hread
  unfold encString at hread ⊢
  split
  · next hlong =>
    rw [if_pos hlong, List.append_assoc] at hread
    rw [List.append_assoc]
    exact do_display_reads (by decide) (hread.then (Reads.pure ()))
  · next hshort =>
    rw [if_neg hshort, List.append_assoc] at hread
    rw [List.append_assoc]
    exact do_display_reads (by decide) (hread.then (Reads.pure ()))

theorem do_display_prim {p : Prim} {v : PrimVal p} (h : ShownPrim p v) (tag : UInt8) :
    Reads (do_display (fuel + 2)) (encPrim tag p v) true := by
  have hnonzero : ∀ {w : Nat} {v : BitVec w}, v ≠ 0 → v.toInt ≠ 0 := by
    intro w v hv hzero
    exact hv (BitVec.eq_of_toInt_eq (by simpa using hzero))
  cases p with
  | bool =>
    change v = true at h
    subst h
    exact do_display_integer (by decide) ⟨by decide, by decide⟩ tag
  | short => exact do_display_integer (hnonzero h) (IntegerType.short.number_long v) tag
  | int => exact do_display_integer (hnonzero h) (IntegerType.int.number_long v) tag
  | long => exact do_display_integer (hnonzero h) (IntegerType.long.number_long v) tag
  | float =>
    have hread := reading_reads (read_reads fuel endTag (.prim .float) tag v (some 0) false trivial)
    exact do_display_reads (by decide) (hread.then (Reads.pure ()))
  | double =>
    have hread := reading_reads
      (read_reads fuel endTag (.prim .double) tag v (some 0) false trivial)
    exact do_display_reads (by decide) (hread.then (Reads.pure ()))

theorem do_display_bytes {bytes : List UInt8} (hne : bytes ≠ []) (tag : UInt8) :
    Reads (do_display (fuel + 2)) (enc endTag .bytes tag bytes) true := by
  have hread := reading_reads (read_reads fuel endTag .bytes tag bytes none false trivial)
  unfold enc at hread ⊢
  rw [List.append_assoc, List.append_assoc] at hread ⊢
  refine do_display_reads (by decide) (hread.then ?_)
  rw [if_neg (by simpa using hne)]
  exact Reads.pure ()

theorem do_display_map {m : List (List UInt8 × List UInt8)}
    (h : ∀ e ∈ m, ShortString e.1 ∧ ShortString e.2) (tag : UInt8) :
    Reads (do_display (fuel + 2)) (enc endTag .strMap tag m) true := by
  have hbody := mapBody_puts (fuel + 1) tag m (fieldAt_string 0) (fieldAt_string 1)
    (encString_length_pos 0)
    fun e he => ⟨stringBody_reads 0 (h e he).1, stringBody_reads 1 (h e he).2⟩
  have hread := reading_reads (optional_reads (fuel + 1) (fieldAt_enc endTag .strMap tag m)
    (hbody.map some) false (some []))
  unfold enc at hread ⊢
  rw [List.append_assoc] at hread ⊢
  exact do_display_reads (by decide) (hread.then (Reads.pure ()))

/-- A field that is skipped. -/
theorem do_display_skipped {type tag : UInt8} {rest : List UInt8}
    (htype : type = protoList ∨ type = protoStructBegin)
    (h : Reads (skipAny fuel) (encHead type tag ++ rest) ()) :
    Reads (do_display fuel) (encHead type tag ++ rest) true := by
  have hread := reading_reads h
  rcases htype with rfl | rfl
  · exact do_display_reads (by decide) hread
  · exact do_display_reads (by decide) hread

/-- Every field that is shown is shown in one call. -/
theorem do_display_enc (fuel : Nat) (t : Ty) (v : Val t) (tag : UInt8) (hkind : t.kind ≠ .map)
    (h : Shown t v) (hfuel : 2 * (enc endTag t tag v).length ≤ fuel + 2) :
    Reads (do_display (fuel + 2)) (enc endTag t tag v) true := by
  have hskip := (skipped_enc endTag t tag v).skipAny hfuel
  cases t with
  | byte =>
    refine do_display_integer ?_ (IntegerType.byte.number_long v) tag
    exact fun hzero => h (BitVec.eq_of_toInt_eq hzero)
  | prim p => exact do_display_prim h tag
  | string => exact do_display_string h tag
  | bytes => exact do_display_bytes h tag
  | array p =>
    unfold enc at hskip ⊢
    rw [List.append_assoc] at hskip ⊢
    exact do_display_skipped (Or.inl rfl) hskip
  | list t =>
    unfold enc at hskip ⊢
    rw [List.append_assoc] at hskip ⊢
    exact do_display_skipped (Or.inl rfl) hskip
  | strMap => exact do_display_map h tag
  | map k v => exact absurd rfl hkind
  | struct fs =>
    unfold enc at hskip ⊢
    rw [List.append_assoc] at hskip ⊢
    exact do_display_skipped (Or.inr rfl) hskip

/-! ## The other fields -/

/-- A zero is looked at and stays where it is. -/
theorem do_display_zero (fuel : Nat) {tag : UInt8} {r : List UInt8} {b : JBuf}
    (hb : At b (encInt tag 0 ++ r)) : do_display fuel b = .ok true b :=
  do_display_eq (show protoZeroTag.toNat < 16 by decide) hb

/-- An empty `byte[]` is indexed. -/
theorem do_display_empty (fuel : Nat) {tag : UInt8} {r : List UInt8} {b : JBuf}
    (hb : At b (enc endTag .bytes tag [] ++ r)) :
    ∃ b', do_display (fuel + 2) b = .error .arrayIndexOutOfBounds b' := by
  rcases reading_reads (read_reads fuel endTag .bytes tag [] none false trivial) b r hb
    with ⟨b', hread, -⟩
  unfold enc at hb
  simp only [List.append_assoc] at hb
  refine ⟨b', ?_⟩
  rw [do_display_eq (by decide) hb]
  exact bind_of_error (bind_of_ok hread)

/-- An arm whose reader throws. -/
theorem do_display_misses {α : Type} {type tag : UInt8} {bs : List UInt8} {m : JIn α}
    (htype : type.toNat < 16)
    (harm : displayField fuel ⟨type, tag.toNat⟩ = reading m >>= fun _ => pure ())
    (hm : Misses m (encHead type tag ++ bs) fun _ => True) :
    Misses (do_display fuel) (encHead type tag ++ bs) fun _ => True := by
  intro b r a b' hb hrun
  have hb' := hb
  rw [List.append_assoc] at hb'
  rw [do_display_eq htype hb', harm] at hrun
  rcases bind_eq_ok hrun with ⟨_, b₁, harm, -⟩
  rcases bind_eq_ok harm with ⟨v, b₂, hread, -⟩
  unfold reading at hread
  cases hm' : m b with
  | ok v b₃ => exact (hm b r v b₃ hb hm' trivial).elim
  | error e b₃ =>
    rw [hm'] at hread
    cases hread

/-- A field that is not shown is left where it is, or the call throws. -/
theorem do_display_not_shown (fuel : Nat) {t : Ty} {v : Val t} {tag : UInt8} (hkind : t.kind ≠ .map)
    (h : ¬Shown t v) {r : List UInt8} {b : JBuf} (hb : At b (enc endTag t tag v ++ r)) :
    do_display (fuel + 2) b = .ok true b ∨ ∀ a b', do_display (fuel + 2) b ≠ .ok a b' := by
  have hmiss : Misses (do_display (fuel + 2)) (enc endTag t tag v) (fun _ => True) →
      ∀ a b', do_display (fuel + 2) b ≠ .ok a b' :=
    fun hm a b' hrun => hm b r a b' hb hrun trivial
  have hzero : ∀ {n : Int}, n = 0 → At b (encInt tag n ++ r) →
      do_display (fuel + 2) b = .ok true b := by
    intro n hn hb
    rw [hn] at hb
    exact do_display_zero (fuel + 2) hb
  cases t with
  | byte =>
    have hv : v = (0 : BitVec 8) := not_not.mp h
    exact Or.inl (hzero (by rw [hv]; rfl) hb)
  | prim p =>
    cases p with
    | bool =>
      have hv : v = false := Bool.eq_false_iff.mpr h
      exact Or.inl (hzero (by rw [hv]; rfl) hb)
    | short | int | long =>
      have hv := not_not.mp h
      exact Or.inl (hzero (by rw [hv]; rfl) hb)
    | float | double => exact absurd trivial h
  | string =>
    have hlong : 104857600 < v.length := Nat.lt_of_not_le h
    have hread := optional_misses (fuel + 1) (fieldAt_string tag v)
      ((stringBody_misses h tag fun _ => True).map (P := fun _ => True) some) false (some [])
    right
    apply hmiss
    change Misses _ (encString tag v) _
    unfold encString at hread ⊢
    rw [if_pos (by omega), List.append_assoc] at hread ⊢
    exact do_display_misses (by decide) rfl hread
  | bytes =>
    have hv : v = [] := not_not.mp h
    subst hv
    right
    intro a b' hrun
    rcases do_display_empty fuel hb with ⟨b₁, hthrow⟩
    rw [hrun] at hthrow
    cases hthrow
  | strMap =>
    have hread := optional_misses (fuel + 1) (fieldAt_enc endTag .strMap tag v)
      ((mapBody_misses (fuel + 1) tag h fun _ => True).map (P := fun _ => True) some) false
      (some [])
    right
    apply hmiss
    unfold enc at hread ⊢
    rw [List.append_assoc] at hread ⊢
    exact do_display_misses (by decide) rfl hread
  | map k v => exact absurd rfl hkind
  | array | list | struct => exact absurd trivial h

/-! ## Whole messages -/

/-- Iterations that end make the loop return. -/
theorem Shows.displayLoop {fs : List MessageField} {b b' : JBuf} (h : Shows fuel fs b b') :
    ∀ n, fs.length < n → displayLoop fuel n b = .ok () b' := by
  induction h with
  | nil hend =>
    intro n hn
    cases n with
    | zero => omega
    | succ n =>
      unfold Java.displayLoop
      rw [if_neg hend]
  | cons hmore hrun hpos hrest ih =>
    intro n hn
    cases n with
    | zero => omega
    | succ n =>
      rw [List.length_cons] at hn
      unfold Java.displayLoop
      rw [if_pos hmore, bind_of_ok hrun]
      exact ih n (by omega)

/-- A message whose fields are all shown. -/
theorem shows_message (fuel : Nat) (fs : List MessageField) (hkind : ∀ f ∈ fs, f.type.kind ≠ .map)
    (h : ∀ f ∈ fs, Shown f.type f.value) :
    2 * (encMessage endTag fs).length ≤ fuel + 2 →
    ∀ b, At b (encMessage endTag fs) → ∃ b', Shows (fuel + 2) fs b b' := by
  induction fs with
  | nil =>
    intro _ b hb
    have hlen := at_length hb
    refine ⟨b, .nil ?_⟩
    unfold hasRemaining
    rw [show (encMessage endTag []).length = 0 from rfl] at hlen
    omega
  | cons f fs ih =>
    intro hfuel b hb
    have hcons : encMessage endTag (f :: fs) =
        enc endTag f.type f.tag f.value ++ encMessage endTag fs := List.flatMap_cons
    rw [hcons] at hb hfuel
    rw [List.length_append] at hfuel
    have hread := do_display_enc fuel f.type f.value f.tag
      (hkind f List.mem_cons_self) (h f List.mem_cons_self) (by omega)
    rcases hread b _ hb with ⟨b₁, hrun, hb₁, hsame⟩
    rcases ih (fun g hg => hkind g (List.mem_cons_of_mem f hg))
      (fun g hg => h g (List.mem_cons_of_mem f hg)) (by omega) b₁ hb₁ with ⟨b₂, hrest⟩
    have hmore := hasRemaining_of_at (enc_length_pos endTag f.type f.tag f.value) hb
    exact ⟨b₂, .cons hmore hrun (pos_of_at hb hb₁ hsame) hrest⟩

/-- The loop does not return from a field that is not shown. -/
theorem displayLoop_not_shown {f : MessageField} (hkind : f.type.kind ≠ .map)
    (h : ¬Shown f.type f.value) {r : List UInt8} {b : JBuf}
    (hb : At b (enc endTag f.type f.tag f.value ++ r)) (n : Nat) (b' : JBuf) :
    displayLoop (fuel + 2) n b ≠ .ok () b' := by
  have hmore := hasRemaining_of_at (enc_length_pos endTag f.type f.tag f.value) hb
  induction n with
  | zero => exact nofun
  | succ n ih =>
    intro hrun
    unfold displayLoop at hrun
    rw [if_pos hmore] at hrun
    rcases do_display_not_shown fuel hkind h hb with hstay | hthrow
    · rw [bind_of_ok hstay] at hrun
      exact ih hrun
    · rcases bind_eq_ok hrun with ⟨a, b₁, hdisplay, -⟩
      exact hthrow a b₁ hdisplay

/-- The loop does not return from a message with such a field. -/
theorem displayLoop_message (fs : List MessageField) (hkind : ∀ f ∈ fs, f.type.kind ≠ .map)
    (h : ¬∀ f ∈ fs, Shown f.type f.value) :
    2 * (encMessage endTag fs).length ≤ fuel + 2 →
    ∀ b, At b (encMessage endTag fs) → ∀ n b', displayLoop (fuel + 2) n b ≠ .ok () b' := by
  induction fs with
  | nil => exact absurd (fun f hf => nomatch hf) h
  | cons f fs ih =>
    intro hfuel b hb n b'
    have hcons : encMessage endTag (f :: fs) =
        enc endTag f.type f.tag f.value ++ encMessage endTag fs := List.flatMap_cons
    rw [hcons] at hb hfuel
    rw [List.length_append] at hfuel
    have hf := hkind f List.mem_cons_self
    by_cases hshown : Shown f.type f.value
    · have hrest : ¬∀ g ∈ fs, Shown g.type g.value := fun hall =>
        h (List.forall_mem_cons.mpr ⟨hshown, hall⟩)
      have hread := do_display_enc fuel f.type f.value f.tag hf hshown (by omega)
      rcases hread b _ hb with ⟨b₁, hdisplay, hb₁, -⟩
      have hmore := hasRemaining_of_at (enc_length_pos endTag f.type f.tag f.value) hb
      cases n with
      | zero => exact nofun
      | succ n =>
        unfold displayLoop
        rw [if_pos hmore, bind_of_ok hdisplay]
        exact ih (fun g hg => hkind g (List.mem_cons_of_mem f hg)) hrest (by omega) b₁ hb₁ n b'
    · exact displayLoop_not_shown hf hshown hb n b'

/-- `display` returns normally, and every iteration of its loop consumes one
field. -/
def Displays (fs : List MessageField) (b : JBuf) : Prop :=
  ∃ N, ∀ fuel, N ≤ fuel → ∃ b', Shows fuel fs b b' ∧ display fuel b = .ok () b'

/-- A message whose maps have strings for keys and values is displayed field
by field if and only if none of its fields is a zero integer, an empty
`byte[]` or a string that the readers refuse. -/
theorem displays_iff (fs : List MessageField) (hkind : ∀ f ∈ fs, f.type.kind ≠ .map) :
    ∃ bs, Writes (writeMessage fs) bs ∧
      ∀ b, At b bs → (Displays fs b ↔ ∀ f ∈ fs, Shown f.type f.value) := by
  refine ⟨_, writeMessage_writes fs, fun b hb => ?_⟩
  constructor
  · intro h
    by_contra hbad
    rcases h with ⟨N, h⟩
    rcases h (max N (2 * (encMessage endTag fs).length + 2)) (Nat.le_max_left _ _)
      with ⟨b', -, hok⟩
    have hle : 2 ≤ max N (2 * (encMessage endTag fs).length + 2) := by omega
    rw [← Nat.sub_add_cancel hle] at hok
    exact displayLoop_message fs hkind hbad (by omega) b hb _ b' hok
  · intro h
    have hlength := length_le_flatMap (fun f => enc_length_pos endTag f.type f.tag f.value) fs
    change fs.length ≤ (encMessage endTag fs).length at hlength
    refine ⟨2 * (encMessage endTag fs).length + 2, fun fuel hfuel => ?_⟩
    have hle : 2 ≤ fuel := by omega
    rcases shows_message (fuel - 2) fs hkind h (by omega) b hb with ⟨b', hshows⟩
    rw [Nat.sub_add_cancel hle] at hshows
    exact ⟨b', hshows, hshows.displayLoop fuel (by omega)⟩

end

/-- An `int`, a list of strings and an empty `byte[]`. -/
theorem displays_iff_empty :
    ∃ bs, Writes (writeMessage [⟨1, .prim .int, 300⟩, ⟨200, .list .string, [[104], []]⟩,
        ⟨2, .bytes, []⟩]) bs ∧
      ∀ b, At b bs → (@Displays ⟨fun v => v.setWidth 64, fun _ => [], fun _ => []⟩
        [⟨1, .prim .int, 300⟩, ⟨200, .list .string, [[104], []]⟩, ⟨2, .bytes, []⟩] b ↔
        ∀ f ∈ ([⟨1, .prim .int, 300⟩, ⟨200, .list .string, [[104], []]⟩,
          ⟨2, .bytes, []⟩] : List MessageField), Shown f.type f.value) :=
  @displays_iff ⟨fun v => v.setWidth 64, fun _ => [], fun _ => []⟩ _ (by decide)

/-- A message that is an `int` 0. -/
theorem not_displays_zero : ¬∀ (_ : FloatOps) (fs : List MessageField),
    (∀ f ∈ fs, f.type.kind ≠ .map) →
    ∃ bs, Writes (writeMessage fs) bs ∧ ∀ b, At b bs → Displays fs b := by
  intro h
  let o : FloatOps := ⟨fun v => v.setWidth 64, fun _ => [], fun _ => []⟩
  rcases h o [⟨1, .prim .int, 0⟩] (by decide) with ⟨bs, hw, hdisplays⟩
  have hbs : bs = [0x1C] := by
    rcases hw [] with ⟨ops, hops, hbytes⟩
    cases hops
    exact hbytes.symm
  subst hbs
  rcases hdisplays (.wrap [0x1C] (by decide)) rfl with ⟨N, hN⟩
  rcases hN N (Nat.le_refl N) with ⟨b', hshows, -⟩
  cases hshows with
  | cons hmore hrun hpos hrest =>
    have hzero := do_display_zero N (show At (JBuf.wrap [0x1C] (by decide))
      (encInt 1 0 ++ []) from rfl)
    rw [hzero] at hrun
    cases hrun
    exact absurd hpos (by decide)

end OCServer.Java
