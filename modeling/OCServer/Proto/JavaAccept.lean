import OCServer.Proto.JavaRead

/-!
# What `ProtoInputStream` accepts

`JavaRead` says that the readers accept the format.  Here it is the other
way round: which bytes a reader of a string or of an integer accepts at all,
behind its tag.  `Head` is a header, in any of its spellings, and
`StringField` and `IntegerField` are a field with its value.

`Field` adds the search for the tag, and `optional_eq_ok_iff` says when a
required field is read.
-/

namespace OCServer.Java

open BigEndian ByteIO ByteSource

/-! ## Fields -/

/-- A header: one byte, or two with the tag in the second.  The number is
what `readHead` returns. -/
inductive Head : List UInt8 → HeadData × Nat → List UInt8 → Prop
  | short {b : UInt8} (r : List UInt8) (htag : (b &&& 0xF0) >>> 4 ≠ 15) :
    Head (b :: r) (⟨b &&& 0xF, ((b &&& 0xF0) >>> 4).toNat⟩, 1) r
  | long {b t : UInt8} (r : List UInt8) (htag : (b &&& 0xF0) >>> 4 = 15) :
    Head (b :: t :: r) (⟨b &&& 0xF, t.toNat⟩, 2) r

/-- A string of at most 255 bytes, or one with a longer length field. -/
inductive StringField : List UInt8 → List UInt8 → List UInt8 → Prop
  | string1 {l s r : List UInt8} {hd : HeadData × Nat} {len : UInt8}
    (hhead : Head l hd (len :: (s ++ r))) (htype : hd.1.type = protoString1)
    (hlen : s.length = len.toNat) : StringField l s r
  | string4 {l len s r : List UInt8} {hd : HeadData × Nat}
    (hhead : Head l hd (len ++ (s ++ r))) (htype : hd.1.type = protoString4)
    (hwidth : len.length = 4) (hlen : s.length = beVal len)
    (hmax : s.length ≤ protoMaxStringLength) : StringField l s r

/-- The width of an integer with this type code. -/
def integerWidth (type : UInt8) : Option Nat :=
  if type = protoZeroTag then some 0
  else if type = protoByte then some 1
  else if type = protoShort then some 2
  else if type = protoInt then some 4
  else if type = protoLong then some 8
  else none

/-- An integer, in any width up to that of the type code `widest`. -/
def IntegerField (k : Nat) (widest : UInt8) (l : List UInt8) (v : BitVec k)
    (r : List UInt8) : Prop :=
  ∃ hd bs, Head l hd (bs ++ r) ∧ integerWidth hd.1.type = some bs.length ∧
    (hd.1.type = protoZeroTag ∨ hd.1.type ≤ widest) ∧
    v = (BitVec.ofNat (8 * bs.length) (beVal bs)).signExtend k

/-! ## The readers -/

theorem getBytes_readsIff (n : Nat) (l : List UInt8) :
    ReadsIff (getBytes n) l fun bs r => bs.length = n ∧ l = bs ++ r := by
  intro b hb
  constructor
  · intro bs b' h
    have hle : b.pos + n ≤ b.limit := by
      by_contra hle
      unfold getBytes at h
      rw [dif_neg hle] at h
      cases h
    have hlen := at_length hb
    have hn : (l.take n).length = n := by
      rw [List.length_take]
      omega
    rcases getBytes_reads (l.take n) b (l.drop n) (by rwa [List.take_append_drop])
      with ⟨b₁, hrun, hat, hsame⟩
    rw [hn, h] at hrun
    cases hrun
    exact ⟨l.drop n, ⟨hn, (List.take_append_drop n l).symm⟩, hat, hsame⟩
  · intro bs r h
    rcases h with ⟨rfl, rfl⟩
    exact getBytes_reads bs b r hb

theorem getBits_readsIff (k w : Nat) (l : List UInt8) :
    ReadsIff (getBits k w) l fun v r =>
      ∃ bs, bs.length = w ∧ l = bs ++ r ∧ v = BitVec.ofNat k (beVal bs) := by
  refine ((getBytes_readsIff w l).bind fun bs r _ => ReadsIff.pure _ r).congr ?_
  intro v r
  constructor
  · intro h
    rcases h with ⟨bs, _, ⟨hlen, hl⟩, rfl, rfl⟩
    exact ⟨bs, hlen, hl, rfl⟩
  · intro h
    rcases h with ⟨bs, hlen, hl, rfl⟩
    exact ⟨bs, r, ⟨hlen, hl⟩, rfl, rfl⟩

theorem get_reads (b : UInt8) : Reads get [b] b.toBitVec := by
  have h := getBits_reads (k := 8) (w := 1) rfl b.toBitVec
  rwa [show beBytes 1 b.toBitVec.toNat = [b] from beBytes_one b] at h

theorem get_readsIff (l : List UInt8) :
    ReadsIff get l fun v r => ∃ b : UInt8, l = b :: r ∧ v = b.toBitVec := by
  refine (getBits_readsIff 8 1 l).congr fun v r => ?_
  constructor
  · intro h
    rcases h with ⟨bs, hlen, rfl, rfl⟩
    rcases List.length_eq_one_iff.mp hlen with ⟨b, rfl⟩
    exact ⟨b, rfl, beVal_singleton b⟩
  · intro h
    rcases h with ⟨b, rfl, rfl⟩
    exact ⟨[b], rfl, rfl, (beVal_singleton b).symm⟩

theorem get_nil : ReadsIff get [] fun _ _ => False := by
  refine (get_readsIff []).congr fun v r => ⟨?_, False.elim⟩
  intro h
  rcases h with ⟨b, hnil, -⟩
  cases hnil

theorem readHead_readsIff (l : List UInt8) : ReadsIff readHead l (Head l) := by
  cases l with
  | nil =>
    refine get_nil.bind_of_false.congr fun p r => ⟨False.elim, ?_⟩
    intro h
    cases h
  | cons b r =>
    unfold readHead
    refine Reads.bind_readsIff (get_reads b) (?_ : ReadsIff _ r _)
    simp only [UInt8.ofBitVec_toBitVec]
    by_cases htag : (b &&& 0xF0) >>> 4 = 15
    · rw [if_pos htag]
      cases r with
      | nil =>
        refine get_nil.bind_of_false.congr fun p r => ⟨False.elim, ?_⟩
        intro h
        cases h with
        | short _ hne => exact hne htag
      | cons t r =>
        refine Reads.bind_readsIff (get_reads t) ((ReadsIff.pure _ r).congr fun p r' => ?_)
        constructor
        · intro h
          rcases h with ⟨rfl, rfl⟩
          exact .long _ htag
        · intro h
          cases h with
          | short _ hne => exact absurd htag hne
          | long _ _ => exact ⟨rfl, rfl⟩
    · rw [if_neg htag]
      refine (ReadsIff.pure _ r).congr fun p r' => ?_
      constructor
      · intro h
        rcases h with ⟨rfl, rfl⟩
        exact .short _ htag
      · intro h
        cases h with
        | short _ _ => exact ⟨rfl, rfl⟩
        | long _ heq => exact absurd heq htag

/-- An integer that is read in its own width and widened. -/
theorem signExtend_readsIff (k w : Nat) (l : List UInt8) :
    ReadsIff (do return (← getBits (8 * w) w).signExtend k) l fun v r =>
      ∃ bs, bs.length = w ∧ l = bs ++ r ∧
        v = (BitVec.ofNat (8 * bs.length) (beVal bs)).signExtend k := by
  refine ((getBits_readsIff (8 * w) w l).bind fun v r _ => ReadsIff.pure _ r).congr ?_
  intro v r
  constructor
  · intro h
    rcases h with ⟨_, _, ⟨bs, rfl, rfl, rfl⟩, rfl, rfl⟩
    exact ⟨bs, rfl, rfl, rfl⟩
  · intro h
    rcases h with ⟨bs, rfl, rfl, rfl⟩
    exact ⟨_, r, ⟨bs, rfl, rfl, rfl⟩, rfl, rfl⟩

/-- The value of an integer behind its header. -/
def IntegerValue (k : Nat) (widest type : UInt8) (l : List UInt8) (v : BitVec k)
    (r : List UInt8) : Prop :=
  ∃ bs, l = bs ++ r ∧ integerWidth type = some bs.length ∧
    (type = protoZeroTag ∨ type ≤ widest) ∧
    v = (BitVec.ofNat (8 * bs.length) (beVal bs)).signExtend k

/-- One of the widths. -/
theorem integerValue_readsIff {k w : Nat} {widest type : UInt8} {l : List UInt8}
    (hwidth : integerWidth type = some w) (hwidest : type = protoZeroTag ∨ type ≤ widest) :
    ReadsIff (do return (← getBits (8 * w) w).signExtend k) l
      (IntegerValue k widest type l) := by
  refine (signExtend_readsIff k w l).congr fun v r => ?_
  constructor
  · intro h
    rcases h with ⟨bs, rfl, hl, hv⟩
    exact ⟨bs, hl, hwidth, hwidest, hv⟩
  · intro h
    rcases h with ⟨bs, hl, hwidth', -, hv⟩
    rw [hwidth] at hwidth'
    cases hwidth'
    exact ⟨bs, rfl, hl, hv⟩

/-- The zero that a type code says. -/
theorem integerValue_zero (k : Nat) (widest : UInt8) (l : List UInt8) :
    ReadsIff (pure 0 : JIn (BitVec k)) l (IntegerValue k widest protoZeroTag l) := by
  have hnil : (BitVec.ofNat (8 * 0) (beVal [])).signExtend k = 0 := by
    simp [BitVec.signExtend, beVal]
  refine (ReadsIff.pure _ l).congr fun v r => ?_
  constructor
  · intro h
    rcases h with ⟨rfl, rfl⟩
    exact ⟨[], rfl, rfl, Or.inl rfl, hnil.symm⟩
  · intro h
    rcases h with ⟨bs, rfl, hwidth, -, rfl⟩
    have hlen : bs.length = 0 := (Option.some.inj hwidth).symm
    rw [List.length_eq_zero_iff.mp hlen]
    exact ⟨hnil, rfl⟩

/-- The type codes of integers. -/
theorem integerWidth_cases {type : UInt8} {w : Nat} (h : integerWidth type = some w) :
    type = protoZeroTag ∨ type = protoByte ∨ type = protoShort ∨ type = protoInt ∨
      type = protoLong := by
  unfold integerWidth at h
  repeat' split at h
  all_goals simp_all

theorem throw_readsIff {α : Type} (e : JExc) (l : List UInt8) :
    ReadsIff (throw e : JIn α) l fun _ _ => False :=
  ReadsIff.of_error fun b _ => ⟨e, b, rfl⟩

theorem integerField_iff (k : Nat) (widest : UInt8) (l : List UInt8) (v : BitVec k)
    (r : List UInt8) : IntegerField k widest l v r ↔
      ∃ hd r₁, Head l hd r₁ ∧ IntegerValue k widest hd.1.type r₁ v r := by
  constructor
  · intro h
    rcases h with ⟨hd, bs, hhead, hrest⟩
    exact ⟨hd, _, hhead, bs, rfl, hrest⟩
  · intro h
    rcases h with ⟨hd, _, hhead, bs, rfl, hrest⟩
    exact ⟨hd, bs, hhead, hrest⟩

theorem integerBody_readsIff (k : Nat) (widest : UInt8) (l : List UInt8) :
    ReadsIff (integerBody k widest) l (IntegerField k widest l) := by
  refine ((readHead_readsIff l).bind (H := fun hd r₁ => IntegerValue k widest hd.1.type r₁)
    ?_).congr fun v r => (integerField_iff k widest l v r).symm
  rintro ⟨⟨type, tag⟩, n⟩ r₁ -
  dsimp only
  split
  · next htype =>
    rw [htype]
    exact integerValue_zero k widest r₁
  split
  · next htype =>
    rw [htype]
    exact integerValue_readsIff (w := 1) rfl (Or.inr UInt8.zero_le)
  split
  · next htype =>
    rw [htype.1]
    exact integerValue_readsIff (w := 2) rfl (Or.inr htype.2)
  split
  · next htype =>
    rw [htype.1]
    exact integerValue_readsIff (w := 4) rfl (Or.inr htype.2)
  split
  · next htype =>
    rw [htype.1]
    exact integerValue_readsIff (w := 8) rfl (Or.inr htype.2)
  · next hzero hbyte hshort hint hlong =>
    refine (throw_readsIff _ r₁).congr fun v r => ⟨False.elim, ?_⟩
    intro h
    rcases h with ⟨bs, -, hwidth, hwidest, -⟩
    rcases integerWidth_cases hwidth with rfl | rfl | rfl | rfl | rfl
    · exact hzero rfl
    · exact hbyte rfl
    · exact hshort ⟨rfl, hwidest.resolve_left (by decide)⟩
    · exact hint ⟨rfl, hwidest.resolve_left (by decide)⟩
    · exact hlong ⟨rfl, hwidest.resolve_left (by decide)⟩

theorem byteBody_readsIff (l : List UInt8) :
    ReadsIff byteBody l (IntegerField 8 protoByte l) := by
  refine ((readHead_readsIff l).bind (H := fun hd r₁ => IntegerValue 8 protoByte hd.1.type r₁)
    ?_).congr fun v r => (integerField_iff 8 protoByte l v r).symm
  rintro ⟨⟨type, tag⟩, n⟩ r₁ -
  dsimp only
  split
  · next htype =>
    rw [htype]
    exact integerValue_zero 8 protoByte r₁
  split
  · next htype =>
    rw [htype]
    refine (getBits_readsIff 8 1 r₁).congr fun v r => ?_
    constructor
    · intro h
      rcases h with ⟨bs, hlen, hl, rfl⟩
      rcases List.length_eq_one_iff.mp hlen with ⟨b, rfl⟩
      exact ⟨[b], hl, rfl, Or.inr (by decide), (BitVec.signExtend_eq _).symm⟩
    · intro h
      rcases h with ⟨bs, hl, hwidth, -, rfl⟩
      have hlen : bs.length = 1 := (Option.some.inj hwidth).symm
      rcases List.length_eq_one_iff.mp hlen with ⟨b, rfl⟩
      exact ⟨[b], rfl, hl, BitVec.signExtend_eq _⟩
  · next hzero hbyte =>
    refine (throw_readsIff _ r₁).congr fun v r => ⟨False.elim, ?_⟩
    intro h
    rcases h with ⟨bs, -, hwidth, hwidest, -⟩
    rcases integerWidth_cases hwidth with rfl | rfl | rfl | rfl | rfl
    · exact hzero rfl
    · exact hbyte rfl
    · exact absurd (hwidest.resolve_left (by decide)) (by decide)
    · exact absurd (hwidest.resolve_left (by decide)) (by decide)
    · exact absurd (hwidest.resolve_left (by decide)) (by decide)

theorem capacity_readsIff {α : Type} {f : Nat → JIn α} {l : List UInt8}
    {F : α → List UInt8 → Prop} (h : ∀ n, l.length ≤ n → ReadsIff (f n) l F) :
    ReadsIff (capacity >>= f) l F := by
  intro b hb
  have hlen := at_length hb
  have hle := b.limit_le
  exact h b.data.length (by omega) b hb

/-- The value of a string behind its header. -/
def StringValue (type : UInt8) (l s r : List UInt8) : Prop :=
  (type = protoString1 ∧ ∃ len : UInt8, l = len :: (s ++ r) ∧ s.length = len.toNat) ∨
    type = protoString4 ∧ ∃ len : List UInt8, l = len ++ (s ++ r) ∧ len.length = 4 ∧
      s.length = beVal len ∧ s.length ≤ protoMaxStringLength

theorem stringField_iff (l s r : List UInt8) :
    StringField l s r ↔ ∃ hd r₁, Head l hd r₁ ∧ StringValue hd.1.type r₁ s r := by
  constructor
  · intro h
    cases h with
    | string1 hhead htype hlen => exact ⟨_, _, hhead, Or.inl ⟨htype, _, rfl, hlen⟩⟩
    | string4 hhead htype hwidth hlen hmax =>
      exact ⟨_, _, hhead, Or.inr ⟨htype, _, rfl, hwidth, hlen, hmax⟩⟩
  · intro h
    rcases h with ⟨hd, _, hhead, ⟨htype, len, rfl, hlen⟩ | ⟨htype, len, rfl, hwidth, hlen, hmax⟩⟩
    · exact .string1 hhead htype hlen
    · exact .string4 hhead htype hwidth hlen hmax

/-- A length that passes the checks of `stringBody` is the one that was
spelled. -/
theorem toInt_length {len : List UInt8} (hwidth : len.length = 4)
    (hlo : 0 ≤ (BitVec.ofNat 32 (beVal len)).toInt) :
    (BitVec.ofNat 32 (beVal len)).toInt.toNat = beVal len := by
  have hlt := beVal_lt len
  rw [hwidth] at hlt
  rw [BitVec.toInt_eq_toNat_cond, BitVec.toNat_ofNat, Nat.mod_eq_of_lt (by omega)] at hlo ⊢
  split at hlo <;> split <;> omega

theorem stringBody_readsIff (l : List UInt8) : ReadsIff stringBody l (StringField l) := by
  refine ((readHead_readsIff l).bind (H := fun hd r₁ => StringValue hd.1.type r₁)
    ?_).congr fun v r => (stringField_iff l v r).symm
  rintro ⟨⟨type, tag⟩, n⟩ r₁ -
  dsimp only
  split
  · next htype =>
    refine ((get_readsIff r₁).bind fun len r _ => getBytes_readsIff len.toNat r).congr fun s r => ?_
    constructor
    · intro h
      rcases h with ⟨_, _, ⟨len, rfl, rfl⟩, hlen, rfl⟩
      exact Or.inl ⟨htype, len, rfl, hlen⟩
    · intro h
      rcases h with ⟨-, len, rfl, hlen⟩ | ⟨htype', -⟩
      · exact ⟨_, _, ⟨len, rfl, rfl⟩, hlen, rfl⟩
      · rw [htype] at htype'
        exact absurd htype' (by decide)
  split
  · next htype =>
    refine ((getBits_readsIff 32 4 r₁).bind (H := fun len r₂ s r => r₂ = s ++ r ∧
      len.toInt = (s.length : Int) ∧ s.length ≤ protoMaxStringLength) ?_).congr fun s r => ?_
    · rintro len r₂ -
      refine capacity_readsIff fun cap hcap => ?_
      split
      · next hcheck =>
        refine (throw_readsIff _ r₂).bind_of_false.congr fun s r => ⟨False.elim, ?_⟩
        intro h
        rcases h with ⟨rfl, hlen, hmax⟩
        rw [List.length_append] at hcap
        omega
      · next hcheck =>
        refine (getBytes_readsIff len.toInt.toNat r₂).congr fun s r => ?_
        constructor
        · intro h
          rcases h with ⟨hlen, hl⟩
          exact ⟨hl, by omega, by omega⟩
        · intro h
          rcases h with ⟨hl, hlen, -⟩
          exact ⟨by omega, hl⟩
    · constructor
      · intro h
        rcases h with ⟨_, r₂, ⟨len, hwidth, rfl, rfl⟩, rfl, hlen, hmax⟩
        refine Or.inr ⟨htype, len, rfl, hwidth, ?_, hmax⟩
        have h := toInt_length hwidth (by omega)
        omega
      · intro h
        rcases h with ⟨htype', -⟩ | ⟨-, len, rfl, hwidth, hlen, hmax⟩
        · rw [htype] at htype'
          exact absurd htype' (by decide)
        · refine ⟨_, _, ⟨len, hwidth, rfl, rfl⟩, rfl, ?_, hmax⟩
          have hmax : s.length ≤ 104857600 := hmax
          rw [← hlen]
          exact toInt_size (by omega)
  · next h1 h4 =>
    refine (throw_readsIff _ r₁).congr fun v r => ⟨False.elim, ?_⟩
    intro h
    rcases h with ⟨htype, -⟩ | ⟨htype, -⟩
    · exact h1 htype
    · exact h4 htype

/-! ## Behind a tag -/

/-- What is left of the buffer. -/
def rest (b : JBuf) : List UInt8 := (b.data.take b.limit).drop b.pos

theorem at_rest (b : JBuf) : At b (rest b) := rfl

/-- A required field: the search finds the tag, and there is a field with the
value `a`, right in front of `b'`. -/
def Field {α : Type} (fuel : Nat) (tag : Int) (F : List UInt8 → α → List UInt8 → Prop)
    (b : JBuf) (a : α) (b' : JBuf) : Prop :=
  ∃ b₁ r, skipToTag fuel tag b = .ok true b₁ ∧ F (rest b₁) a r ∧ At b' r ∧ Same b₁ b'

theorem optional_eq_ok_iff {α : Type} {F : List UInt8 → α → List UInt8 → Prop} {body : JIn α}
    (hbody : ∀ l, ReadsIff body l (F l)) (fuel : Nat) (tag : Int) (dflt : α) (b : JBuf) (a : α)
    (b' : JBuf) : optional (skipToTag fuel tag) true dflt body b = .ok a b' ↔
      Field fuel tag F b a b' := by
  unfold optional
  cases hskip : skipToTag fuel tag b with
  | error e b₁ =>
    rw [bind_of_error hskip]
    refine ⟨fun h => ?_, ?_⟩
    · cases h
    · intro h
      rcases h with ⟨_, _, h, -⟩
      rw [hskip] at h
      cases h
  | ok found b₁ =>
    rw [bind_of_ok hskip]
    cases found with
    | false =>
      refine ⟨fun h => ?_, ?_⟩
      · cases h
      · intro h
        rcases h with ⟨_, _, h, -⟩
        rw [hskip] at h
        cases h
    | true =>
      show body b₁ = _ ↔ _
      constructor
      · intro h
        rcases (hbody _ b₁ (at_rest b₁)).1 a b' h with ⟨r, hF, hat, hsame⟩
        exact ⟨b₁, r, hskip, hF, hat, hsame⟩
      · intro h
        rcases h with ⟨_, r, h, hF, hat, hsame⟩
        rw [hskip] at h
        cases h
        rcases (hbody _ b₁ (at_rest b₁)).2 a r hF with ⟨b₂, hrun, hat₂, hsame₂⟩
        have hsame' : Same b₂ b' := ⟨hsame.1.trans hsame₂.1.symm, hsame.2.trans hsame₂.2.symm⟩
        rw [hrun, eq_of_at hat₂ hat hsame']

end OCServer.Java
