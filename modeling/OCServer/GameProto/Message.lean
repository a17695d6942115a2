import OCServer.GameProto.Follow

/-!
# The exceptions of `ParsePacket`

`parsePacket_returns` says when no exception leaves `ParsePacket`, for
payloads that need not be messages: exactly when no string that it reads has
a negative length.  `stringSites` lists the places where it reads a string.
-/

namespace OCServer.GameProto

open BigEndian ByteIO Cpp

namespace Walk

variable {α β γ : Type}

/-- No `std::length_error`, whatever the variables hold. -/
def Returns : Walk α → Prop
  | whole _ _ => True
  | short _ => True
  | rejected => True
  | aborted => False
  | unset _ => False

/-- The bytes behind a read that gives something. -/
def next : Walk α → Option (List UInt8)
  | whole _ r => some r
  | short r => some r
  | _ => none

@[simp] theorem returns_whole (a : α) (r : List UInt8) : (whole a r).Returns := trivial

@[simp] theorem returns_short (r : List UInt8) : (short r : Walk α).Returns := trivial

@[simp] theorem returns_rejected : (rejected : Walk α).Returns := trivial

@[simp] theorem not_returns_aborted : ¬(aborted : Walk α).Returns := id

@[simp] theorem not_returns_unset (w : Walk α) : ¬(unset w).Returns := id

@[simp] theorem returns_map (g : α → β) (w : Walk α) : (w.map g).Returns ↔ w.Returns := by
  cases w <;> rfl

@[simp] theorem returns_shorten (w : Walk α) :
    (w.shorten : Walk β).Returns ↔ w.Returns := by
  cases w <;> rfl

/-- A sequence of reads returns when each of them does. -/
theorem returns_and (f : List UInt8 → Walk β) (g : α → β → γ) (w : Walk α) :
    (w.and f g).Returns ↔ w.Returns ∧ ∀ r, w.next = some r → (f r).Returns := by
  cases w with
  | whole a r =>
    show ((f r).map (g a)).Returns ↔ True ∧ ∀ r', some r = some r' → (f r').Returns
    simp
  | short r =>
    show ((f r).shorten : Walk γ).Returns ↔ True ∧ ∀ r', some r = some r' → (f r').Returns
    simp
  | _ => simp [Walk.and, Returns, next]

theorem returns_bind (f : α → List UInt8 → Walk β) (w : Walk α) :
    (w.bind f).Returns ↔ w.Returns ∧ ∀ a r, w = whole a r → (f a r).Returns := by
  cases w with
  | whole a r =>
    simp only [Walk.bind, Returns, true_and, whole.injEq]
    constructor
    · intro h a' r' hpair
      rcases hpair with ⟨rfl, rfl⟩
      exact h
    · intro h
      exact h a r ⟨rfl, rfl⟩
  | _ => simp [Walk.bind, Returns]

end Walk

/-! ## Negative lengths -/

/-- The string here has a length that is negative, or a `STRING1` without a
length byte. -/
def NegativeLength (l : List UInt8) : Prop :=
  ((headAt l).type = protoString1 ∧ ∀ b ∈ (headAt l).rest.head?, 128 ≤ b) ∨
    ((headAt l).type = protoString4 ∧ ∃ b ∈ (headAt l).rest.head?, 128 ≤ b)

theorem fieldAt_returns {α : Type} (h : HeadAt) (w : Nat) (f : List UInt8 → α) :
    (fieldAt h w f).Returns := by
  unfold fieldAt
  split <;> trivial

/-- Integers never abort. -/
theorem intAt_returns (l : List UInt8) : (intAt l).Returns := by
  unfold intAt intFrom
  split
  · exact fieldAt_returns _ _ _
  · trivial

/-- The sign of the length of a long string is that of its first byte. -/
theorem longLength_neg (l : List UInt8) :
    (longLength l).toInt < 0 ↔ ∃ b ∈ l.head?, 128 ≤ b := by
  have hcons : ∀ (b : UInt8) (bs : List UInt8), bs.length = 3 →
      ((BitVec.ofNat 32 (beVal (b :: bs))).toInt < 0 ↔ 128 ≤ b) := by
    intro b bs hbs
    match bs, hbs with
    | [c, d, e], _ =>
      have hb := b.toNat_lt
      have hc := c.toNat_lt
      have hd := d.toNat_lt
      have he := e.toNat_lt
      have hle : 128 ≤ b ↔ 128 ≤ b.toNat := UInt8.le_iff_toNat_le
      rw [BitVec.toInt_eq_toNat_cond, BitVec.toNat_ofNat, hle]
      have hval : beVal [b, c, d, e] =
          b.toNat * 2 ^ 24 + c.toNat * 2 ^ 16 + d.toNat * 2 ^ 8 + e.toNat := by
        simp only [beVal, List.foldl_cons, List.foldl_nil]
        omega
      rw [hval, Nat.mod_eq_of_lt (by omega)]
      by_cases hneg : 128 ≤ b.toNat
      · rw [if_neg (by omega)]
        omega
      · rw [if_pos (by omega)]
        omega
  unfold longLength
  cases l with
  | nil => simp [beVal, List.replicate]
  | cons b r =>
    rw [List.take_succ_cons, List.cons_append, hcons]
    · simp
    · rw [List.length_append, List.length_take, List.length_replicate, List.length_cons]
      omega

theorem contentAt_returns (present : Bool) (tag : UInt8) (len : BitVec 32)
    (rest : List UInt8) : (contentAt present tag len rest).Returns ↔ ¬len.toInt < 0 := by
  unfold contentAt
  split
  · next hlong =>
    have hlong : len.toInt > 104857600 := hlong
    simp only [Walk.Returns, true_iff]
    omega
  · split
    · next hneg => simp [Walk.Returns, hneg]
    · next hneg => split <;> simp [Walk.Returns, hneg]

section

variable [FloatOps]

/-- Where the value of an entry is read. -/
def valueSites (l : List UInt8) : List (List UInt8) :=
  match stringAt l with
  | .whole key r => if key.2 = 0 then [r] else []
  | _ => []

/-- Where the loop over `n` entries reads a string. -/
def entrySites : Nat → List UInt8 → List (List UInt8)
  | 0, _ => []
  | n + 1, l => l :: valueSites l ++
    match (entryAt l).next with
    | some r => entrySites n r
    | none => []

/-- Where the map reads a string. -/
def mapSites (l : List UInt8) : List (List UInt8) :=
  if (headAt l).type = protoMap then
    match intAt (headAt l).rest with
    | .whole size r => if size.1.toInt < 0 then [] else entrySites size.1.toInt.toNat r
    | _ => []
  else []

/-- Where `bufFromMsg` reads a string: the command, and the keys and values
of the attributes. -/
def stringSites (l : List UInt8) : List (List UInt8) :=
  match (intAt l).next with
  | none => []
  | some r => r ::
    match (stringAt r).next with
    | none => []
    | some r =>
      match (intAt r).next with
      | none => []
      | some r => mapSites r

theorem stringAt_returns (l : List UInt8) : (stringAt l).Returns ↔ ¬NegativeLength l := by
  unfold stringAt stringFrom NegativeLength
  generalize headAt l = h
  by_cases hzero : h.type = protoZeroTag
  · have h1 : h.type ≠ protoString1 := by rw [hzero]; decide
    have h4 : h.type ≠ protoString4 := by rw [hzero]; decide
    rw [if_pos hzero]
    simp [h1, h4, fieldAt_returns]
  rw [if_neg hzero]
  by_cases hstring1 : h.type = protoString1
  · rw [if_pos hstring1]
    have h4 : h.type ≠ protoString4 := by rw [hstring1]; decide
    cases hrest : h.rest with
    | nil => simp [hstring1]
    | cons b r =>
      have hsign : (b.toBitVec.signExtend 32).toInt < 0 ↔ 128 ≤ b := by
        have hb := b.toNat_lt
        rw [toInt_lengthByte, UInt8.le_iff_toNat_le]
        split <;> simp <;> omega
      rw [contentAt_returns, hsign]
      simp only [h4, false_and, or_false]
      simp [hstring1]
  rw [if_neg hstring1]
  by_cases hstring4 : h.type = protoString4
  · rw [if_pos hstring4, contentAt_returns, longLength_neg]
    simp only [hstring1, false_and, false_or]
    simp [hstring4]
  · rw [if_neg hstring4]
    simp [fieldAt_returns, hstring1, hstring4]

theorem entryAt_returns (l : List UInt8) :
    (entryAt l).Returns ↔ ∀ site ∈ l :: valueSites l, ¬NegativeLength site := by
  unfold entryAt valueSites
  rw [Walk.returns_bind, stringAt_returns, List.forall_mem_cons]
  refine and_congr_right fun _ => ?_
  cases hkey : stringAt l with
  | whole key r =>
    simp only [Walk.whole.injEq]
    constructor
    · intro h
      have hvalue := h key r ⟨rfl, rfl⟩
      by_cases htag : key.2 = 0
      · rw [if_pos htag, Walk.returns_bind, stringAt_returns] at hvalue
        simpa [htag] using hvalue.1
      · simp [htag]
    · intro h _ _ hpair
      rcases hpair with ⟨rfl, rfl⟩
      by_cases htag : key.2 = 0
      · rw [if_pos htag, Walk.returns_bind, stringAt_returns]
        refine ⟨by simpa [htag] using h, fun value r' _ => ?_⟩
        split <;> trivial
      · rw [if_neg htag]
        trivial
  | _ => simp

theorem entriesAt_returns (n : Nat) (l : List UInt8) :
    (entriesAt n l).Returns ↔ ∀ site ∈ entrySites n l, ¬NegativeLength site := by
  induction n generalizing l with
  | zero => simp [entriesAt, entrySites]
  | succ n ih =>
    unfold entriesAt entrySites
    rw [Walk.returns_and, entryAt_returns, List.forall_mem_append]
    refine and_congr_right fun _ => ?_
    cases (entryAt l).next with
    | none => simp
    | some r => simp [ih]

theorem mapAt_returns (l : List UInt8) :
    (mapAt l).Returns ↔ ∀ site ∈ mapSites l, ¬NegativeLength site := by
  unfold mapAt mapSites
  simp only
  split
  · rw [Walk.returns_bind]
    have hsize := intAt_returns (headAt l).rest
    cases hint : intAt (headAt l).rest with
    | whole size r =>
      simp only [Walk.whole.injEq, Walk.returns_whole, true_and]
      constructor
      · intro h
        have hentries := h size r ⟨rfl, rfl⟩
        split
        · simp
        · next hneg =>
          rw [if_neg hneg, Walk.returns_map] at hentries
          exact (entriesAt_returns _ _).mp hentries
      · intro h _ _ hpair
        rcases hpair with ⟨rfl, rfl⟩
        by_cases hneg : size.1.toInt < 0
        · rw [if_pos hneg]
          trivial
        · rw [if_neg hneg] at h
          rw [if_neg hneg, Walk.returns_map]
          exact (entriesAt_returns _ _).mpr h
    | aborted => simp [hint] at hsize
    | unset w => simp [hint] at hsize
    | _ => simp
  · simp

theorem messageAt_returns (l : List UInt8) :
    (messageAt l).Returns ↔ ∀ site ∈ stringSites l, ¬NegativeLength site := by
  unfold messageAt stringSites
  rw [Walk.returns_and, and_iff_right (intAt_returns l)]
  cases (intAt l).next with
  | none => simp
  | some r =>
    simp only [Option.some.injEq, forall_eq', Walk.returns_and, stringAt_returns,
      List.forall_mem_cons]
    refine and_congr_right fun _ => ?_
    cases (stringAt r).next with
    | none => simp
    | some r =>
      simp only [Option.some.injEq, forall_eq', intAt_returns, true_and]
      cases (intAt r).next with
      | none => simp
      | some r => simp [mapAt_returns]

/-! ## Runs -/

/-- The payload decides what `readHeader` does. -/
theorem readHeader_describes (buf : List UInt8) (junk : Nat → UInt8) :
    Describes (membuf buf junk) (readHeader (membuf buf junk)) (messageAt buf) :=
  readHeader_follows (membuf buf junk)

end

/-- A payload with all of the header is accepted. -/
theorem bufFromMsg_of_whole [FloatOps] {packet : NetPacket} {buf r : List UInt8} {h : Header}
    (hmsg : messageAt (buf.take packet.datalen.toNat) = .whole h r) (msg : FromMsg)
    (junk : Nat → UInt8) : bufFromMsg packet buf msg junk = .ok (true, msg.withHeader h) := by
  have hdescribes := readHeader_describes (buf.take packet.datalen.toNat) junk
  rw [hmsg] at hdescribes
  obtain ⟨s', hres, _, _⟩ := hdescribes
  unfold bufFromMsg
  rw [hres]

/-- A walk that returns gives a value or `ProtoError`. -/
theorem Describes.returns {α : Type} {s : IStream} {res : EStateM.Result CppExc IStream α}
    {w : Walk α} (h : Describes s res w) (hw : w.Returns) :
    (∃ a s', res = .ok a s') ∨ ∃ text s', res = .error (.protoError text) s' := by
  cases w with
  | whole a r =>
    obtain ⟨s', hres, _⟩ := h
    exact Or.inl ⟨a, s', hres⟩
  | short r =>
    obtain ⟨a, s', hres, _⟩ := h
    exact Or.inl ⟨a, s', hres⟩
  | rejected => exact Or.inr h
  | aborted => exact absurd hw id
  | unset w => exact absurd hw id

/-- Any other walk aborts when the variables hold negative values. -/
theorem Describes.aborts {α : Type} {s : IStream} {res : EStateM.Result CppExc IStream α}
    {w : Walk α} (h : Describes s res w) (hw : ¬w.Returns) (hjunk : ∀ i, s.junk i = 255) :
    ∃ s', res = .error .lengthError s' := by
  cases w with
  | aborted => exact h
  | unset w =>
    obtain ⟨j, hj⟩ := h
    rwa [hjunk, if_neg (by decide)] at hj
  | _ => exact absurd trivial hw

section

variable [FloatOps]

/-- `ParsePacket` returns, whatever the variables without a value hold,
exactly when no string that it reads has a negative length. -/
theorem parsePacket_returns (client : Nat) (packet : NetPacket) (buf : List UInt8)
    (qfmsg : List FromMsg) (hbuf : buf.length = packet.datalen.toNat) :
    (∀ junk, ∃ q, parsePacket client packet buf qfmsg junk = .ok q) ↔
      ∀ site ∈ stringSites buf, ¬NegativeLength site := by
  have htake : buf.take packet.datalen.toNat = buf := by rw [← hbuf, List.take_length]
  rw [← messageAt_returns]
  unfold parsePacket bufFromMsg
  rw [htake]
  constructor
  · intro h
    by_contra hw
    obtain ⟨q, hq⟩ := h fun _ => 255
    obtain ⟨s', hres⟩ := (readHeader_describes buf fun _ => 255).aborts hw fun _ => rfl
    rw [hres] at hq
    cases hq
  · intro hw junk
    rcases (readHeader_describes buf junk).returns hw with ⟨a, s', hres⟩ | ⟨text, s', hres⟩
    · exact ⟨_, by rw [hres]; rfl⟩
    · exact ⟨_, by rw [hres]; rfl⟩

end

/-- A message with the command `hi` and no attributes. -/
theorem parsePacket_returns_hi :
    (∀ junk, ∃ q, @parsePacket ⟨fun v => v.setWidth 64, fun _ => [], fun _ => []⟩ 0
      ⟨1, 4, 5, 0, 8⟩ [0x0C, 0x16, 2, 104, 105, 0x2C, 0x38, 0x0C] [] junk = .ok q) ↔
      ∀ site ∈ @stringSites ⟨fun v => v.setWidth 64, fun _ => [], fun _ => []⟩
        [0x0C, 0x16, 2, 104, 105, 0x2C, 0x38, 0x0C], ¬NegativeLength site :=
  @parsePacket_returns ⟨fun v => v.setWidth 64, fun _ => [], fun _ => []⟩ 0 ⟨1, 4, 5, 0, 8⟩
    [0x0C, 0x16, 2, 104, 105, 0x2C, 0x38, 0x0C] [] (by decide)

/-- A command with the length byte 128 aborts. -/
theorem parsePacket_aborts :
    ¬∀ junk, ∃ q, @parsePacket ⟨fun v => v.setWidth 64, fun _ => [], fun _ => []⟩ 0
      ⟨1, 4, 5, 0, 3⟩ [0x0C, 0x16, 0x80] [] junk = .ok q := by
  intro h
  obtain ⟨q, hq⟩ := h fun _ => 0
  have habort : @parsePacket ⟨fun v => v.setWidth 64, fun _ => [], fun _ => []⟩ 0
      ⟨1, 4, 5, 0, 3⟩ [0x0C, 0x16, 0x80] [] (fun _ => 0) = .error .lengthError := rfl
  have hne := habort.symm.trans hq
  cases hne

end OCServer.GameProto
