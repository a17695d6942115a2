import OCServer.GameProto.Message

/-!
# Which accepted payloads hold a message

`bufFromMsg` does not look at the state of the stream, so it may accept a
payload that ends inside the attributes.  `WholeMessage` says that the
fields of the header lie inside the payload: some part of it determines
them, whatever follows.

`onlyWhole_iff` says when acceptance means just that: exactly when the
payload has no torn map, which is a map that is read to its end although it
is not whole.
-/

namespace OCServer.GameProto

open BigEndian ByteIO Cpp

namespace Walk

variable {α β γ : Type}

/-- The read may end without an exception. -/
def Ends : Walk α → Prop
  | whole _ _ => True
  | short _ => True
  | rejected => False
  | aborted => False
  | unset w => w.Ends

/-- The read may end without an exception although it is not whole. -/
def Torn : Walk α → Prop
  | whole _ _ => False
  | short _ => True
  | rejected => False
  | aborted => False
  | unset w => w.Ends

@[simp] theorem ends_map (g : α → β) (w : Walk α) : (w.map g).Ends ↔ w.Ends := by
  induction w with
  | unset w ih => exact ih
  | _ => rfl

@[simp] theorem torn_map (g : α → β) (w : Walk α) : (w.map g).Torn ↔ w.Torn := by
  cases w with
  | unset w => exact ends_map g w
  | _ => rfl

theorem Torn.ends {w : Walk α} (h : w.Torn) : w.Ends := by
  cases w with
  | short r => trivial
  | unset w => exact h
  | _ => exact absurd h id

/-- A read that may end is whole or torn. -/
theorem Ends.whole_or_torn {w : Walk α} (h : w.Ends) :
    (∃ a r, w = whole a r) ∨ w.Torn := by
  cases w with
  | whole a r => exact Or.inl ⟨a, r, rfl⟩
  | short r => exact Or.inr trivial
  | unset w => exact Or.inr h
  | _ => exact absurd h id

/-- A sequence that cannot go on without bytes is torn in its last part only. -/
theorem torn_and {f : List UInt8 → Walk β} {g : α → β → γ} {w : Walk α} (hw : w.Settled)
    (hunset : ∀ v, w = unset v → v = short []) (hnil : f [] = rejected) :
    (w.and f g).Torn ↔ ∃ a r, w = whole a r ∧ (f r).Torn := by
  cases w with
  | whole a r =>
    show ((f r).map (g a)).Torn ↔ _
    rw [torn_map]
    constructor
    · intro h
      exact ⟨a, r, rfl, h⟩
    · intro h
      rcases h with ⟨a', r', heq, h⟩
      cases heq
      exact h
  | short r =>
    have hr : r = [] := hw
    show ((f r).shorten : Walk γ).Torn ↔ _
    rw [hr, hnil]
    simp [shorten, Torn]
  | unset v =>
    rw [hunset v rfl]
    show ((f []).shorten : Walk γ).Ends ↔ _
    rw [hnil]
    simp [shorten, Ends]
  | _ => simp [Walk.and, Torn]

/-- A whole sequence has whole parts. -/
theorem and_eq_whole {f : List UInt8 → Walk β} {g : α → β → γ} {w : Walk α} {c : γ}
    {r : List UInt8} (h : w.and f g = whole c r) :
    ∃ a r₁ b, w = whole a r₁ ∧ f r₁ = whole b r ∧ c = g a b := by
  cases w with
  | whole a r₁ =>
    have h : (f r₁).map (g a) = whole c r := h
    cases hf : f r₁ with
    | whole b r₂ =>
      rw [hf] at h
      injection h with hc hr
      exact ⟨a, r₁, b, rfl, by rw [hf, hr], hc.symm⟩
    | _ =>
      rw [hf] at h
      cases h
  | short r₁ =>
    have h : ((f r₁).shorten : Walk γ) = whole c r := h
    cases hf : f r₁ <;> rw [hf] at h <;> cases h
  | _ => cases h

theorem bind_eq_whole {F : α → List UInt8 → Walk β} {w : Walk α} {b : β} {r : List UInt8}
    (h : w.bind F = whole b r) : ∃ a r₁, w = whole a r₁ ∧ F a r₁ = whole b r := by
  cases w with
  | whole a r₁ => exact ⟨a, r₁, rfl, h⟩
  | _ => cases h

end Walk

/-! ## Whole reads stay inside their bytes -/

/-- A whole value depends on the bytes that were taken, and on no other. -/
def Inside {α : Type} (w : List UInt8 → Walk α) : Prop :=
  ∀ l a r, w l = .whole a r → ∃ used, l = used ++ r ∧ ∀ r', w (used ++ r') = .whole a r'

section

variable {α β γ : Type}

theorem Inside.and {w : List UInt8 → Walk α} {f : List UInt8 → Walk β} (hw : Inside w)
    (hf : Inside f) (g : α → β → γ) : Inside fun l => (w l).and f g := by
  intro l c r h
  obtain ⟨a, r₁, b, hwl, hfr, hc⟩ := Walk.and_eq_whole h
  obtain ⟨used₁, hl, hw'⟩ := hw _ _ _ hwl
  obtain ⟨used₂, hr, hf'⟩ := hf _ _ _ hfr
  refine ⟨used₁ ++ used₂, by rw [hl, hr, List.append_assoc], fun r' => ?_⟩
  show (w (used₁ ++ used₂ ++ r')).and f g = _
  rw [List.append_assoc, hw']
  show (f (used₂ ++ r')).map (g a) = _
  rw [hf', hc]
  rfl

theorem Inside.map {w : List UInt8 → Walk α} (hw : Inside w) (g : α → β) :
    Inside fun l => (w l).map g := by
  intro l b r h
  have h : (w l).map g = .whole b r := h
  cases hwl : w l with
  | whole a r₁ =>
    rw [hwl] at h
    injection h with hb hr
    obtain ⟨used, hl, hw'⟩ := hw _ _ _ hwl
    refine ⟨used, by rw [hl, hr], fun r' => ?_⟩
    show (w (used ++ r')).map g = _
    rw [hw', ← hb]
    rfl
  | _ =>
    rw [hwl] at h
    cases h

theorem Inside.bind {w : List UInt8 → Walk α} {F : α → List UInt8 → Walk β} (hw : Inside w)
    (hF : ∀ a, Inside (F a)) : Inside fun l => (w l).bind F := by
  intro l b r h
  obtain ⟨a, r₁, hwl, hFr⟩ := Walk.bind_eq_whole h
  obtain ⟨used₁, hl, hw'⟩ := hw _ _ _ hwl
  obtain ⟨used₂, hr, hF'⟩ := hF a _ _ _ hFr
  refine ⟨used₁ ++ used₂, by rw [hl, hr, List.append_assoc], fun r' => ?_⟩
  show (w (used₁ ++ used₂ ++ r')).bind F = _
  rw [List.append_assoc, hw']
  exact hF' r'

/-- A value that takes no byte. -/
theorem inside_whole (a : α) : Inside fun l => .whole a l := by
  intro l b r h
  cases h
  exact ⟨[], rfl, fun _ => rfl⟩

theorem inside_short : Inside fun l => (.short l : Walk α) := by
  intro l b r h
  cases h

/-- A choice that the bytes do not make. -/
theorem Inside.ite {c : Prop} [Decidable c] {w w' : List UInt8 → Walk α} (hw : Inside w)
    (hw' : Inside w') : Inside fun l => if c then w l else w' l := by
  by_cases h : c
  · simpa only [h, if_true] using hw
  · simpa only [h, if_false] using hw'

end

/-- A header that is there depends on its own bytes. -/
theorem headAt_inside {l : List UInt8} (h : (headAt l).whole = true) :
    ∃ used, l = used ++ (headAt l).rest ∧
      ∀ r', headAt (used ++ r') = ⟨(headAt l).type, (headAt l).tag, r', true⟩ := by
  match l with
  | [] => simp [headAt] at h
  | b :: r =>
    by_cases hb : (b &&& 0xF0) >>> 4 = 15
    · cases r with
      | nil => simp [headAt, hb] at h
      | cons t r => exact ⟨[b, t], by simp [headAt, hb], fun r' => by simp [headAt, hb]⟩
    · exact ⟨[b], by simp [headAt, hb], fun r' => by simp [headAt, hb]⟩

/-- A walk that reads a header and goes on by its type and tag. -/
theorem inside_of_head {α : Type} {F : HeadAt → Walk α}
    (hF : ∀ type tag, Inside fun r => F ⟨type, tag, r, true⟩)
    (hwhole : ∀ h a r, h.whole = false → h.rest = [] → F h ≠ .whole a r) :
    Inside fun l => F (headAt l) := by
  intro l a r h
  have hhead : (headAt l).whole = true := by
    cases hw : (headAt l).whole with
    | true => rfl
    | false => exact absurd h (hwhole _ a r hw (headAt_rest hw))
  obtain ⟨used₁, hl, hhead'⟩ := headAt_inside hhead
  have h : F ⟨(headAt l).type, (headAt l).tag, (headAt l).rest, true⟩ = .whole a r := by
    rw [← hhead]
    exact h
  obtain ⟨used₂, hr, hF'⟩ := hF _ _ _ _ _ h
  refine ⟨used₁ ++ used₂, ?_, fun r' => ?_⟩
  · rw [List.append_assoc, ← hr]
    exact hl
  · show F (headAt (used₁ ++ used₂ ++ r')) = _
    rw [List.append_assoc, hhead']
    exact hF' r'

theorem fieldAt_inside {α : Type} (type tag : UInt8) (w : Nat) (f : List UInt8 → α) :
    Inside fun r => fieldAt ⟨type, tag, r, true⟩ w f := by
  intro l a r h
  simp only [fieldAt, true_and] at h ⊢
  split at h
  · next hle =>
    cases h
    refine ⟨l.take w, (List.take_append_drop w l).symm, fun r' => ?_⟩
    have hlen : (l.take w).length = w := List.length_take_of_le hle
    rw [if_pos (by rw [List.length_append]; omega)]
    rw [List.take_left' hlen, List.drop_left' hlen]
  · cases h

theorem fieldAt_cut {α : Type} {h : HeadAt} (hw : h.whole = false) (w : Nat)
    (f : List UInt8 → α) (a : α × UInt8) (r : List UInt8) : fieldAt h w f ≠ .whole a r := by
  unfold fieldAt
  rw [hw, if_neg (by simp)]
  exact fun h => by cases h

theorem intAt_inside : Inside intAt := by
  refine inside_of_head (F := intFrom) ?_ ?_
  · intro type tag
    unfold intFrom
    cases hw : intWidth type with
    | none =>
      intro l a r h
      simp only [hw] at h
      cases h
    | some w => simpa only [hw] using fieldAt_inside type tag w _
  · intro h a r hwhole _
    unfold intFrom
    cases hw : intWidth h.type with
    | none => simp
    | some w => simpa only [hw] using fieldAt_cut hwhole w _ a r

theorem contentAt_inside (tag : UInt8) (len : BitVec 32) :
    Inside fun r => contentAt true tag len r := by
  intro l a r h
  simp only [contentAt, true_and] at h ⊢
  by_cases hlong : len.toInt > protoMaxStringLength
  · rw [if_pos hlong] at h
    cases h
  by_cases hneg : len.toInt < 0
  · rw [if_neg hlong, if_pos hneg] at h
    cases h
  simp only [if_neg hlong, if_neg hneg] at h ⊢
  split at h
  · next hle =>
    cases h
    refine ⟨l.take len.toInt.toNat, (List.take_append_drop _ l).symm, fun r' => ?_⟩
    have hlen : (l.take len.toInt.toNat).length = len.toInt.toNat :=
      List.length_take_of_le hle
    rw [if_pos (by rw [List.length_append]; omega)]
    rw [List.take_left' hlen, List.drop_left' hlen]
  · cases h

/-- The length in front of a long string is in its first four bytes. -/
theorem longLength_append {l : List UInt8} (hl : l.length = 4) (r : List UInt8) :
    longLength (l ++ r) = longLength l := by
  unfold longLength
  rw [List.take_left' hl, List.take_of_length_le (by omega), List.length_append, hl]
  simp

/-- A long string behind its header. -/
theorem longString_inside (tag : UInt8) :
    Inside fun r => contentAt (true ∧ 4 ≤ r.length) tag (longLength r) (r.drop 4) := by
  intro l a r h
  by_cases hle : 4 ≤ l.length
  · have h : contentAt true tag (longLength l) (l.drop 4) = .whole a r := by
      simpa [hle] using h
    obtain ⟨used, hused, hcontent⟩ := contentAt_inside tag (longLength l) _ _ _ h
    have hlen : (l.take 4).length = 4 := List.length_take_of_le hle
    refine ⟨l.take 4 ++ used, ?_, fun r' => ?_⟩
    · rw [List.append_assoc, ← hused, List.take_append_drop]
    · have hfirst : longLength (l.take 4 ++ (used ++ r')) = longLength l := by
        rw [longLength_append hlen, ← longLength_append hlen (l.drop 4),
          List.take_append_drop]
      have hlong : 4 ≤ (l.take 4 ++ (used ++ r')).length := by
        rw [List.length_append]
        omega
      show contentAt _ tag _ _ = _
      rw [List.append_assoc, hfirst, List.drop_left' hlen]
      rw [decide_eq_true ⟨rfl, hlong⟩]
      exact hcontent r'
  · simp [hle, contentAt] at h
    split at h
    · cases h
    · split at h <;> cases h

section

variable [FloatOps]

theorem stringAt_inside : Inside stringAt := by
  refine inside_of_head (F := stringFrom) ?_ ?_
  · intro type tag
    unfold stringFrom
    refine Inside.ite (c := type = protoZeroTag) (fieldAt_inside type tag 0 _) ?_
    refine Inside.ite (c := type = protoString1) ?_ ?_
    · intro l a r h
      cases l with
      | nil => cases h
      | cons b l =>
        obtain ⟨used, hl, hcontent⟩ := contentAt_inside tag (b.toBitVec.signExtend 32) _ _ _ h
        exact ⟨b :: used, by rw [hl]; rfl, hcontent⟩
    · exact Inside.ite (c := type = protoString4) (longString_inside tag)
        (fieldAt_inside type tag (textWidth type) (textOf type))
  · intro h a r hwhole hrest
    unfold stringFrom
    simp only [hwhole, hrest]
    split
    · exact fieldAt_cut hwhole 0 _ a r
    · split
      · exact fun h => by cases h
      · split
        · simp [contentAt]
          split
          · exact fun h => by cases h
          · split <;> exact fun h => by cases h
        · exact fieldAt_cut hwhole _ _ a r

/-- Behind a length byte that is missing there is nothing. -/
theorem stringAt_unset {l : List UInt8} {w : Walk (List UInt8 × UInt8)}
    (h : stringAt l = .unset w) : w = .short [] := by
  unfold stringAt stringFrom at h
  split at h
  · unfold fieldAt at h
    split at h <;> cases h
  · split at h
    · split at h
      · cases h
        rfl
      · unfold contentAt at h
        repeat' split at h
        all_goals cases h
    · split at h
      · unfold contentAt at h
        repeat' split at h
        all_goals cases h
      · unfold fieldAt at h
        split at h <;> cases h

theorem entryAt_inside : Inside entryAt :=
  stringAt_inside.bind fun _ => Inside.ite
    (stringAt_inside.bind fun _ => Inside.ite (inside_whole _) inside_short) inside_short

theorem entriesAt_inside (n : Nat) : Inside (entriesAt n) := by
  induction n with
  | zero => exact inside_whole []
  | succ n ih => exact entryAt_inside.and ih List.cons

theorem mapAt_inside : Inside mapAt := by
  refine inside_of_head (F := fun h =>
    if h.type = protoMap then
      (intAt h.rest).bind fun size r =>
        if size.1.toInt < 0 then .short r
        else (entriesAt size.1.toInt.toNat r).map fun es => (putEntries es, h.tag)
    else .rejected) ?_ ?_
  · intro type tag
    refine Inside.ite (c := type = protoMap) ?_ fun l a r h => by cases h
    have hsize : ∀ size : BitVec 32 × UInt8, Inside fun r =>
        if size.1.toInt < 0 then .short r
        else (entriesAt size.1.toInt.toNat r).map fun es => (putEntries es, tag) :=
      fun size => inside_short.ite
        ((entriesAt_inside size.1.toInt.toNat).map fun es => (putEntries es, tag))
    exact intAt_inside.bind hsize
  · intro h a r _ hrest
    simp only [hrest]
    split
    · exact fun h => by cases h
    · exact fun h => by cases h

theorem messageAt_inside : Inside messageAt :=
  intAt_inside.and (stringAt_inside.and (intAt_inside.and mapAt_inside Prod.mk) Prod.mk) _

/-! ## Whole messages -/

/-- The payload holds the header of a message: a part of it determines the
fields, whatever follows. -/
def WholeMessage (buf : List UInt8) : Prop :=
  ∃ h used rest, buf = used ++ rest ∧ ∀ rest', messageAt (used ++ rest') = .whole h rest'

theorem wholeMessage_iff (buf : List UInt8) :
    WholeMessage buf ↔ ∃ h r, messageAt buf = .whole h r := by
  constructor
  · intro h
    rcases h with ⟨h, used, rest, rfl, hmsg⟩
    exact ⟨h, rest, hmsg rest⟩
  · intro h
    rcases h with ⟨h, r, hmsg⟩
    obtain ⟨used, hbuf, hused⟩ := messageAt_inside _ _ _ hmsg
    exact ⟨h, used, r, hbuf, hused⟩

/-- Three whole fields, and behind them a map that is read to its end although
it is not whole: its size is cut off or negative, or an entry is cut off or
does not have the tags 0 and 1. -/
def TornMap (buf : List UInt8) : Prop :=
  ∃ UID r₁ cmd r₂ packSeq r₃, intAt buf = .whole UID r₁ ∧ stringAt r₁ = .whole cmd r₂ ∧
    intAt r₂ = .whole packSeq r₃ ∧ (mapAt r₃).Torn

/-- Only a torn map can make a message torn: behind a field that has run off
the end, the type of the map is wrong. -/
theorem messageAt_torn (buf : List UInt8) : (messageAt buf).Torn ↔ TornMap buf := by
  have hint : ∀ l (w : Walk (BitVec 32 × UInt8)), intAt l = .unset w → w = .short [] :=
    fun l w h => absurd (h ▸ intAt_returns l : (Walk.unset w).Returns) id
  unfold TornMap messageAt
  rw [Walk.torn_and (intAt_settled buf) (hint buf) rfl]
  refine exists_congr fun UID => exists_congr fun r₁ => ?_
  rw [Walk.torn_and (stringAt_settled r₁) (fun _ => stringAt_unset) rfl]
  constructor
  · intro h
    rcases h with ⟨hUID, cmd, r₂, hcmd, h⟩
    rw [Walk.torn_and (intAt_settled r₂) (hint r₂) rfl] at h
    obtain ⟨packSeq, r₃, hseq, hmap⟩ := h
    exact ⟨cmd, r₂, packSeq, r₃, hUID, hcmd, hseq, hmap⟩
  · intro h
    rcases h with ⟨cmd, r₂, packSeq, r₃, hUID, hcmd, hseq, hmap⟩
    refine ⟨hUID, cmd, r₂, hcmd, ?_⟩
    rw [Walk.torn_and (intAt_settled r₂) (hint r₂) rfl]
    exact ⟨packSeq, r₃, hseq, hmap⟩

end

/-! ## Acceptance -/

/-- A run that gives a value comes from a walk that may end. -/
theorem Describes.ends {α : Type} {s s' : IStream} {a : α} {w : Walk α}
    (h : Describes s (.ok a s') w) : w.Ends := by
  induction w with
  | whole b r => trivial
  | short r => trivial
  | rejected =>
    obtain ⟨text, s', hres⟩ := h
    cases hres
  | aborted =>
    obtain ⟨s', hres⟩ := h
    cases hres
  | unset w ih =>
    obtain ⟨j, hj⟩ := h
    split at hj
    · exact ih hj
    · obtain ⟨s', hres⟩ := hj
      cases hres

/-- A walk that may end does so when the variables hold zero. -/
theorem Walk.Ends.run {α : Type} {s : IStream} {res : EStateM.Result CppExc IStream α}
    {w : Walk α} (hw : w.Ends) (h : Describes s res w) (hjunk : ∀ i, s.junk i = 0) :
    ∃ a s', res = .ok a s' := by
  induction w with
  | whole b r =>
    obtain ⟨s', hres, _⟩ := h
    exact ⟨b, s', hres⟩
  | short r =>
    obtain ⟨a, s', hres, _⟩ := h
    exact ⟨a, s', hres⟩
  | unset w ih =>
    obtain ⟨j, hj⟩ := h
    rw [hjunk, if_pos (by decide)] at hj
    exact ih hw hj
  | _ => exact absurd hw id

section

variable [FloatOps]

/-- Accepted payloads hold their message, and no variable without a value
shows in it, exactly when there is no torn map. -/
theorem onlyWhole_iff (packet : NetPacket) (buf : List UInt8) (msg : FromMsg)
    (hbuf : buf.length = packet.datalen.toNat) :
    (∀ junk m, bufFromMsg packet buf msg junk = .ok (true, m) →
      WholeMessage buf ∧ ∀ junk', bufFromMsg packet buf msg junk' = .ok (true, m)) ↔
      ¬TornMap buf := by
  have htake : buf.take packet.datalen.toNat = buf := by rw [← hbuf, List.take_length]
  rw [← messageAt_torn, wholeMessage_iff]
  unfold bufFromMsg
  rw [htake]
  constructor
  · intro h htorn
    obtain ⟨a, s', hres⟩ := htorn.ends.run (readHeader_describes buf fun _ => 0) fun _ => rfl
    obtain ⟨⟨h', r, hwhole⟩, _⟩ := h (fun _ => 0) (msg.withHeader a) (by rw [hres])
    rw [hwhole] at htorn
    exact htorn
  · intro htorn junk m hrun
    cases hres : readHeader (membuf buf junk) with
    | error e s' =>
      rw [hres] at hrun
      cases e <;> cases hrun
    | ok a s' =>
      have hends : (messageAt buf).Ends := Describes.ends (hres ▸ readHeader_describes buf junk)
      rcases hends.whole_or_torn with ⟨h', r, hwhole⟩ | h'
      · have hvalue : ∀ junk', ∃ s₁, readHeader (membuf buf junk') = .ok h' s₁ := by
          intro junk'
          obtain ⟨s₁, hrun', _⟩ :=
            (hwhole ▸ readHeader_describes buf junk' : Describes _ _ (.whole h' r))
          exact ⟨s₁, hrun'⟩
        refine ⟨⟨h', r, hwhole⟩, fun junk' => ?_⟩
        obtain ⟨s₁, h₁⟩ := hvalue junk
        obtain ⟨s₂, h₂⟩ := hvalue junk'
        rw [h₁] at hrun
        rw [h₂]
        exact hrun
      · exact absurd h' htorn

end

/-- A message with the command `hi` and no attributes. -/
theorem onlyWhole_iff_hi :
    (∀ junk m, @bufFromMsg ⟨fun v => v.setWidth 64, fun _ => [], fun _ => []⟩ ⟨1, 4, 5, 0, 8⟩
        [0x0C, 0x16, 2, 104, 105, 0x2C, 0x38, 0x0C] { client := 0 } junk = .ok (true, m) →
      @WholeMessage ⟨fun v => v.setWidth 64, fun _ => [], fun _ => []⟩
        [0x0C, 0x16, 2, 104, 105, 0x2C, 0x38, 0x0C] ∧
      ∀ junk', @bufFromMsg ⟨fun v => v.setWidth 64, fun _ => [], fun _ => []⟩ ⟨1, 4, 5, 0, 8⟩
        [0x0C, 0x16, 2, 104, 105, 0x2C, 0x38, 0x0C] { client := 0 } junk' = .ok (true, m)) ↔
      ¬@TornMap ⟨fun v => v.setWidth 64, fun _ => [], fun _ => []⟩
        [0x0C, 0x16, 2, 104, 105, 0x2C, 0x38, 0x0C] :=
  @onlyWhole_iff ⟨fun v => v.setWidth 64, fun _ => [], fun _ => []⟩ ⟨1, 4, 5, 0, 8⟩
    [0x0C, 0x16, 2, 104, 105, 0x2C, 0x38, 0x0C] { client := 0 } (by decide)

/-- A payload that ends behind the header of the map is accepted. -/
theorem bufFromMsg_accepts_cut :
    ¬∀ junk m, @bufFromMsg ⟨fun v => v.setWidth 64, fun _ => [], fun _ => []⟩ ⟨1, 4, 5, 0, 5⟩
        [0x0C, 0x16, 0, 0x2C, 0x38] { client := 0 } junk = .ok (true, m) →
      @WholeMessage ⟨fun v => v.setWidth 64, fun _ => [], fun _ => []⟩
        [0x0C, 0x16, 0, 0x2C, 0x38] ∧
      ∀ junk', @bufFromMsg ⟨fun v => v.setWidth 64, fun _ => [], fun _ => []⟩ ⟨1, 4, 5, 0, 5⟩
        [0x0C, 0x16, 0, 0x2C, 0x38] { client := 0 } junk' = .ok (true, m) := by
  intro h
  let F : FloatOps := ⟨fun v => v.setWidth 64, fun _ => [], fun _ => []⟩
  have hshort : messageAt [0x0C, 0x16, 0, 0x2C, 0x38] = .short [] := rfl
  have hends : (messageAt [0x0C, 0x16, 0, 0x2C, 0x38]).Ends := by
    rw [hshort]
    trivial
  obtain ⟨a, s', hres⟩ := hends.run (readHeader_describes _ fun _ => 0) fun _ => rfl
  obtain ⟨hwhole, _⟩ := h (fun _ => 0) (FromMsg.withHeader { client := 0 } a) (by
    unfold bufFromMsg
    rw [show [0x0C, 0x16, 0, 0x2C, 0x38].take (5 : UInt32).toNat =
      ([0x0C, 0x16, 0, 0x2C, 0x38] : List UInt8) from rfl, hres])
  obtain ⟨header, r, hmsg⟩ := (wholeMessage_iff _).mp hwhole
  have hne := hshort.symm.trans hmsg
  cases hne

end OCServer.GameProto
