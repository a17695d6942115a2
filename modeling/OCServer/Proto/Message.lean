import Mathlib.Data.List.TakeWhile
import OCServer.Proto.JavaSkip

/-!
# Messages

A message is a list of fields with ascending tags, as a sequence of writes
makes it, at the top of the data or inside a struct.  `skipToTag` of
`ProtoInputStream` goes to the first field that is not below the wanted tag,
whatever the fields before it are: `skipToTag_message`.
-/

namespace OCServer

open BigEndian ByteIO ByteSource

/-- A field. -/
structure MessageField where
  tag : UInt8
  type : Ty
  value : Val type

/-- The bytes of the fields. -/
def encMessage (endTag : UInt8 → UInt8) (fs : List MessageField) : List UInt8 :=
  fs.flatMap fun f => enc endTag f.type f.tag f.value

/-- The tags are strictly ascending. -/
def Ascending (fs : List MessageField) : Prop := fs.Pairwise fun f g => f.tag.toNat < g.tag.toNat

/-- What may follow the last field: nothing, or the end of a struct. -/
def Ends (l : List UInt8) : Prop := l = [] ∨ ∃ tag r, l = encHead protoStructEnd tag ++ r

/-- A field has the tag. -/
def hasTag (tag : Int) (fs : List MessageField) : Bool := fs.any fun f => (f.tag.toNat : Int) == tag

/-- The fields that are not below the tag. -/
def fieldsFrom (tag : Int) (fs : List MessageField) : List MessageField :=
  fs.dropWhile fun f => decide ((f.tag.toNat : Int) < tag)

theorem hasTag_iff {tag : Int} {fs : List MessageField} :
    hasTag tag fs = true ↔ ∃ f ∈ fs, (f.tag.toNat : Int) = tag := by
  simp [hasTag]

/-- A first field at the tag or above it. -/
theorem hasTag_cons_of_le {tag : Int} {f : MessageField} {fs : List MessageField}
    (hasc : Ascending (f :: fs))
    (hle : tag ≤ f.tag.toNat) : hasTag tag (f :: fs) = (tag == f.tag.toNat) := by
  have hrest : hasTag tag fs = false := by
    rw [← Bool.not_eq_true, hasTag_iff]
    intro h
    rcases h with ⟨g, hg, heq⟩
    have hlt := (List.pairwise_cons.mp hasc).1 g hg
    omega
  unfold hasTag at hrest ⊢
  rw [List.any_cons, hrest, Bool.or_false, Bool.beq_comm]

/-- A first field below the tag. -/
theorem hasTag_cons_of_lt {tag : Int} {f : MessageField} {fs : List MessageField}
    (hlt : (f.tag.toNat : Int) < tag) : hasTag tag (f :: fs) = hasTag tag fs := by
  have hne : ((f.tag.toNat : Int) == tag) = false := by
    rw [beq_eq_false_iff_ne]
    omega
  unfold hasTag
  rw [List.any_cons, hne, Bool.false_or]

theorem fieldsFrom_cons_of_le {tag : Int} {f : MessageField} {fs : List MessageField}
    (hle : tag ≤ f.tag.toNat) : fieldsFrom tag (f :: fs) = f :: fs := by
  unfold fieldsFrom
  rw [List.dropWhile_cons, if_neg]
  simp only [decide_eq_true_eq]
  omega

theorem fieldsFrom_cons_of_lt {tag : Int} {f : MessageField} {fs : List MessageField}
    (hlt : (f.tag.toNat : Int) < tag) : fieldsFrom tag (f :: fs) = fieldsFrom tag fs := by
  unfold fieldsFrom
  rw [List.dropWhile_cons, if_pos (decide_eq_true hlt)]

/-- No field is kept when all are below the tag. -/
theorem below_of_fieldsFrom_nil {tag : Int} {fs : List MessageField} (h : fieldsFrom tag fs = []) :
    ∀ f ∈ fs, (f.tag.toNat : Int) < tag := by
  intro f hf
  exact of_decide_eq_true (List.dropWhile_eq_nil_iff.mp h f hf)

/-- The first field that is kept is not below the tag. -/
theorem le_of_fieldsFrom_cons {tag : Int} {f : MessageField} {fs gs : List MessageField}
    (h : fieldsFrom tag fs = f :: gs) : tag ≤ f.tag.toNat := by
  induction fs with
  | nil => cases h
  | cons g fs ih =>
    by_cases hle : tag ≤ g.tag.toNat
    · rw [fieldsFrom_cons_of_le hle] at h
      cases h
      exact hle
    · rw [fieldsFrom_cons_of_lt (by omega)] at h
      exact ih h

/-- A field that is not below the tag is kept. -/
theorem mem_fieldsFrom {f : MessageField} {fs : List MessageField} {tag : Int} (hf : f ∈ fs)
    (hle : tag ≤ f.tag.toNat) : f ∈ fieldsFrom tag fs := by
  induction fs with
  | nil => cases hf
  | cons g fs ih =>
    by_cases hg : tag ≤ g.tag.toNat
    · rw [fieldsFrom_cons_of_le hg]
      exact hf
    · rw [fieldsFrom_cons_of_lt (by omega)]
      rcases List.mem_cons.mp hf with rfl | hf
      · omega
      · exact ih hf

/-- A field at the tag is the first one that is kept. -/
theorem fieldsFrom_eq_cons {f : MessageField} {fs : List MessageField} (hasc : Ascending fs)
    (hf : f ∈ fs) : ∃ gs, fieldsFrom f.tag.toNat fs = f :: gs := by
  induction fs with
  | nil => cases hf
  | cons g fs ih =>
    rcases List.pairwise_cons.mp hasc with ⟨hlt, hasc'⟩
    rcases List.mem_cons.mp hf with rfl | hf
    · exact ⟨fs, fieldsFrom_cons_of_le (Int.le_refl _)⟩
    · have hg := hlt f hf
      rw [fieldsFrom_cons_of_lt (by omega)]
      exact ih hasc' hf

/-- Two fields with one tag are one field. -/
theorem Ascending.eq_of_tag {fs : List MessageField} (hasc : Ascending fs) {f g : MessageField}
    (hf : f ∈ fs) (hg : g ∈ fs) (h : f.tag = g.tag) : f = g := by
  rcases fieldsFrom_eq_cons hasc hf with ⟨fs₁, hfs₁⟩
  rcases fieldsFrom_eq_cons hasc hg with ⟨fs₂, hfs₂⟩
  rw [h, hfs₂] at hfs₁
  exact (List.cons.inj hfs₁).1.symm

/-- The tag is there when the first field that is kept has it. -/
theorem hasTag_iff_fieldsFrom {tag : Int} {fs : List MessageField} (hasc : Ascending fs) :
    hasTag tag fs = true ↔ ∃ f gs, fieldsFrom tag fs = f :: gs ∧ (f.tag.toNat : Int) = tag := by
  rw [hasTag_iff]
  constructor
  · intro h
    rcases h with ⟨f, hf, rfl⟩
    rcases fieldsFrom_eq_cons hasc hf with ⟨gs, hgs⟩
    exact ⟨f, gs, hgs, rfl⟩
  · intro h
    rcases h with ⟨f, gs, hgs, htag⟩
    have hmem : f ∈ fieldsFrom tag fs := by
      rw [hgs]
      exact List.mem_cons_self
    exact ⟨f, (List.dropWhile_sublist _).subset hmem, htag⟩

theorem encMessage_length_le (endTag : UInt8 → UInt8) {fs gs : List MessageField} (h : gs <:+ fs) :
    (encMessage endTag gs).length ≤ (encMessage endTag fs).length := by
  rcases h with ⟨pre, rfl⟩
  unfold encMessage
  rw [List.flatMap_append, List.length_append]
  omega

namespace Java

/-! ## `skipToTag` on a message -/

variable {b : JBuf} {tag : Int}

/-- At the end of the data there is no header. -/
theorem peakHead_nil (hb : At b []) : peakHead b = .error .bufferUnderflow b := by
  have hlen := at_length hb
  have hpos := b.pos_le
  rw [List.length_nil] at hlen
  have hget : getBytes 1 b = .error .bufferUnderflow b := by
    unfold getBytes
    rw [dif_neg (by omega)]
  have hhead : readHead b = .error .bufferUnderflow b := bind_of_error (bind_of_error hget)
  unfold peakHead
  rw [hhead]

theorem skipToTag_nil (fuel : Nat) (tag : Int) (hb : At b []) :
    skipToTag (fuel + 1) tag b = .ok false b := by
  have hloop : skipToTagLoop (fuel + 1) tag b = .error .bufferUnderflow b :=
    bind_of_error (peakHead_nil hb)
  unfold skipToTag catchIn
  rw [hloop]
  rfl

theorem skipToTag_end (fuel : Nat) (tag : Int) {endTag : UInt8} {r : List UInt8}
    (hb : At b (encHead protoStructEnd endTag ++ r)) :
    skipToTag (fuel + 1) tag b = .ok false b := by
  have hloop : skipToTagLoop (fuel + 1) tag b = .ok false b := by
    unfold skipToTagLoop
    rw [bind_of_ok (peakHead_eq (by decide) endTag hb)]
    rfl
  unfold skipToTag catchIn
  rw [hloop]

/-- The wanted field, or a larger one. -/
theorem skipToTag_stop (fuel : Nat) {t : UInt8} {bs r : List UInt8} (h : FieldAt t bs)
    (hb : At b (bs ++ r)) (hle : tag ≤ t.toNat) :
    skipToTag (fuel + 1) tag b = .ok (tag == t.toNat) b := by
  rcases h with ⟨type, rest, htype, hne, rfl⟩
  rw [List.append_assoc] at hb
  have hloop : skipToTagLoop (fuel + 1) tag b = .ok (tag == t.toNat) b := by
    unfold skipToTagLoop
    rw [bind_of_ok (peakHead_eq htype t hb)]
    dsimp only
    rw [if_neg hne, if_pos hle]
    rfl
  unfold skipToTag catchIn
  rw [hloop]

/-- A smaller field is skipped. -/
theorem skipToTag_next (fuel : Nat) {t : UInt8} {bs r : List UInt8} (h : Skipped t bs)
    (hfuel : 2 * bs.length ≤ fuel + 1) (hb : At b (bs ++ r)) (hlt : (t.toNat : Int) < tag) :
    ∃ b', skipToTag (fuel + 1) tag b = skipToTag fuel tag b' ∧ At b' r ∧ Same b b' := by
  rcases h with ⟨type, rest, htype, hne, rfl, hskip⟩
  rw [List.append_assoc] at hb
  rcases skip_reads (encHead type t).length rfl b _ hb with ⟨b₁, h₁, hb₁, hsame₁⟩
  rcases hskip fuel hfuel b₁ r hb₁ with ⟨b₂, h₂, hb₂, hsame₂⟩
  have hloop : skipToTagLoop (fuel + 1) tag b = skipToTagLoop fuel tag b₂ := by
    conv_lhs => unfold skipToTagLoop
    rw [bind_of_ok (peakHead_eq htype t hb)]
    dsimp only
    rw [if_neg hne, if_neg (by omega), bind_of_ok h₁, bind_of_ok h₂]
  refine ⟨b₂, ?_, hb₂, same_trans hsame₁ hsame₂⟩
  unfold skipToTag catchIn
  rw [hloop]

/-- On a message, `skipToTag` answers whether the tag is there, and stands
before the first field that is not below it. -/
theorem skipToTag_message (endTag : UInt8 → UInt8) {tail : List UInt8} (htail : Ends tail)
    (tag : Int) (fs : List MessageField) (hasc : Ascending fs) :
    ∀ (fuel : Nat) (b : JBuf), 2 * (encMessage endTag fs).length < fuel →
      At b (encMessage endTag fs ++ tail) →
      ∃ b', skipToTag fuel tag b = .ok (hasTag tag fs) b' ∧
        At b' (encMessage endTag (fieldsFrom tag fs) ++ tail) ∧ Same b b' := by
  induction fs with
  | nil =>
    intro fuel b hfuel hb
    cases fuel with
    | zero => omega
    | succ fuel =>
      refine ⟨b, ?_, hb, same_refl b⟩
      rcases htail with rfl | ⟨t, r, rfl⟩
      · exact skipToTag_nil fuel tag hb
      · exact skipToTag_end fuel tag hb
  | cons f fs ih =>
    intro fuel b hfuel hb
    have hpos := enc_length_pos endTag f.type f.tag f.value
    have hcons : encMessage endTag (f :: fs) =
        enc endTag f.type f.tag f.value ++ encMessage endTag fs := List.flatMap_cons
    rw [hcons, List.append_assoc] at hb
    rw [hcons, List.length_append] at hfuel
    cases fuel with
    | zero => omega
    | succ fuel =>
      by_cases hle : tag ≤ f.tag.toNat
      · refine ⟨b, ?_, ?_, same_refl b⟩
        · rw [hasTag_cons_of_le hasc hle]
          exact skipToTag_stop fuel (fieldAt_enc endTag f.type f.tag f.value) hb hle
        · rw [fieldsFrom_cons_of_le hle, hcons, List.append_assoc]
          exact hb
      · have hlt : (f.tag.toNat : Int) < tag := by omega
        have hskipped := skipped_enc endTag f.type f.tag f.value
        rcases skipToTag_next fuel hskipped (by omega) hb hlt with ⟨b₁, hrun, hb₁, hsame₁⟩
        rcases ih (List.pairwise_cons.mp hasc).2 fuel b₁ (by omega) hb₁
          with ⟨b₂, hrun₂, hb₂, hsame₂⟩
        refine ⟨b₂, ?_, ?_, same_trans hsame₁ hsame₂⟩
        · rw [hrun, hrun₂, hasTag_cons_of_lt hlt]
        · rw [fieldsFrom_cons_of_lt hlt]
          exact hb₂

end Java

end OCServer
