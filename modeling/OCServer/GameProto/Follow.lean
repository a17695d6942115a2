import OCServer.Proto.CppRead
import OCServer.GameProto.Walk

/-!
# The readers follow the walks

`Describes s res w` says that the run `res` from the stream `s` is one that
the walk `w` allows, and `Follows m w` that every run of `m` is described by
the walk over the bytes that are left.  Nothing is assumed of the stream:
it may have failed, and the variables without a value hold anything.

`readHeader_follows` is assembled from one lemma for each reader.  `Draws`
is the same for the readers of a fixed number of bytes.
-/

namespace OCServer.GameProto

open BigEndian ByteIO Cpp

/-- The bytes that a `get` may still find. -/
def left (s : IStream) : List UInt8 := if s.fail then [] else s.data.drop s.pos

/-- `s'` comes later than `s`: some variables have taken their values. -/
def Shifted (s s' : IStream) : Prop := ∃ k, ∀ i, s'.junk i = s.junk (i + k)

theorem Shifted.refl (s : IStream) : Shifted s s := ⟨0, fun _ => rfl⟩

theorem Shifted.trans {s t u : IStream} (h : Shifted s t) (h' : Shifted t u) : Shifted s u := by
  obtain ⟨k, hk⟩ := h
  obtain ⟨k', hk'⟩ := h'
  refine ⟨k' + k, fun i => ?_⟩
  rw [hk', hk, Nat.add_assoc]

/-! ## Readers of a fixed number of bytes -/

/-- `m` takes `w` bytes, and gives `f` of them when they are there. -/
def Draws {α : Type} (m : CppIn α) (w : Nat) (f : List UInt8 → α) : Prop :=
  ∀ s, ∃ a s', m s = .ok a s' ∧ left s' = (left s).drop w ∧ Shifted s s' ∧
    (w ≤ (left s).length → a = f ((left s).take w))

theorem getInto_cons (target : UInt8) {s : IStream} {b : UInt8} {r : List UInt8}
    (h : left s = b :: r) :
    ∃ s', getInto target s = .ok b s' ∧ left s' = r ∧ Shifted s s' := by
  unfold left at h
  cases hfail : s.fail with
  | true => simp [hfail] at h
  | false =>
    rw [hfail, if_neg (by decide)] at h
    have hget : s.data[s.pos]? = some b := by rw [← List.head?_drop, h, List.head?_cons]
    refine ⟨{ s with pos := s.pos + 1 }, ?_, ?_, Shifted.refl s⟩
    · unfold getInto
      rw [hfail, hget]
      rfl
    · unfold left
      show (if s.fail then [] else s.data.drop (s.pos + 1)) = r
      rw [hfail, if_neg (by decide), ← List.drop_drop, h, List.drop_one, List.tail_cons]

theorem getInto_nil (target : UInt8) {s : IStream} (h : left s = []) :
    ∃ s', getInto target s = .ok target s' ∧ left s' = [] ∧ Shifted s s' := by
  unfold getInto
  cases hfail : s.fail with
  | true => exact ⟨s, by simp, h, Shifted.refl s⟩
  | false =>
    unfold left at h
    rw [hfail, if_neg (by decide)] at h
    have hget : s.data[s.pos]? = none := by rw [← List.head?_drop, h, List.head?_nil]
    refine ⟨{ s with fail := true }, ?_, rfl, Shifted.refl s⟩
    rw [hget]
    rfl

theorem getInto_draws (target : UInt8) : Draws (getInto target) 1 fun bs => bs.headD 0 := by
  intro s
  cases h : left s with
  | nil =>
    obtain ⟨s', hrun, hleft, hshift⟩ := getInto_nil target h
    exact ⟨target, s', hrun, hleft, hshift, fun hle => by simp at hle⟩
  | cons b r =>
    obtain ⟨s', hrun, hleft, hshift⟩ := getInto_cons target h
    exact ⟨b, s', hrun, hleft, hshift, fun _ => rfl⟩

/-- The number of bytes that a loop of `get` takes. -/
theorem getLoop_draws (w : Nat) (a : UInt8) : Draws (getLoop w a) w id := by
  induction w generalizing a with
  | zero => exact fun s => ⟨[], s, rfl, rfl, Shifted.refl s, fun _ => rfl⟩
  | succ w ih =>
    intro s
    obtain ⟨b, s₁, hget, hleft₁, hshift₁, hval⟩ := getInto_draws a s
    obtain ⟨bs, s₂, hloop, hleft₂, hshift₂, hvals⟩ := ih b s₁
    refine ⟨b :: bs, s₂, ?_, ?_, hshift₁.trans hshift₂, fun hle => ?_⟩
    · unfold getLoop
      rw [bind_of_ok hget, bind_of_ok hloop]
      rfl
    · rw [hleft₂, hleft₁, List.drop_drop, Nat.add_comm]
    · rw [hleft₁, List.length_drop] at hvals
      rw [hval (by omega), hvals (by omega)]
      cases h : left s with
      | nil => simp [h] at hle
      | cons c r => rfl

/-- The value of a reader, changed. -/
theorem Draws.bind {α β : Type} {m : CppIn α} {w : Nat} {f : List UInt8 → α}
    (h : Draws m w f) (g : α → β) : Draws (m >>= fun a => pure (g a)) w fun bs => g (f bs) := by
  intro s
  obtain ⟨a, s', hrun, hleft, hshift, hval⟩ := h s
  refine ⟨g a, s', ?_, hleft, hshift, fun hle => congrArg g (hval hle)⟩
  rw [bind_of_ok hrun]
  rfl

/-- The value need only be right on lists of `w` bytes. -/
theorem Draws.congr {α : Type} {m : CppIn α} {w : Nat} {f f' : List UInt8 → α}
    (h : Draws m w f) (hf : ∀ bs, bs.length = w → f bs = f' bs) : Draws m w f' := by
  intro s
  obtain ⟨a, s', hrun, hleft, hshift, hval⟩ := h s
  refine ⟨a, s', hrun, hleft, hshift, fun hle => ?_⟩
  rw [hval hle, hf _ (by rw [List.length_take]; omega)]

/-- A value takes no byte. -/
theorem pure_draws {α : Type} (a : α) : Draws (pure a : CppIn α) 0 fun _ => a :=
  fun s => ⟨a, s, rfl, rfl, Shifted.refl s, fun _ => rfl⟩

/-- A variable without a value, and a reader that need not look at it. -/
theorem declare_draws {α : Type} {m : UInt8 → CppIn α} {w : Nat} {f : List UInt8 → α}
    (h : ∀ a, Draws (m a) w f) : Draws (declare >>= m) w f := by
  intro s
  obtain ⟨a, s', hrun, hleft, hshift, hval⟩ :=
    h (s.junk 0) { s with junk := fun i => s.junk (i + 1) }
  exact ⟨a, s', hrun, hleft, Shifted.trans ⟨1, fun _ => rfl⟩ hshift, hval⟩

theorem getChar_draws : Draws getChar 1 fun bs => bs.headD 0 :=
  declare_draws getInto_draws

theorem getNumber_draws (k w : Nat) :
    Draws (getNumber k w) w fun bs => BitVec.ofNat k (beVal bs) :=
  declare_draws fun a => (getLoop_draws w a).bind fun bs => BitVec.ofNat k (beVal bs)

theorem getShort_draws : Draws getShort 2 fun bs => BitVec.ofNat 16 (beVal bs) := by
  apply declare_draws
  intro a
  apply declare_draws
  intro b s
  obtain ⟨a', s₁, hget₁, hleft₁, hshift₁, hval₁⟩ := getInto_draws a s
  obtain ⟨b', s₂, hget₂, hleft₂, hshift₂, hval₂⟩ := getInto_draws b s₁
  refine ⟨BitVec.ofNat 16 (beVal [a', b']), s₂, ?_, ?_, hshift₁.trans hshift₂, fun hle => ?_⟩
  · rw [bind_of_ok hget₁, bind_of_ok hget₂]
    rfl
  · rw [hleft₂, hleft₁, List.drop_drop]
  · rw [hleft₁, List.length_drop] at hval₂
    rw [hval₁ (by omega), hval₂ (by omega)]
    match h : left s, hle with
    | _ :: _ :: _, _ => rfl

/-- The four bytes of a length, with zeros for those that are missing. -/
theorem getEach_run (n : Nat) (s : IStream) :
    ∃ s', getEach n s =
      .ok ((left s).take n ++ List.replicate (n - (left s).length) 0) s' ∧
      left s' = (left s).drop n ∧ Shifted s s' := by
  induction n generalizing s with
  | zero => exact ⟨s, by simp [getEach]; rfl, rfl, Shifted.refl s⟩
  | succ n ih =>
    unfold getEach
    cases h : left s with
    | nil =>
      obtain ⟨s₁, hget, hleft₁, hshift₁⟩ := getInto_nil 0 h
      obtain ⟨s₂, hloop, hleft₂, hshift₂⟩ := ih s₁
      rw [hleft₁] at hloop hleft₂
      refine ⟨s₂, ?_, by simpa using hleft₂, hshift₁.trans hshift₂⟩
      rw [bind_of_ok hget, bind_of_ok hloop]
      simp [List.replicate_succ]
      rfl
    | cons b r =>
      obtain ⟨s₁, hget, hleft₁, hshift₁⟩ := getInto_cons 0 h
      obtain ⟨s₂, hloop, hleft₂, hshift₂⟩ := ih s₁
      rw [hleft₁] at hloop hleft₂
      refine ⟨s₂, ?_, hleft₂, hshift₁.trans hshift₂⟩
      rw [bind_of_ok hget, bind_of_ok hloop]
      simp
      rfl

theorem readInto_draws (n : Nat) : Draws (readInto n) n id := by
  intro s
  unfold readInto left
  cases hfail : s.fail with
  | true =>
    refine ⟨List.replicate n 0, s, by simp, by simp [hfail], Shifted.refl s, fun hle => ?_⟩
    have hn : n = 0 := by simpa using hle
    simp [hn]
  | false =>
    simp only [Bool.false_eq_true, if_false]
    split
    · next hlen =>
      refine ⟨_, _, rfl, ?_, Shifted.refl s, fun _ => rfl⟩
      simp [List.drop_drop]
    · next hlen =>
      refine ⟨_, _, rfl, ?_, Shifted.refl s, fun hle => ?_⟩
      · rw [if_pos rfl, List.drop_eq_nil_of_le]
        rw [List.length_take] at hlen
        omega
      · rw [List.length_take] at hlen
        omega

/-- `readHead` sees the header at the front. -/
theorem readHead_run (s : IStream) :
    ∃ n s', readHead s = .ok ⟨(headAt (left s)).type, (headAt (left s)).tag, n⟩ s' ∧
      left s' = (headAt (left s)).rest ∧ Shifted s s' := by
  unfold readHead
  cases h : left s with
  | nil =>
    obtain ⟨s₁, hget, hleft₁, hshift₁⟩ := getInto_nil 0 h
    refine ⟨1, s₁, ?_, hleft₁, hshift₁⟩
    rw [bind_of_ok hget]
    rfl
  | cons b r =>
    obtain ⟨s₁, hget, hleft₁, hshift₁⟩ := getInto_cons 0 h
    rw [bind_of_ok hget]
    unfold headAt
    by_cases hb : (b &&& 0xF0) >>> 4 = 15
    · simp only [hb, if_true]
      cases r with
      | nil =>
        obtain ⟨s₂, hget₂, hleft₂, hshift₂⟩ := getInto_nil b hleft₁
        refine ⟨2, s₂, ?_, hleft₂, hshift₁.trans hshift₂⟩
        rw [bind_of_ok hget₂]
        rfl
      | cons t r =>
        obtain ⟨s₂, hget₂, hleft₂, hshift₂⟩ := getInto_cons b hleft₁
        refine ⟨2, s₂, ?_, hleft₂, hshift₁.trans hshift₂⟩
        rw [bind_of_ok hget₂]
        rfl
    · simp only [hb, if_false]
      exact ⟨1, s₁, rfl, hleft₁, hshift₁⟩

/-- A header that is cut off is the last thing. -/
theorem headAt_rest {l : List UInt8} (h : (headAt l).whole = false) : (headAt l).rest = [] := by
  match l with
  | [] => rfl
  | b :: r =>
    by_cases hb : (b &&& 0xF0) >>> 4 = 15
    · cases r with
      | nil => simp [headAt, hb]
      | cons t r => simp [headAt, hb] at h
    · simp [headAt, hb] at h

/-! ## Descriptions -/

/-- The runs that a walk allows. -/
def Describes {α : Type} (s : IStream) (res : EStateM.Result CppExc IStream α) : Walk α → Prop
  | .whole a r => ∃ s', res = .ok a s' ∧ left s' = r ∧ Shifted s s'
  | .short r => ∃ a s', res = .ok a s' ∧ left s' = r ∧ Shifted s s'
  | .rejected => ∃ text s', res = .error (.protoError text) s'
  | .aborted => ∃ s', res = .error .lengthError s'
  | .unset w => ∃ j,
    if s.junk j < 128 then Describes s res w else ∃ s', res = .error .lengthError s'

/-- Every run of `m` is described by the walk over what is left. -/
def Follows {α : Type} (m : CppIn α) (w : List UInt8 → Walk α) : Prop :=
  ∀ s, Describes s (m s) (w (left s))

section

variable {α β γ : Type}

/-- A description of a later run is one of the whole. -/
theorem Describes.trans {s s₁ : IStream} (h : Shifted s s₁)
    {res : EStateM.Result CppExc IStream α} {w : Walk α} (hw : Describes s₁ res w) :
    Describes s res w := by
  induction w with
  | whole a r =>
    obtain ⟨s', hres, hleft, hshift⟩ := hw
    exact ⟨s', hres, hleft, h.trans hshift⟩
  | short r =>
    obtain ⟨a, s', hres, hleft, hshift⟩ := hw
    exact ⟨a, s', hres, hleft, h.trans hshift⟩
  | rejected => exact hw
  | aborted => exact hw
  | unset w ih =>
    obtain ⟨j, hj⟩ := hw
    obtain ⟨k, hk⟩ := h
    refine ⟨j + k, ?_⟩
    rw [hk] at hj
    split
    · next hlt =>
      rw [if_pos hlt] at hj
      exact ih hj
    · next hlt =>
      rw [if_neg hlt] at hj
      exact hj

/-- The value of a run, changed. -/
theorem Describes.map {m : CppIn α} {s : IStream} {w : Walk α} (h : Describes s (m s) w)
    (g : α → β) : Describes s ((m >>= fun a => pure (g a)) s) (w.map g) := by
  induction w with
  | whole a r =>
    obtain ⟨s', hres, hrest⟩ := h
    refine ⟨s', ?_, hrest⟩
    rw [bind_of_ok hres]
    rfl
  | short r =>
    obtain ⟨a, s', hres, hrest⟩ := h
    refine ⟨g a, s', ?_, hrest⟩
    rw [bind_of_ok hres]
    rfl
  | rejected =>
    obtain ⟨text, s', hres⟩ := h
    exact ⟨text, s', bind_of_error hres⟩
  | aborted =>
    obtain ⟨s', hres⟩ := h
    exact ⟨s', bind_of_error hres⟩
  | unset w ih =>
    obtain ⟨j, hj⟩ := h
    refine ⟨j, ?_⟩
    split
    · next hlt =>
      rw [if_pos hlt] at hj
      exact ih hj
    · next hlt =>
      rw [if_neg hlt] at hj
      obtain ⟨s', hres⟩ := hj
      exact ⟨s', bind_of_error hres⟩

/-- Behind a short read, the value does not count. -/
theorem Describes.shorten {m : CppIn α} {s : IStream} {w : Walk α} (h : Describes s (m s) w)
    (g : α → β) : Describes s ((m >>= fun a => pure (g a)) s) (w.shorten : Walk β) := by
  have hmap := h.map g
  clear h
  induction w with
  | whole a r =>
    obtain ⟨s', hrest⟩ := hmap
    exact ⟨g a, s', hrest⟩
  | short r => exact hmap
  | rejected => exact hmap
  | aborted => exact hmap
  | unset w ih =>
    obtain ⟨j, hj⟩ := hmap
    refine ⟨j, ?_⟩
    split
    · next hlt =>
      rw [if_pos hlt] at hj
      exact ih hj
    · next hlt =>
      rw [if_neg hlt] at hj
      exact hj

/-- A reader that depends on the value of the one before. -/
theorem Describes.bind {m : CppIn α} {M : α → CppIn β} {F : α → List UInt8 → Walk β}
    {s : IStream} {w : Walk α} (h : Describes s (m s) w) (hw : w.Settled)
    (hM : ∀ a s', Describes s' (M a s') (F a (left s')))
    (hnil : ∀ a s', left s' = [] → Describes s' (M a s') (.short [])) :
    Describes s ((m >>= M) s) (w.bind F) := by
  induction w with
  | whole a r =>
    obtain ⟨s₁, hres, hleft, hshift⟩ := h
    rw [bind_of_ok hres, ← hleft]
    exact (hM a s₁).trans hshift
  | short r =>
    obtain ⟨a, s₁, hres, hleft, hshift⟩ := h
    have hr : r = [] := hw
    rw [bind_of_ok hres, hr]
    exact (hnil a s₁ (hleft.trans hr)).trans hshift
  | rejected =>
    obtain ⟨text, s', hres⟩ := h
    exact ⟨text, s', bind_of_error hres⟩
  | aborted =>
    obtain ⟨s', hres⟩ := h
    exact ⟨s', bind_of_error hres⟩
  | unset w ih =>
    obtain ⟨j, hj⟩ := h
    refine ⟨j, ?_⟩
    split
    · next hlt =>
      rw [if_pos hlt] at hj
      exact ih hj hw
    · next hlt =>
      rw [if_neg hlt] at hj
      obtain ⟨s', hres⟩ := hj
      exact ⟨s', bind_of_error hres⟩

/-- One reader after the other. -/
theorem Follows.and {m : CppIn α} {m' : CppIn β} {w : List UInt8 → Walk α}
    {w' : List UInt8 → Walk β} (hm : Follows m w) (hm' : Follows m' w') (g : α → β → γ) :
    Follows (m >>= fun a => m' >>= fun b => pure (g a b)) fun l => (w l).and w' g := by
  intro s
  have h := hm s
  show Describes s _ ((w (left s)).and w' g)
  generalize w (left s) = v at h ⊢
  induction v with
  | whole a r =>
    obtain ⟨s₁, hres, hleft, hshift⟩ := h
    rw [bind_of_ok hres, ← hleft]
    exact ((hm' s₁).map (g a)).trans hshift
  | short r =>
    obtain ⟨a, s₁, hres, hleft, hshift⟩ := h
    rw [bind_of_ok hres, ← hleft]
    exact ((hm' s₁).shorten (g a)).trans hshift
  | rejected =>
    obtain ⟨text, s', hres⟩ := h
    exact ⟨text, s', bind_of_error hres⟩
  | aborted =>
    obtain ⟨s', hres⟩ := h
    exact ⟨s', bind_of_error hres⟩
  | unset w ih =>
    obtain ⟨j, hj⟩ := h
    refine ⟨j, ?_⟩
    split
    · next hlt =>
      rw [if_pos hlt] at hj
      exact ih hj
    · next hlt =>
      rw [if_neg hlt] at hj
      obtain ⟨s', hres⟩ := hj
      exact ⟨s', bind_of_error hres⟩

end

/-! ## The fields -/

/-- A field of `w` bytes, behind its header. -/
theorem fieldAt_describes {α β : Type} {h : HeadAt} {m : CppIn α} {w : Nat}
    {f : List UInt8 → α} {f' : List UInt8 → β} (hm : Draws m w f) (g : α → β)
    (hg : ∀ bs, bs.length = w → g (f bs) = f' bs) {s : IStream} (hs : left s = h.rest) :
    Describes s ((m >>= fun a => pure (g a, h.tag)) s) (fieldAt h w f') := by
  obtain ⟨a, s', hrun, hleft, hshift, hval⟩ := hm s
  rw [hs] at hleft hval
  rw [bind_of_ok hrun]
  unfold fieldAt
  split
  · next hle =>
    refine ⟨s', ?_, hleft, hshift⟩
    rw [hval hle.2, ← hg (h.rest.take w) (by rw [List.length_take]; omega)]
    rfl
  · exact ⟨_, s', rfl, hleft, hshift⟩

/-- `read( int & )` and `read( unsigned int & )`. -/
theorem readInt_follows : Follows readInt intAt := by
  intro s
  obtain ⟨n, s₁, hhead, hleft, hshift⟩ := readHead_run s
  unfold readInt readInteger intAt intFrom intWidth
  rw [bind_of_ok hhead]
  generalize headAt (left s) = h at hleft ⊢
  obtain ⟨type, tag, rest, whole⟩ := h
  apply Describes.trans hshift
  by_cases hzero : type = protoZeroTag
  · subst hzero
    exact fieldAt_describes (pure_draws (0 : BitVec 32)) id (fun bs hbs => by
      rw [List.length_eq_zero_iff.mp hbs]
      rfl) hleft
  by_cases hbyte : type = protoByte
  · subst hbyte
    exact fieldAt_describes getChar_draws (fun c => c.toBitVec.setWidth 32) (fun bs hbs => by
      obtain ⟨b, rfl⟩ := List.length_eq_one_iff.mp hbs
      apply BitVec.eq_of_toNat_eq
      have hb := b.toNat_lt
      simp [beVal]) hleft
  by_cases hshort : type = protoShort
  · subst hshort
    exact fieldAt_describes getShort_draws (fun c => c.setWidth 32) (fun bs hbs => by
      have hlt := beVal_lt bs
      rw [hbs] at hlt
      apply BitVec.eq_of_toNat_eq
      simp only [BitVec.toNat_setWidth, BitVec.toNat_ofNat]
      omega) hleft
  by_cases hint : type = protoInt
  · subst hint
    exact fieldAt_describes (getNumber_draws 32 4) (fun c => c.setWidth 32) (fun bs _ => by
      rw [BitVec.setWidth_eq]) hleft
  simp only [hzero, hbyte, hshort, hint, if_false, false_and]
  have hlong : ¬(type = protoLong ∧ protoLong ≤ protoInt) := fun h => absurd h.2 (by decide)
  rw [if_neg hlong]
  exact error_tell _ s₁

/-- The content of a string, behind its length. -/
theorem readContent_describes (present : Bool) (tag : UInt8) (len : BitVec 32) (s : IStream) :
    Describes s (readContent len tag s) (contentAt present tag len (left s)) := by
  unfold contentAt
  split
  · next hlong =>
    unfold readContent
    rw [if_pos hlong]
    obtain ⟨p, htell⟩ : ∃ p, tell s = .ok p s := ⟨_, rfl⟩
    obtain ⟨text, s', herr⟩ := @error_run PUnit s!"Proto: String too long:{len.toInt} ." p s
    exact ⟨text, s', by rw [bind_of_ok htell, bind_of_error herr]⟩
  · next hlong =>
    split
    · next hneg => exact ⟨s, readContent_negative hneg tag s⟩
    · next hneg =>
      obtain ⟨bs, s', hrun, hleft, hshift, hval⟩ := readInto_draws len.toInt.toNat s
      have hcontent : readContent len tag s = .ok (bs, tag) s' := by
        unfold readContent getString
        rw [if_neg hlong, if_neg hneg]
        exact bind_of_ok hrun
      split
      · next hle =>
        refine ⟨s', ?_, hleft, hshift⟩
        rw [hcontent, hval hle.2]
        rfl
      · exact ⟨_, s', hcontent, hleft, hshift⟩

/-- A field that is not whole has run off the end. -/
theorem fieldAt_settled {α : Type} {h : HeadAt} (hrest : h.whole = false → h.rest = [])
    (w : Nat) (f : List UInt8 → α) : (fieldAt h w f).Settled := by
  unfold fieldAt
  split
  · trivial
  · next hle =>
    show h.rest.drop w = []
    cases hwhole : h.whole with
    | false => rw [hrest hwhole, List.drop_nil]
    | true => exact List.drop_eq_nil_of_le (Nat.le_of_not_le fun h' => hle ⟨hwhole, h'⟩)

theorem intAt_settled (l : List UInt8) : (intAt l).Settled := by
  unfold intAt intFrom
  split
  · exact fieldAt_settled headAt_rest _ _
  · trivial

theorem contentAt_settled {present : Bool} {rest : List UInt8}
    (hrest : present = false → rest = []) (tag : UInt8) (len : BitVec 32) :
    (contentAt present tag len rest).Settled := by
  unfold contentAt
  split
  · trivial
  split
  · trivial
  split
  · trivial
  · next hle =>
    show rest.drop _ = []
    cases hpresent : present with
    | false => rw [hrest hpresent, List.drop_nil]
    | true => exact List.drop_eq_nil_of_le (Nat.le_of_not_le fun h' => hle ⟨hpresent, h'⟩)

section

variable [FloatOps]

theorem readText_draws (type : UInt8) :
    Draws (readText type) (textWidth type) (textOf type) := by
  have hnat : ∀ {k n : Nat} (bs : List UInt8), bs.length = n → 256 ^ n ≤ 2 ^ k →
      decimal (BitVec.ofNat k (beVal bs)).toNat = decimal (beVal bs) := by
    intro k n bs hbs hle
    have hlt := beVal_lt bs
    rw [hbs] at hlt
    rw [BitVec.toNat_ofNat, Nat.mod_eq_of_lt (Nat.lt_of_lt_of_le hlt hle)]
  unfold readText textWidth
  by_cases hbyte : type = protoByte
  · subst hbyte
    refine (getChar_draws.bind fun c => [c]).congr fun bs hbs => ?_
    obtain ⟨b, rfl⟩ := List.length_eq_one_iff.mp hbs
    rfl
  by_cases hshort : type = protoShort
  · subst hshort
    exact (getShort_draws.bind fun v => decimal v.toNat).congr
      fun bs hbs => hnat bs hbs (by decide)
  by_cases hint : type = protoInt
  · subst hint
    exact ((getNumber_draws 32 4).bind fun v => decimal v.toNat).congr
      fun bs hbs => hnat bs hbs (by decide)
  by_cases hlong : type = protoLong
  · subst hlong
    exact ((getNumber_draws 64 8).bind fun v => decimal v.toNat).congr
      fun bs hbs => hnat bs hbs (by decide)
  by_cases hfloat : type = protoFloat
  · subst hfloat
    exact (getNumber_draws 32 4).bind FloatOps.floatText
  by_cases hdouble : type = protoDouble
  · subst hdouble
    exact (getNumber_draws 64 8).bind FloatOps.doubleText
  simp only [hbyte, hshort, hint, hlong, hfloat, hdouble, if_false]
  refine (pure_draws []).congr fun bs _ => ?_
  simp [textOf, hbyte, hshort, hint, hlong, hfloat, hdouble]

/-- `read( std::string & )`. -/
theorem readString_follows : Follows readString stringAt := by
  intro s
  obtain ⟨n, s₁, hhead, hleft, hshift⟩ := readHead_run s
  unfold readString stringAt stringFrom
  rw [bind_of_ok hhead]
  generalize headAt (left s) = h at hleft ⊢
  obtain ⟨type, tag, rest, whole⟩ := h
  apply Describes.trans hshift
  simp only at hleft ⊢
  by_cases hzero : type = protoZeroTag
  · subst hzero
    exact fieldAt_describes (h := ⟨_, tag, rest, whole⟩) (pure_draws ([] : List UInt8)) id
      (fun _ _ => rfl) hleft
  rw [if_neg hzero, if_neg hzero]
  by_cases hstring1 : type = protoString1
  · rw [if_pos hstring1, if_pos hstring1]
    let s₂ : IStream := { s₁ with junk := fun i => s₁.junk (i + 1) }
    have hdecl : declare s₁ = .ok (s₁.junk 0) s₂ := rfl
    have hshift₂ : Shifted s₁ s₂ := ⟨1, fun _ => rfl⟩
    rw [bind_of_ok hdecl]
    cases rest with
    | nil =>
      obtain ⟨s₃, hget, hleft₃, hshift₃⟩ := getInto_nil (s₁.junk 0) (s := s₂) hleft
      rw [bind_of_ok hget]
      have hlen := toInt_lengthByte (s₁.junk 0)
      refine ⟨0, ?_⟩
      by_cases hlt : s₁.junk 0 < 128
      · have hlt' : (s₁.junk 0).toNat < 128 := hlt
        rw [if_pos hlt]
        rw [if_pos hlt'] at hlen
        have h := readContent_describes false tag ((s₁.junk 0).toBitVec.signExtend 32) s₃
        unfold contentAt at h
        rw [if_neg (by rw [hlen]; show ¬((s₁.junk 0).toNat : Int) > 104857600; omega),
          if_neg (by omega), if_neg (by simp), hleft₃, List.drop_nil] at h
        exact h.trans (hshift₂.trans hshift₃)
      · have hlt' : ¬(s₁.junk 0).toNat < 128 := hlt
        rw [if_neg hlt]
        rw [if_neg hlt'] at hlen
        have hjunk := (s₁.junk 0).toNat_lt
        exact ⟨s₃, readContent_negative (by omega) tag s₃⟩
    | cons b r =>
      obtain ⟨s₃, hget, hleft₃, hshift₃⟩ := getInto_cons (s₁.junk 0) (s := s₂) hleft
      rw [bind_of_ok hget, ← hleft₃]
      exact (readContent_describes true tag _ s₃).trans (hshift₂.trans hshift₃)
  rw [if_neg hstring1, if_neg hstring1]
  by_cases hstring4 : type = protoString4
  · rw [if_pos hstring4, if_pos hstring4]
    obtain ⟨s₂, hrun, hleft₂, hshift₂⟩ := getEach_run 4 s₁
    rw [hleft] at hrun hleft₂
    rw [bind_of_ok hrun, ← hleft₂]
    exact (readContent_describes _ tag _ s₂).trans hshift₂
  rw [if_neg hstring4, if_neg hstring4]
  exact fieldAt_describes (h := ⟨type, tag, rest, whole⟩) (readText_draws type) id
    (fun _ _ => rfl) hleft

/-- `read( std::string & )` with nothing left. -/
theorem stringAt_nil : stringAt [] = .short [] := rfl

/-- A string that is not whole has run off the end. -/
theorem stringAt_settled (l : List UInt8) : (stringAt l).Settled := by
  have hrest := @headAt_rest l
  unfold stringAt stringFrom
  generalize headAt l = h at hrest ⊢
  split
  · exact fieldAt_settled hrest 0 _
  · split
    · split
      · exact rfl
      · exact contentAt_settled (fun h => absurd h (by decide)) _ _
    · split
      · refine contentAt_settled (fun hpresent => ?_) _ _
        cases hwhole : h.whole with
        | false => rw [hrest hwhole, List.drop_nil]
        | true =>
          rw [decide_eq_false_iff_not] at hpresent
          exact List.drop_eq_nil_of_le (Nat.le_of_not_le fun h' => hpresent ⟨hwhole, h'⟩)
      · exact fieldAt_settled hrest _ _

/-- One round of the loop of `read( Map & )`. -/
theorem readEntry_follows : Follows (readEntry readString readString) entryAt := by
  intro s
  unfold readEntry entryAt
  have hvalue : ∀ (k : List UInt8) t, Describes t
      ((readString >>= fun p => pure (if p.2 = 1 then some (k, p.1) else none) :
        CppIn (Option (List UInt8 × List UInt8))) t)
      ((stringAt (left t)).bind fun value r =>
        if value.2 = 1 then .whole (some (k, value.1)) r else .short r) := by
    intro k t
    refine (readString_follows t).bind (stringAt_settled _) ?_ ?_
    · intro p t'
      split
      · exact ⟨t', rfl, rfl, Shifted.refl t'⟩
      · exact ⟨_, t', rfl, rfl, Shifted.refl t'⟩
    · intro p t' hleft
      exact ⟨_, t', rfl, hleft, Shifted.refl t'⟩
  refine (readString_follows s).bind (stringAt_settled _) ?_ ?_
  · rintro ⟨k, ktag⟩ t
    by_cases htag : ktag = 0
    · simp only [htag, if_true]
      exact hvalue k t
    · simp only [htag, if_false]
      exact ⟨_, t, rfl, rfl, Shifted.refl t⟩
  · rintro ⟨k, ktag⟩ t hleft
    by_cases htag : ktag = 0
    · have h := hvalue k t
      rw [hleft, stringAt_nil] at h
      simp only [htag, if_true]
      exact h
    · simp only [htag, if_false]
      exact ⟨_, t, rfl, hleft, Shifted.refl t⟩

/-- The loop of `read( Map & )`. -/
theorem readEntries_follows (n : Nat) :
    Follows (repeatM (readEntry readString readString) n) (entriesAt n) := by
  induction n with
  | zero => exact fun s => ⟨s, rfl, rfl, Shifted.refl s⟩
  | succ n ih => exact readEntry_follows.and ih List.cons

/-- With nothing left, the loop still ends, with nothing left. -/
theorem readEntries_nil (n : Nat) {s : IStream} (h : left s = []) :
    Describes s (repeatM (readEntry readString readString) n s) (.short []) := by
  induction n generalizing s with
  | zero => exact ⟨[], s, rfl, h, Shifted.refl s⟩
  | succ n ih =>
    have hentry := readEntry_follows s
    rw [h, show entryAt [] = .short [] from rfl] at hentry
    obtain ⟨a, s₁, hrun₁, hleft₁, hshift₁⟩ := hentry
    obtain ⟨as, s₂, hrun₂, hleft₂, hshift₂⟩ := ih hleft₁
    refine ⟨a :: as, s₂, ?_, hleft₂, hshift₁.trans hshift₂⟩
    unfold ByteIO.repeatM
    rw [bind_of_ok hrun₁, bind_of_ok hrun₂]
    rfl

/-- `read( Map & )` for the attributes. -/
theorem readMap_follows : Follows (readMap readString readString) mapAt := by
  intro s
  obtain ⟨n, s₁, hhead, hleft, hshift⟩ := readHead_run s
  unfold readMap mapAt
  rw [bind_of_ok hhead]
  generalize headAt (left s) = h at hleft ⊢
  obtain ⟨type, tag, rest, whole⟩ := h
  apply Describes.trans hshift
  simp only at hleft ⊢
  by_cases htype : type = protoMap
  · subst htype
    rw [← hleft]
    refine (readInt_follows s₁).bind (intAt_settled _) ?_ ?_
    · rintro ⟨len, ltag⟩ t
      by_cases hneg : len.toInt < 0
      · have hzero : len.toInt.toNat = 0 := Int.toNat_of_nonpos (by omega)
        simp only [hneg, if_true, hzero]
        exact ⟨_, t, rfl, rfl, Shifted.refl t⟩
      · simp only [hneg, if_false]
        exact (readEntries_follows len.toInt.toNat t).map fun es => (putEntries es, tag)
    · rintro ⟨len, ltag⟩ t hnil
      exact (readEntries_nil len.toInt.toNat hnil).map fun es => (putEntries es, tag)
  · rw [if_pos htype, if_neg htype]
    obtain ⟨p, htell⟩ : ∃ p, tell s₁ = .ok p s₁ := ⟨_, rfl⟩
    obtain ⟨text, s', herr⟩ :=
      @error_run PUnit s!"Proto: unknown type when read map, got type {type}" p s₁
    exact ⟨text, s', by rw [bind_of_ok htell, bind_of_error herr]⟩

/-- `bufFromMsg` reads what `messageAt` says. -/
theorem readHeader_follows : Follows readHeader messageAt := by
  have h := readInt_follows.and
    (readString_follows.and (readInt_follows.and readMap_follows Prod.mk) Prod.mk)
    fun UID p => (⟨UID.1, p.1.1, p.2.1.1, p.2.2.1⟩ : Header)
  simp only [bind_assoc, pure_bind] at h
  exact h

end

end OCServer.GameProto
