import OCServer.Lib.Progress
import OCServer.Proto.CppTotal

/-!
# `ProtoDisplay`

`displayProto` hands `ProtoDisplay` a string stream over bytes from Java.
`do_display` shows one field after the other while the stream is good, and a
struct by another displayer on the same stream.  The text itself is left
out: nothing depends on it.

No arm of `display_Proto` takes a header of type 14 or 15, so that the
stream stays in front of it: `do_display_ends_iff` says that a displayer
ends if and only if neither it nor one of its nested displayers comes to
such a header.
-/

namespace OCServer.Cpp

open BigEndian ByteIO ByteSource Progress

/-! ## The displayer -/

/-- `peakHead`. -/
def peakHead : CppIn ProtoHead := do
  let head ← readHead
  seek ((← tell) - head.len)
  pure head

section

variable [FloatOps]

/-- The arms of `display_Proto` that read one field. -/
def displayField (type : UInt8) : CppIn Unit := do
  if type = protoZeroTag ∨ type = protoByte then
    let _ ← readChar
  else if type = protoShort then
    let _ ← readShort
  else if type = protoInt then
    let _ ← readInt
  else if type = protoLong then
    let _ ← readLong
  else if type = protoFloat then
    let _ ← readFloat
  else if type = protoDouble then
    let _ ← readDouble
  else if type = protoString1 ∨ type = protoString4 then
    let _ ← readString
  else if type = protoList then
    let _ ← readVector (Prod.fst <$> readString)
  else if type = protoMap then
    let _ ← readMap readString readString
  else if type = protoSimpleList then
    let _ ← readChars
  -- no other type has an arm
  else pure ()

mutual

/-- `do_display`. -/
def do_display : Nat → CppIn Unit
  | 0 => throw .outOfFuel
  | fuel + 1 => do
    if ← good then
      if ← display_Proto fuel then do_display fuel

/-- `display_Proto`. -/
def display_Proto : Nat → CppIn Bool
  | 0 => throw .outOfFuel
  | fuel + 1 => do
    let head ← peakHead
    if !(← good) then pure false
    else if head.type = protoStructBegin then
      let _ ← readHead
      do_display fuel
      pure true
    else if head.type = protoStructEnd then
      -- the first header ends the loop of `skipToStructEnd`
      skipToStructEnd 2
      pure false
    else
      displayField head.type
      pure true

end

end

/-- The stream of `displayProto`. -/
def stringStream (data : List UInt8) (junk : Nat → UInt8) : IStream :=
  ⟨data, 0, false, true, junk⟩

/-! ## Moving on -/

/-- On the same data, and not before the old position. -/
structure Onward (s s' : IStream) : Prop where
  data : s'.data = s.data
  seekable : s'.seekable = s.seekable
  pos : s.pos ≤ s.data.length → s.pos ≤ s'.pos ∧ s'.pos ≤ s.data.length

instance : Std.Refl Onward where
  refl _ := ⟨rfl, rfl, fun hle => ⟨Nat.le_refl _, hle⟩⟩

instance : IsTrans IStream Onward where
  trans s t u h h' := by
    refine ⟨h'.data.trans h.data, h'.seekable.trans h.seekable, fun hle => ?_⟩
    have hst := h.pos hle
    have htu := h'.pos (by rw [h.data]; exact hst.2)
    rw [h.data] at htu
    omega

/-- What says that the fuel is used up. -/
def Cut : CppExc → Prop
  | .outOfFuel => True
  | _ => False

/-- A program that never moves back and never runs out of fuel. -/
abbrev Proceeds {α : Type} (m : CppIn α) : Prop := Moves Onward Cut m

/-- A program that gives a value, and its state. -/
theorem proceeds_of_ok {α : Type} {m : CppIn α} {a : IStream → α} {f : IStream → IStream}
    (hm : ∀ s, m s = .ok (a s) (f s)) (h : ∀ s, Onward s (f s)) : Proceeds m where
  ok hrun := by
    rw [hm] at hrun
    cases hrun
    exact h _
  error hrun := by
    rw [hm] at hrun
    cases hrun

theorem declare_proceeds : Proceeds declare :=
  proceeds_of_ok (fun _ => rfl) fun _ => ⟨rfl, rfl, fun hle => ⟨Nat.le_refl _, hle⟩⟩

theorem tell_proceeds : Proceeds tell := proceeds_of_ok (fun _ => rfl) fun _ => Std.Refl.refl _

theorem getInto_proceeds (target : UInt8) : Proceeds (getInto target) where
  ok h := by
    unfold getInto at h
    split at h
    · cases h
      exact Std.Refl.refl _
    · split at h
      · next b hget =>
        cases h
        exact ⟨rfl, rfl, fun _ => ⟨Nat.le_succ _, (List.getElem?_eq_some_iff.mp hget).1⟩⟩
      · cases h
        exact ⟨rfl, rfl, fun hle => ⟨Nat.le_refl _, hle⟩⟩
  error h := by
    unfold getInto at h
    repeat' split at h
    all_goals cases h

theorem readInto_proceeds (n : Nat) : Proceeds (readInto n) where
  ok {s a s'} h := by
    unfold readInto at h
    dsimp only at h
    split at h
    · cases h
      exact Std.Refl.refl _
    · split at h
      · next hlen =>
        cases h
        rw [List.length_take, List.length_drop] at hlen
        refine ⟨rfl, rfl, fun hle => ⟨Nat.le_add_right _ _, ?_⟩⟩
        show s.pos + n ≤ s.data.length
        omega
      · cases h
        exact ⟨rfl, rfl, fun hle => ⟨hle, Nat.le_refl _⟩⟩
  error h := by
    unfold readInto at h
    dsimp only at h
    repeat' split at h
    all_goals cases h

theorem error_proceeds {α : Type} (message : String) (offset : Int) :
    Proceeds (error message offset : CppIn α) where
  ok {s _ _} h := by
    rcases error_run (α := α) message offset s with ⟨text, s₁, herr⟩
    rw [h] at herr
    cases herr
  error {s e s'} h := by
    rcases error_run (α := α) message offset s with ⟨text, s₁, herr⟩
    rw [h] at herr
    cases herr
    exact id

theorem getLoop_proceeds (n : Nat) (a : UInt8) : Proceeds (getLoop n a) := by
  induction n generalizing a with
  | zero => exact Moves.pure _
  | succ n ih => exact (getInto_proceeds a).bind fun b => (ih b).bind fun _ => Moves.pure _

theorem getEach_proceeds (n : Nat) : Proceeds (getEach n) := by
  induction n with
  | zero => exact Moves.pure _
  | succ n ih => exact (getInto_proceeds 0).bind fun _ => ih.bind fun _ => Moves.pure _

theorem getChar_proceeds : Proceeds getChar := declare_proceeds.bind fun a => getInto_proceeds a

theorem getShort_proceeds : Proceeds getShort :=
  declare_proceeds.bind fun a => declare_proceeds.bind fun b =>
    (getInto_proceeds a).bind fun _ => (getInto_proceeds b).bind fun _ => Moves.pure _

theorem getNumber_proceeds (k w : Nat) : Proceeds (getNumber k w) :=
  declare_proceeds.bind fun a => (getLoop_proceeds w a).bind fun _ => Moves.pure _

theorem readHead_proceeds : Proceeds readHead :=
  (getInto_proceeds 0).bind fun b => .ite (fun _ => (getInto_proceeds b).bind fun _ => Moves.pure _)
    fun _ => Moves.pure _

/-! ## Readers -/

/-- A program that proceeds, and takes a byte at least when there is one. -/
structure Consumes {α : Type} (m : CppIn α) : Prop extends Moves Onward Cut m where
  strict : ∀ {s a s'}, s.fail = false → s.pos < s.data.length → m s = .ok a s' → s.pos < s'.pos

theorem Consumes.bind {α β : Type} {m : CppIn α} {f : α → CppIn β} (hm : Consumes m)
    (hf : ∀ a, Proceeds (f a)) : Consumes (m >>= f) where
  toMoves := hm.toMoves.bind hf
  strict {s b s'} hfail hlt hrun := by
    rcases bind_eq_ok hrun with ⟨a, s₁, ha, hb⟩
    have hpos := hm.strict hfail hlt ha
    have honward := hm.ok ha
    have hinside := (honward.pos (Nat.le_of_lt hlt)).2
    have hle := ((hf a).ok hb).pos (by rw [honward.data]; exact hinside)
    omega

theorem Consumes.ite {c : Prop} [Decidable c] {α : Type} {m m' : CppIn α} (h : c → Consumes m)
    (h' : ¬c → Consumes m') : Consumes (if c then m else m') := by
  split
  · next hc => exact h hc
  · next hc => exact h' hc

theorem readHead_consumes : Consumes readHead where
  toMoves := readHead_proceeds
  strict {s head s'} hfail hlt hrun := by
    rcases bind_eq_ok hrun with ⟨b, s₁, hget, hrest⟩
    have hs₁ : s₁.pos = s.pos + 1 ∧ s₁.data = s.data := by
      unfold getInto at hget
      rw [hfail, List.getElem?_eq_getElem hlt] at hget
      cases hget
      exact ⟨rfl, rfl⟩
    have hmoves : Proceeds (if (b &&& 0xF0) >>> 4 = 15 then do
        let t ← getInto b
        pure (⟨b &&& 0xF, t, 2⟩ : ProtoHead)
      else pure ⟨b &&& 0xF, (b &&& 0xF0) >>> 4, 1⟩ : CppIn ProtoHead) :=
      .ite (fun _ => (getInto_proceeds b).bind fun _ => Moves.pure _) fun _ => Moves.pure _
    have hle := (hmoves.ok hrest).pos (by rw [hs₁.1, hs₁.2]; omega)
    omega

theorem readInteger_consumes (k : Nat) (name : String) (widest : UInt8) (stop : String) :
    Consumes (readInteger k name widest stop) := by
  unfold readInteger
  refine readHead_consumes.bind fun head => ?_
  refine .ite (fun _ => Moves.pure _) fun _ => ?_
  refine .ite (fun _ => getChar_proceeds.bind fun _ => Moves.pure _) fun _ => ?_
  refine .ite (fun _ => getShort_proceeds.bind fun _ => Moves.pure _) fun _ => ?_
  refine .ite (fun _ => (getNumber_proceeds 32 4).bind fun _ => Moves.pure _) fun _ => ?_
  refine .ite (fun _ => (getNumber_proceeds 64 8).bind fun _ => Moves.pure _) fun _ => ?_
  exact tell_proceeds.bind fun _ => error_proceeds _ _

theorem readFloat_consumes : Consumes readFloat := by
  unfold readFloat
  refine readHead_consumes.bind fun head => ?_
  refine .ite (fun _ => Moves.pure _) fun _ => ?_
  refine .ite (fun _ => (getNumber_proceeds 32 4).bind fun _ => Moves.pure _) fun _ => ?_
  exact tell_proceeds.bind fun _ => error_proceeds _ _

theorem getString_proceeds (length : BitVec 32) : Proceeds (getString length) := by
  unfold getString
  exact .ite (fun _ => Moves.bind (.throw id) fun _ => readInto_proceeds _)
    fun _ => readInto_proceeds _

theorem readContent_proceeds (len : BitVec 32) (tag : UInt8) :
    Proceeds (readContent len tag) := by
  unfold readContent
  have hstring : Proceeds (do let s ← getString len; pure (s, tag)) :=
    (getString_proceeds len).bind fun _ => Moves.pure _
  exact .ite (fun _ => tell_proceeds.bind fun _ => (error_proceeds _ _).bind fun _ => hstring)
    fun _ => hstring

theorem readChars_consumes : Consumes readChars := by
  unfold readChars
  have hrest : ∀ head : ProtoHead, Proceeds (do
      let len ← readInt
      let a ← declare
      let bl ← getLoop len.1.toInt.toNat a
      pure (bl, head.tag)) := fun head =>
    (readInteger_consumes 32 "int" protoInt " .").toMoves.bind fun _ =>
      declare_proceeds.bind fun a => (getLoop_proceeds _ a).bind fun _ => Moves.pure _
  refine readHead_consumes.bind fun head => ?_
  refine .ite (fun _ => readHead_proceeds.bind fun ihead => ?_) fun _ => hrest head
  exact .ite (fun _ => Moves.bind (.throw id) fun _ => hrest head) fun _ => hrest head

theorem readVector_consumes {α : Type} {element : CppIn α} (h : Proceeds element) :
    Consumes (readVector element) := by
  have hread := (readInteger_consumes 32 "int" protoInt " .").toMoves
  have hrest : Proceeds (do
      let len ← readInt
      if len.1.toInt < 0 then
        error s!"Proto: size invalid when read array, got size {len.1.toInt}" (← tell)
      repeatM element len.1.toInt.toNat) := by
    refine hread.bind fun p => ?_
    exact .ite (fun _ => tell_proceeds.bind fun _ =>
      (error_proceeds _ _).bind fun _ => Moves.repeatM h _) fun _ => Moves.repeatM h _
  unfold readVector
  refine readHead_consumes.bind fun head => ?_
  exact .ite (fun _ => tell_proceeds.bind fun _ => (error_proceeds _ _).bind fun _ => hrest)
    fun _ => hrest

theorem readMap_consumes {κ ν : Type} [DecidableEq κ] {key : CppIn (κ × UInt8)}
    {value : CppIn (ν × UInt8)} (hkey : Proceeds key) (hvalue : Proceeds value) :
    Consumes (readMap key value) := by
  have hread := (readInteger_consumes 32 "int" protoInt " .").toMoves
  have hentry : Proceeds (readEntry key value) := by
    unfold readEntry
    refine hkey.bind fun k => ?_
    exact .ite (fun _ => hvalue.bind fun _ => Moves.pure _) fun _ => Moves.pure _
  have hrest : ∀ head : ProtoHead, Proceeds (do
      let len ← readInt
      let entries ← repeatM (readEntry key value) len.1.toInt.toNat
      pure (putEntries entries, head.tag)) := fun head =>
    hread.bind fun _ => (Moves.repeatM hentry _).bind fun _ => Moves.pure _
  unfold readMap
  refine readHead_consumes.bind fun head => ?_
  exact .ite (fun _ => tell_proceeds.bind fun _ => (error_proceeds _ _).bind fun _ => hrest head)
    fun _ => hrest head

section

variable [FloatOps]

theorem readDouble_consumes : Consumes readDouble := by
  unfold readDouble
  refine readHead_consumes.bind fun head => ?_
  refine .ite (fun _ => Moves.pure _) fun _ => ?_
  refine .ite (fun _ => (getNumber_proceeds 32 4).bind fun _ => Moves.pure _) fun _ => ?_
  refine .ite (fun _ => (getNumber_proceeds 64 8).bind fun _ => Moves.pure _) fun _ => ?_
  exact tell_proceeds.bind fun _ => error_proceeds _ _

theorem readText_proceeds (type : UInt8) : Proceeds (readText type) := by
  unfold readText
  refine .ite (fun _ => getChar_proceeds.bind fun _ => Moves.pure _) fun _ => ?_
  refine .ite (fun _ => getShort_proceeds.bind fun _ => Moves.pure _) fun _ => ?_
  refine .ite (fun _ => (getNumber_proceeds 32 4).bind fun _ => Moves.pure _) fun _ => ?_
  refine .ite (fun _ => (getNumber_proceeds 64 8).bind fun _ => Moves.pure _) fun _ => ?_
  refine .ite (fun _ => (getNumber_proceeds 32 4).bind fun _ => Moves.pure _) fun _ => ?_
  exact .ite (fun _ => (getNumber_proceeds 64 8).bind fun _ => Moves.pure _) fun _ => Moves.pure _

theorem readString_consumes : Consumes readString := by
  unfold readString
  refine readHead_consumes.bind fun head => ?_
  refine .ite (fun _ => Moves.pure _) fun _ => ?_
  refine .ite (fun _ => ?_) fun _ => ?_
  · exact declare_proceeds.bind fun a => (getInto_proceeds a).bind fun _ =>
      readContent_proceeds _ _
  refine .ite (fun _ => (getEach_proceeds 4).bind fun _ => readContent_proceeds _ _) fun _ => ?_
  exact (readText_proceeds _).bind fun _ => Moves.pure _

/-- Every arm takes its field, or a byte of it at least. -/
theorem displayField_consumes {type : UInt8} (hle : type ≤ protoSimpleList)
    (hbegin : type ≠ protoStructBegin) (hend : type ≠ protoStructEnd) :
    Consumes (displayField type) := by
  have hdiscard : ∀ {α : Type} {m : CppIn α}, Consumes m →
      Consumes (m >>= fun _ => pure ()) := fun h => h.bind fun _ => Moves.pure _
  have hstring := readString_consumes.toMoves
  have helement : Proceeds (Prod.fst <$> readString) := by
    rw [map_eq_pure_bind]
    exact hstring.bind fun _ => Moves.pure _
  unfold displayField
  refine .ite (fun _ => hdiscard (readInteger_consumes 8 "char" protoByte " .")) fun hbyte => ?_
  refine .ite (fun _ => hdiscard (readInteger_consumes 16 "short" protoShort " ."))
    fun hshort => ?_
  refine .ite (fun _ => hdiscard (readInteger_consumes 32 "int" protoInt " .")) fun hint => ?_
  refine .ite (fun _ => hdiscard (readInteger_consumes 64 "long" protoLong ".")) fun hlong => ?_
  refine .ite (fun _ => hdiscard readFloat_consumes) fun hfloat => ?_
  refine .ite (fun _ => hdiscard readDouble_consumes) fun hdouble => ?_
  refine .ite (fun _ => hdiscard readString_consumes) fun hstr => ?_
  refine .ite (fun _ => hdiscard (readVector_consumes helement)) fun hlist => ?_
  refine .ite (fun _ => hdiscard (readMap_consumes hstring hstring)) fun hmap => ?_
  refine .ite (fun _ => hdiscard readChars_consumes) fun hchars => ?_
  -- the types that have no arm are 14 and 15
  exfalso
  have hle : type.toNat ≤ 13 := hle
  simp only [protoByte, protoShort, protoInt, protoLong, protoFloat, protoDouble, protoString1,
    protoString4, protoMap, protoList, protoStructBegin, protoStructEnd, protoZeroTag,
    protoSimpleList, ← UInt8.toNat_inj, UInt8.reduceToNat, not_or, ne_eq] at *
  omega

/-- No arm takes another type. -/
theorem displayField_unknown {type : UInt8} (h : protoSimpleList < type) :
    displayField type = pure () := by
  have hne : ∀ code : UInt8, code ≤ protoSimpleList → type ≠ code := by
    intro code hcode heq
    rw [heq] at h
    exact absurd h (UInt8.not_lt.mpr hcode)
  have hdecide : ∀ code : UInt8, code ≤ protoSimpleList → (type = code) = False :=
    fun code hcode => eq_false (hne code hcode)
  unfold displayField
  simp only [hdecide protoByte (by decide), hdecide protoShort (by decide),
    hdecide protoInt (by decide), hdecide protoLong (by decide), hdecide protoFloat (by decide),
    hdecide protoDouble (by decide), hdecide protoString1 (by decide),
    hdecide protoString4 (by decide), hdecide protoMap (by decide), hdecide protoList (by decide),
    hdecide protoZeroTag (by decide), hdecide protoSimpleList (by decide), or_self, if_false]

end

/-! ## Looking at a header -/

section

variable {s : IStream}

/-- In front of data that the stream can tell its position in. -/
structure Ready (s : IStream) : Prop where
  tellable : Tellable s
  good : s.fail = false
  inside : s.pos ≤ s.data.length

/-- The bytes in front of the stream. -/
def ahead (s : IStream) : List UInt8 := s.data.drop s.pos

theorem Ready.at (h : Ready s) : At s (ahead s) := ⟨h.good, h.inside, rfl⟩

theorem Ready.onward {s' : IStream} (h : Ready s) (honward : Onward s s')
    (hgood : s'.fail = false) : Ready s' where
  tellable := Tellable.of_same ⟨honward.data, honward.seekable⟩ h.tellable
  good := hgood
  inside := by
    rw [honward.data]
    exact (honward.pos h.inside).2

/-- The stream stands in front of a header of type 14 or 15. -/
def Stuck (s : IStream) : Prop := ∃ h, headAt (ahead s) = some h ∧ protoSimpleList < h.1.type

theorem getInto_eq {b : UInt8} {r : List UInt8} (target : UInt8) (hs : At s (b :: r)) :
    getInto target s = .ok b { s with pos := s.pos + 1 } ∧ At { s with pos := s.pos + 1 } r := by
  rcases getInto_reads target b s r hs with ⟨s', hget, hs', -⟩
  have hrun : getInto target s = .ok b { s with pos := s.pos + 1 } := by
    have hlookup : s.data[s.pos]? = some b := by
      rw [← List.head?_drop, hs.2.2]
      rfl
    unfold getInto
    rw [hs.1, hlookup]
    rfl
  rw [hrun] at hget
  cases hget
  exact ⟨hrun, hs'⟩

theorem readHead_eq {l : List UInt8} {h : ProtoHead × List UInt8} (hs : At s l)
    (hl : headAt l = some h) :
    readHead s = .ok h.1 { s with pos := s.pos + h.1.len } ∧
      At { s with pos := s.pos + h.1.len } h.2 := by
  unfold readHead
  rcases headAt_cases hl with ⟨b, rfl, htag, hhead⟩ | ⟨b, t, rfl, htag, hhead⟩
  · rcases getInto_eq 0 hs with ⟨hget, hs₁⟩
    rw [bind_of_ok hget, if_neg htag, hhead]
    exact ⟨rfl, hs₁⟩
  · rcases getInto_eq 0 hs with ⟨hget, hs₁⟩
    rcases getInto_eq b hs₁ with ⟨hget₂, hs₂⟩
    rw [bind_of_ok hget, if_pos htag, bind_of_ok hget₂, hhead]
    exact ⟨rfl, hs₂⟩

/-- Looking at a header leaves the stream as it is. -/
theorem peakHead_eq {h : ProtoHead × List UInt8} (hready : Ready s)
    (hl : headAt (ahead s) = some h) : peakHead s = .ok h.1 s := by
  rcases readHead_eq hready.at hl with ⟨hread, hs'⟩
  have hseek : seek (((s.pos + h.1.len : Nat) : Int) - h.1.len)
      { s with pos := s.pos + h.1.len } = .ok () s := by
    have hpos : ((s.pos + h.1.len : Nat) : Int) - h.1.len = s.pos := by omega
    have hgood := hready.good
    unfold seek
    rw [hpos, if_pos ⟨hready.tellable.1, by omega, hready.inside⟩, Int.toNat_natCast]
    rcases s with ⟨data, pos, fail, seekable, junk⟩
    simp only at hgood
    rw [hgood]
  have htell := tell_eq (s := { s with pos := s.pos + h.1.len }) hready.tellable hs'
  exact (bind_of_ok hread).trans ((bind_of_ok htell).trans (bind_of_ok hseek))

/-- Looking for a header that is not there fails. -/
theorem peakHead_none (hready : Ready s) (hl : headAt (ahead s) = none) :
    ∃ head s', peakHead s = .ok head s' ∧ s'.fail = true ∧ Onward s s' := by
  have hread : ∃ head s₁, readHead s = .ok head s₁ ∧ s₁.fail = true := by
    have hs := hready.at
    cases hahead : ahead s with
    | nil =>
      rw [hahead] at hs
      exact ⟨_, _, readHead_nil hs, rfl⟩
    | cons b r =>
      rw [hahead] at hs hl
      rcases getInto_eq 0 hs with ⟨hget, hs₁⟩
      by_cases htag : (b &&& 0xF0) >>> 4 = 15
      · cases r with
        | cons t r => simp [headAt, htag] at hl
        | nil =>
          have hget₂ := getInto_nil b hs₁
          unfold readHead
          rw [bind_of_ok hget, if_pos htag, bind_of_ok hget₂]
          exact ⟨_, _, rfl, rfl⟩
      · simp [headAt, htag] at hl
  rcases hread with ⟨head, s₁, hread, hfail⟩
  have htell : tell s₁ = .ok (-1) s₁ := by
    unfold tell
    rw [hfail]
    rfl
  have hseek : seek (-1 - head.len) s₁ = .ok () { s₁ with fail := true } := by
    unfold seek
    rw [if_neg]
    omega
  refine ⟨head, { s₁ with fail := true }, ?_, rfl, ?_⟩
  · exact (bind_of_ok hread).trans ((bind_of_ok htell).trans (bind_of_ok hseek))
  · have honward := readHead_proceeds.ok hread
    exact ⟨honward.data, honward.seekable, honward.pos⟩

theorem skipToStructEnd_eq {h : ProtoHead × List UInt8} (hready : Ready s)
    (hl : headAt (ahead s) = some h) (htype : h.1.type = protoStructEnd) :
    skipToStructEnd 2 s = .ok () { s with pos := s.pos + h.1.len } := by
  rcases readHead_eq hready.at hl with ⟨hread, -⟩
  unfold skipToStructEnd
  rw [bind_of_ok hread, htype]
  rfl

theorem settled_of_proceeds {α : Type} {m : CppIn α} (h : Proceeds m) (s : IStream) :
    Settled (m s) := by
  intro s' hrun
  exact h.error hrun trivial

theorem Settled.bind {α β : Type} {m : CppIn α} {f : α → CppIn β} {s : IStream}
    (hm : Settled (m s)) (hf : ∀ a s', m s = .ok a s' → Settled (f a s')) :
    Settled ((m >>= f) s) := by
  intro s' hrun
  cases h : m s with
  | ok a s₁ =>
    rw [bind_of_ok h] at hrun
    exact hf a s₁ h s' hrun
  | error e s₁ =>
    rw [bind_of_error h] at hrun
    cases hrun
    exact hm _ h

end

/-! ## One call of `display_Proto` -/

section

variable [FloatOps] {s s' : IStream} {fuel : Nat}

/-- The calls of `display_Proto` by the displayer that stands at `s` and by
its nested displayers, each with the stream in front of it. -/
inductive Comes : IStream → IStream → Prop
  | here (s : IStream) : Comes s s
  | next {s s' t : IStream} {fuel : Nat} (hrun : display_Proto fuel s = .ok true s')
    (hgood : s'.fail = false) (h : Comes s' t) : Comes s t
  | nested {s s' t : IStream} {head head' : ProtoHead} (hpeak : peakHead s = .ok head s)
    (htype : head.type = protoStructBegin) (hread : readHead s = .ok head' s')
    (hgood : s'.fail = false) (h : Comes s' t) : Comes s t

/-- At the end of the data, or in a header that is cut off. -/
theorem display_Proto_none (hready : Ready s) (hl : headAt (ahead s) = none) (fuel : Nat) :
    ∃ s', display_Proto (fuel + 1) s = .ok false s' ∧ Onward s s' := by
  rcases peakHead_none hready hl with ⟨head, s', hpeak, hfail, honward⟩
  have hgood : good s' = .ok false s' := by
    unfold good
    rw [hfail]
    rfl
  refine ⟨s', ?_, honward⟩
  unfold display_Proto
  rw [bind_of_ok hpeak]
  exact bind_of_ok hgood

/-- In front of a header. -/
theorem display_Proto_eq {h : ProtoHead × List UInt8} (hready : Ready s)
    (hl : headAt (ahead s) = some h) (fuel : Nat) : display_Proto (fuel + 1) s =
      (if h.1.type = protoStructBegin then
        readHead >>= fun _ => do_display fuel >>= fun _ => pure true
      else if h.1.type = protoStructEnd then skipToStructEnd 2 >>= fun _ => pure false
      else displayField h.1.type >>= fun _ => pure true : CppIn Bool) s := by
  conv_lhs => unfold display_Proto
  rw [bind_of_ok (peakHead_eq hready hl)]
  exact bind_of_ok (good_eq hready.at)

/-- A displayer that is in front of a stuck stream calls again and again. -/
theorem display_Proto_stuck (hready : Ready s) (hstuck : Stuck s) (fuel : Nat) :
    display_Proto (fuel + 1) s = .ok true s := by
  rcases hstuck with ⟨h, hl, htype⟩
  have hne : ∀ code : UInt8, code ≤ protoSimpleList → h.1.type ≠ code := by
    intro code hcode heq
    rw [heq] at htype
    exact absurd htype (UInt8.not_lt.mpr hcode)
  rw [display_Proto_eq hready hl, if_neg (hne _ (by decide)), if_neg (hne _ (by decide)),
    displayField_unknown htype]
  rfl

/-- The loop of `do_display` on a good stream. -/
theorem do_display_eq (hready : Ready s) (fuel : Nat) :
    do_display (fuel + 1) s =
      (display_Proto fuel >>= fun more => if more then do_display fuel else pure ()) s := by
  conv_lhs => unfold do_display
  rw [bind_of_ok (good_eq hready.at)]
  rfl

theorem do_display_failed (hfail : s.fail = true) (fuel : Nat) :
    do_display (fuel + 1) s = .ok () s := by
  unfold do_display
  rw [bind_of_ok (good_of_fail hfail)]
  rfl

/-! ## Nothing moves back -/

/-- Neither a displayer nor one of its calls moves back. -/
theorem display_onward (fuel : Nat) :
    (∀ s s', (s.fail = false → Ready s) → do_display fuel s = .ok () s' → Onward s s') ∧
      ∀ s a s', Ready s → display_Proto fuel s = .ok a s' → Onward s s' := by
  induction fuel with
  | zero => exact ⟨fun _ _ _ h => (nomatch h), fun _ _ _ _ h => (nomatch h)⟩
  | succ fuel ih =>
    rcases ih with ⟨hdisplay, hcall⟩
    constructor
    · intro s s' hready hrun
      cases hfail : s.fail with
      | true =>
        rw [do_display_failed hfail] at hrun
        cases hrun
        exact Std.Refl.refl _
      | false =>
        rw [do_display_eq (hready hfail)] at hrun
        rcases bind_eq_ok hrun with ⟨more, s₁, hone, hrest⟩
        have honward := hcall s more s₁ (hready hfail) hone
        cases more with
        | false =>
          cases hrest
          exact honward
        | true =>
          have hnext := hdisplay s₁ s' ((hready hfail).onward honward) hrest
          exact IsTrans.trans _ _ _ honward hnext
    · intro s a s' hready hrun
      cases hl : headAt (ahead s) with
      | none =>
        rcases display_Proto_none hready hl fuel with ⟨s₁, hone, honward⟩
        rw [hrun] at hone
        cases hone
        exact honward
      | some h =>
        rw [display_Proto_eq hready hl] at hrun
        split at hrun
        · rcases bind_eq_ok hrun with ⟨head, s₁, hread, hrest⟩
          rcases bind_eq_ok hrest with ⟨_, s₂, hnested, hpure⟩
          have honward := readHead_proceeds.ok hread
          have hnext := hdisplay s₁ s₂ (hready.onward honward) hnested
          cases hpure
          exact IsTrans.trans _ _ _ honward hnext
        split at hrun
        · next htype =>
          rcases bind_eq_ok hrun with ⟨_, s₁, hskip, hpure⟩
          rw [skipToStructEnd_eq hready hl htype] at hskip
          have hread := readHead_proceeds.ok (readHead_eq hready.at hl).1
          cases hskip
          cases hpure
          exact hread
        · next hbegin hend =>
          rcases bind_eq_ok hrun with ⟨_, s₁, hfield, hpure⟩
          cases hpure
          by_cases hle : h.1.type ≤ protoSimpleList
          · exact (displayField_consumes hle hbegin hend).ok hfield
          · rw [displayField_unknown (UInt8.not_le.mp hle)] at hfield
            cases hfield
            exact Std.Refl.refl _

/-- A call that answers `true` takes a byte at least, unless it is stuck. -/
theorem display_Proto_strict (hready : Ready s) (hstuck : ¬Stuck s)
    (hrun : display_Proto fuel s = .ok true s') : s.pos < s'.pos := by
  cases fuel with
  | zero => cases hrun
  | succ fuel =>
    cases hl : headAt (ahead s) with
    | none =>
      rcases display_Proto_none hready hl fuel with ⟨s₁, hone, -⟩
      rw [hrun] at hone
      cases hone
    | some h =>
      have hlen := headAt_length hl
      have hlt : s.pos < s.data.length := by
        have hahead : (ahead s).length = s.data.length - s.pos := List.length_drop
        omega
      rw [display_Proto_eq hready hl] at hrun
      split at hrun
      · rcases bind_eq_ok hrun with ⟨head, s₁, hread, hrest⟩
        rcases bind_eq_ok hrest with ⟨_, s₂, hnested, hpure⟩
        have hpos := readHead_consumes.strict hready.good hlt hread
        have honward := readHead_proceeds.ok hread
        have hnext := (display_onward fuel).1 s₁ s₂ (hready.onward honward) hnested
        have hle := (hnext.pos (by rw [honward.data]; exact (honward.pos hready.inside).2)).1
        cases hpure
        omega
      split at hrun
      · rcases bind_eq_ok hrun with ⟨_, s₁, -, hpure⟩
        cases hpure
      · next hbegin hend =>
        rcases bind_eq_ok hrun with ⟨_, s₁, hfield, hpure⟩
        cases hpure
        have hle : h.1.type ≤ protoSimpleList :=
          UInt8.not_lt.mp fun hlarge => hstuck ⟨h, hl, hlarge⟩
        exact (displayField_consumes hle hbegin hend).strict hready.good hlt hfield

/-- Every call stands in front of the data. -/
theorem Comes.ready {t : IStream} (hcomes : Comes s t) : Ready s → Ready t := by
  induction hcomes with
  | here s => exact id
  | next hrun hgood _ ih =>
    exact fun hready => ih (hready.onward ((display_onward _).2 _ _ _ hready hrun) hgood)
  | nested hpeak htype hread hgood _ ih =>
    exact fun hready => ih (hready.onward (readHead_proceeds.ok hread) hgood)

/-! ## Ending -/

/-- A displayer ends, with a value or with an exception. -/
def Ends (s : IStream) : Prop := ∃ N, ∀ fuel, N ≤ fuel → Settled (do_display fuel s)

/-- With fuel for every byte that is left, a displayer that comes to no stuck
stream ends. -/
theorem do_display_settled (n : Nat) : ∀ s, (s.fail = false → Ready s) →
    s.data.length - s.pos ≤ n → (s.fail = false → ∀ t, Comes s t → ¬Stuck t) →
    ∀ fuel, 2 * n + 3 ≤ fuel → Settled (do_display fuel s) := by
  induction n using Nat.strongRecOn with
  | ind n ih =>
    intro s hheld hleft hcomes fuel hfuel
    rcases Nat.exists_eq_add_of_le (show 2 ≤ fuel by omega) with ⟨k, rfl⟩
    rw [Nat.add_comm]
    cases hfail : s.fail with
    | true =>
      rw [do_display_failed hfail]
      exact settled_ok _ _
    | false =>
      have hready := hheld hfail
      have hstuck := hcomes hfail s (.here s)
      -- a displayer behind the position has less left
      have hbehind : ∀ s₁, Onward s s₁ → s.pos < s₁.pos →
          (s₁.fail = false → ∀ t, Comes s₁ t → ¬Stuck t) →
          ∀ fuel, 2 * n + 1 ≤ fuel → Settled (do_display fuel s₁) := by
        intro s₁ honward hpos hcomes₁ fuel hfuel
        have hinside := (honward.pos hready.inside).2
        exact ih (s₁.data.length - s₁.pos) (by rw [honward.data]; omega) s₁
          (hready.onward honward) (Nat.le_refl _) hcomes₁ fuel (by rw [honward.data]; omega)
      rw [do_display_eq hready]
      refine Settled.bind ?_ fun more s₁ hone => ?_
      · cases hl : headAt (ahead s) with
        | none =>
          rcases display_Proto_none hready hl k with ⟨s₁, hone, -⟩
          rw [hone]
          exact settled_ok _ _
        | some h =>
          have hlen := headAt_length hl
          have hahead : (ahead s).length = s.data.length - s.pos := List.length_drop
          rw [display_Proto_eq hready hl]
          split
          · next htype =>
            refine Settled.bind (settled_of_proceeds readHead_proceeds s) fun head s₁ hread => ?_
            refine Settled.bind ?_ fun _ _ _ => settled_ok _ _
            refine hbehind s₁ (readHead_proceeds.ok hread)
              (readHead_consumes.strict hfail (by omega) hread) ?_ k (by omega)
            intro hgood t ht
            exact hcomes hfail t (.nested (peakHead_eq hready hl) htype hread hgood ht)
          split
          · next htype =>
            refine Settled.bind ?_ fun _ _ _ => settled_ok _ _
            rw [skipToStructEnd_eq hready hl htype]
            exact settled_ok _ _
          · next hbegin hend =>
            have hle : h.1.type ≤ protoSimpleList :=
              UInt8.not_lt.mp fun hlarge => hstuck ⟨h, hl, hlarge⟩
            have hmoves := (displayField_consumes hle hbegin hend).toMoves
            exact Settled.bind (settled_of_proceeds hmoves s)
              fun _ _ _ => settled_ok _ _
      · cases more with
        | false => exact settled_ok _ _
        | true =>
          refine hbehind s₁ ((display_onward _).2 s true s₁ hready hone)
            (display_Proto_strict hready hstuck hone) ?_ (k + 1) (by omega)
          intro hgood t ht
          exact hcomes hfail t (.next hone hgood ht)

/-! ## Not ending -/

/-- More fuel changes nothing but a run that is cut off. -/
theorem display_extends (fuel : Nat) :
    Extends Cut (do_display fuel) (do_display (fuel + 1)) ∧
      Extends Cut (display_Proto fuel) (display_Proto (fuel + 1)) := by
  induction fuel with
  | zero => exact ⟨.of_cut trivial _, .of_cut trivial _⟩
  | succ fuel ih =>
    rcases ih with ⟨hdisplay, hcall⟩
    constructor
    · unfold do_display
      refine (Extends.refl _).bind fun ok => .ite ?_ (.refl _)
      refine hcall.bind fun more => .ite hdisplay (.refl _)
    · unfold display_Proto
      refine (Extends.refl _).bind fun head => (Extends.refl _).bind fun ok => ?_
      refine .ite (.refl _) (.ite ?_ (.refl _))
      exact (Extends.refl _).bind fun _ => hdisplay.bind fun _ => .refl _

/-- A displayer that comes to a stuck stream is cut off by any fuel. -/
theorem do_display_cut {t : IStream} (hcomes : Comes s t) (hready : Ready s) (hstuck : Stuck t) :
    ∀ fuel, ∃ s', do_display fuel s = .error .outOfFuel s' := by
  induction hcomes with
  | here s =>
    intro fuel
    induction fuel with
    | zero => exact ⟨s, rfl⟩
    | succ fuel ih =>
      rw [do_display_eq hready]
      cases fuel with
      | zero => exact ⟨s, rfl⟩
      | succ fuel =>
        rw [bind_of_ok (display_Proto_stuck hready hstuck fuel)]
        exact ih
  | @next s s₁ t k hrun hgood _ ih =>
    intro fuel
    cases fuel with
    | zero => exact ⟨s, rfl⟩
    | succ fuel =>
      rw [do_display_eq hready]
      rcases eq_or_cut (fun n => (display_extends n).2) hrun fuel with ⟨e, s', hone, hcut⟩ | hone
      · cases e with
        | outOfFuel => exact ⟨s', bind_of_error hone⟩
        | _ => exact hcut.elim
      · rw [bind_of_ok hone]
        exact ih (hready.onward ((display_onward k).2 s true s₁ hready hrun) hgood) hstuck fuel
  | @nested s s₁ t head head' hpeak htype hread hgood _ ih =>
    intro fuel
    cases fuel with
    | zero => exact ⟨s, rfl⟩
    | succ fuel =>
      rw [do_display_eq hready]
      cases fuel with
      | zero => exact ⟨s, rfl⟩
      | succ fuel =>
        rcases ih (hready.onward (readHead_proceeds.ok hread) hgood) hstuck fuel with ⟨s', hcut⟩
        refine ⟨s', bind_of_error ?_⟩
        cases hl : headAt (ahead s) with
        | none =>
          rcases peakHead_none hready hl with ⟨_, s₂, hpeak₂, hfail, -⟩
          rw [hpeak] at hpeak₂
          cases hpeak₂
          rw [hready.good] at hfail
          cases hfail
        | some h =>
          rw [peakHead_eq hready hl] at hpeak
          cases hpeak
          rw [display_Proto_eq hready hl, if_pos htype, bind_of_ok hread]
          exact bind_of_error hcut

/-- On the bytes of a Java array, a displayer ends and every call that
answers `true` moves forward, if and only if no call is made in front of a
header of type 14 or 15. -/
theorem do_display_ends_iff (data : List UInt8) (junk : Nat → UInt8)
    (hsize : data.length < 2 ^ 31) :
    (Ends (stringStream data junk) ∧
      ∀ t, Comes (stringStream data junk) t →
        ∀ fuel t', display_Proto fuel t = .ok true t' → t.pos < t'.pos) ↔
      ∀ t, Comes (stringStream data junk) t → ¬Stuck t := by
  have hready : Ready (stringStream data junk) := ⟨⟨rfl, hsize⟩, rfl, Nat.zero_le _⟩
  constructor
  · intro h t hcomes hstuck
    rcases h.1 with ⟨N, hN⟩
    rcases do_display_cut hcomes hready hstuck N with ⟨s', hcut⟩
    exact hN N (Nat.le_refl N) s' hcut
  · intro h
    refine ⟨⟨2 * data.length + 3, fun fuel hfuel => ?_⟩, fun t hcomes fuel t' hrun => ?_⟩
    · exact do_display_settled data.length _ (fun _ => hready) (Nat.le_refl _) (fun _ => h) fuel
        hfuel
    · exact display_Proto_strict (hcomes.ready hready) (h t hcomes) hrun

end

/-- A struct that holds a byte. -/
theorem do_display_ends_iff_struct :
    (@Ends ⟨fun v => v.setWidth 64, fun _ => [], fun _ => []⟩
        (stringStream [0x0A, 0x00, 5, 0x0B] fun _ => 0) ∧
      ∀ t, @Comes ⟨fun v => v.setWidth 64, fun _ => [], fun _ => []⟩
          (stringStream [0x0A, 0x00, 5, 0x0B] fun _ => 0) t →
        ∀ fuel t', @display_Proto ⟨fun v => v.setWidth 64, fun _ => [], fun _ => []⟩ fuel t =
          .ok true t' → t.pos < t'.pos) ↔
      ∀ t, @Comes ⟨fun v => v.setWidth 64, fun _ => [], fun _ => []⟩
        (stringStream [0x0A, 0x00, 5, 0x0B] fun _ => 0) t → ¬Stuck t :=
  @do_display_ends_iff ⟨fun v => v.setWidth 64, fun _ => [], fun _ => []⟩
    [0x0A, 0x00, 5, 0x0B] (fun _ => 0) (by decide)

/-- A single byte, which is a header of type 14. -/
theorem not_always_displayed : ¬∀ (_ : FloatOps) (data : List UInt8) (junk : Nat → UInt8),
    data.length < 2 ^ 31 →
    Ends (stringStream data junk) ∧ ∀ t, Comes (stringStream data junk) t →
      ∀ fuel t', display_Proto fuel t = .ok true t' → t.pos < t'.pos := by
  intro h
  let o : FloatOps := ⟨fun v => v.setWidth 64, fun _ => [], fun _ => []⟩
  rcases (h o [0x0E] (fun _ => 0) (by decide)).1 with ⟨N, hN⟩
  have hready : Ready (stringStream [0x0E] fun _ => 0) :=
    ⟨⟨rfl, by decide⟩, rfl, Nat.zero_le _⟩
  have hstuck : Stuck (stringStream [0x0E] fun _ => 0) := ⟨(⟨14, 0, 1⟩, []), rfl, by decide⟩
  rcases do_display_cut (.here _) hready hstuck N with ⟨s', hcut⟩
  exact hN N (Nat.le_refl N) s' hcut

end OCServer.Cpp
