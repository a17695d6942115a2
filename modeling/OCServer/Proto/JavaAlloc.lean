import OCServer.Proto.JavaTotal

/-!
# The arrays that `ProtoInputStream` allocates

A string, a `byte[]` and every other array starts with a count, and the
reader allocates an array of that length before it reads what is in it.
`beforeNew` is a reader up to that `new`: it answers the length of the array
or throws.  The readers differ in what they check there, and `sizeChecked_iff`
says which counts are refused in time.
-/

namespace OCServer.Java

open BigEndian ByteIO ByteSource

/-- The `case` in which a reader takes a count. -/
inductive CountCase
  | string1
  | string4
  | simpleList
  | byteList
  | list
  deriving DecidableEq, Repr

/-- The readers that take a count.  `array` are those of `boolean[]`,
`short[]`, `int[]`, `long[]`, `float[]` and `double[]`. -/
inductive SizedReader
  | readByteString
  | string
  | readString
  | byteArray
  | array (p : Prim)
  | readArrayImpl (t : Ty)

/-- `digits`. -/
def digits : List Char :=
  ['0', '1', '2', '3', '4', '5', '6', '7', '8', '9', 'A', 'B', 'C', 'D', 'E', 'F']

/-- `bytes2HexStr`, which answers `null` for no bytes. -/
def bytes2HexStr (bytes : List UInt8) : Option (List Char) :=
  if bytes = [] then none
  else some (bytes.flatMap fun b : UInt8 =>
    [digits.getD (b >>> 4).toNat '0', digits.getD (b &&& 0xF).toNat '0'])

/-! ## Up to `new` -/

/-- The count of a string. -/
def stringCount : JIn (CountCase × Int) := do
  let (hd, _) ← readHead
  if hd.type = protoString1 then return (.string1, (← get).toNat)
  else if hd.type = protoString4 then return (.string4, (← getInt).toInt)
  else throw (.decode "type mismatch.")

/-- The count of a `byte[]`. -/
def byteArrayCount (fuel : Nat) (tag : Int) : JIn (CountCase × Int) := do
  let (hd, _) ← readHead
  if hd.type = protoSimpleList then
    let (hh, _) ← readHead
    if hh.type ≠ protoByte then
      throw (.decode s!"type mismatch, tag: {tag}, type: {hd.type}, {hh.type}")
    return (.simpleList, (← readSize fuel).toInt)
  else if hd.type = protoList then return (.byteList, (← readSize fuel).toInt)
  else throw (.decode "type mismatch.")

/-- The count of the other arrays. -/
def listCount (fuel : Nat) : JIn (CountCase × Int) := do
  let (hd, _) ← readHead
  if hd.type = protoList then return (.list, (← readSize fuel).toInt)
  else throw (.decode "type mismatch.")

/-- The checks between a count and `new`. -/
def checkCount (tag : Int) : CountCase → Int → JIn Unit
  | .string1, _ => pure ()
  | .string4, len => do
    if len > protoMaxStringLength ∨ len < 0 ∨ len > (← capacity) then
      throw (.decode s!"String too long: {len}")
  | .simpleList, size => do
    if size < 0 ∨ size > (← capacity) then
      throw (.decode
        s!"invalid size, tag: {tag}, type: {protoSimpleList}, {protoByte}, size: {size}")
  | .byteList, size => do
    if size < 0 ∨ size > (← capacity) then throw (.decode s!"size invalid: {size}")
  | .list, size => do
    if size < 0 then throw (.decode s!"size invalid: {size}")

namespace SizedReader

/-- A reader behind its tag, up to its count. -/
def count (fuel : Nat) (tag : Int) : SizedReader → JIn (CountCase × Int)
  | readByteString => stringCount
  | string => stringCount
  | readString => stringCount
  | byteArray => byteArrayCount fuel tag
  | array _ => listCount fuel
  | readArrayImpl _ => listCount fuel

/-- A reader behind its tag, up to its `new`: the length of the array. -/
def beforeNew (fuel : Nat) (tag : Int) (R : SizedReader) : JIn (CountCase × Nat) := do
  let d ← R.count fuel tag
  checkCount tag d.1 d.2
  pure (d.1, d.2.toNat)

/-! ## Behind `new` -/

/-- What a reader gives. -/
def Value : SizedReader → Type
  | readByteString => Option (List Char)
  | string => List UInt8
  | readString => List UInt8
  | byteArray => List UInt8
  | array p => List (PrimVal p)
  | readArrayImpl t => List (Val t)

/-- A reader behind its tag. -/
def body [FloatOps] (fuel : Nat) (tag : Int) : (R : SizedReader) → JIn R.Value
  | readByteString => do return bytes2HexStr (← stringBody)
  | string => stringBody
  | readString => stringBody
  | byteArray => byteArrayBody fuel tag
  | array p => listBody fuel (primBody p)
  | readArrayImpl t => listBody fuel (readBody fuel t 0)

/-- What a reader puts into its array. -/
def fill [FloatOps] (fuel : Nat) : (R : SizedReader) → CountCase × Nat → JIn R.Value
  | readByteString, n => do return bytes2HexStr (← getBytes n.2)
  | string, n => getBytes n.2
  | readString, n => getBytes n.2
  | byteArray, n =>
    if n.1 = .simpleList then getBytes n.2
    else do
      let bs ← repeatM (required (skipToTag fuel 0) byteBody) n.2
      pure (bs.map UInt8.ofBitVec)
  | array p, n => repeatM (required (skipToTag fuel 0) (primBody p)) n.2
  | readArrayImpl t, n => repeatM (required (skipToTag fuel 0) (readBody fuel t 0)) n.2

theorem stringBody_eq (tag : Int) :
    stringBody = stringCount >>= fun d => checkCount tag d.1 d.2 >>= fun _ =>
      getBytes d.2.toNat := by
  unfold stringBody stringCount
  rw [bind_assoc]
  congr 1
  funext ⟨hd, _⟩
  dsimp only
  by_cases h1 : hd.type = protoString1
  · simp only [if_pos h1, bind_assoc, pure_bind, checkCount, Int.toNat_natCast]
  by_cases h4 : hd.type = protoString4
  · simp only [if_neg h1, if_pos h4, bind_assoc, pure_bind, checkCount]
    congr 1
    funext len
    congr 1
    funext cap
    split <;> rfl
  · simp only [if_neg h1, if_neg h4]
    rfl

theorem listBody_eq {α : Type} (fuel : Nat) (tag : Int) (element : JIn α) :
    listBody fuel element = listCount fuel >>= fun d => checkCount tag d.1 d.2 >>= fun _ =>
      repeatM (required (skipToTag fuel 0) element) d.2.toNat := by
  unfold listBody listCount
  rw [bind_assoc]
  congr 1
  funext ⟨hd, _⟩
  dsimp only
  by_cases hlist : hd.type = protoList
  · simp only [if_pos hlist, bind_assoc, pure_bind, checkCount]
    congr 1
    funext size
    split <;> rfl
  · simp only [if_neg hlist]
    rfl

theorem byteArrayBody_eq [FloatOps] (fuel : Nat) (tag : Int) :
    byteArrayBody fuel tag = byteArrayCount fuel tag >>= fun d =>
      checkCount tag d.1 d.2 >>= fun _ => fill fuel byteArray (d.1, d.2.toNat) := by
  unfold byteArrayBody byteArrayCount
  rw [bind_assoc]
  congr 1
  funext ⟨hd, _⟩
  dsimp only
  by_cases hsimple : hd.type = protoSimpleList
  · simp only [if_pos hsimple, bind_assoc]
    congr 1
    funext ⟨hh, _⟩
    dsimp only
    by_cases hbyte : hh.type = protoByte
    · simp only [hbyte, hsimple, ne_eq, not_true_eq_false, if_false, bind_assoc, pure_bind,
        checkCount, fill]
      congr 1
      funext size
      congr 1
      funext cap
      split <;> rfl
    · simp only [ne_eq, hbyte, not_false_eq_true, if_true]
      rfl
  by_cases hlist : hd.type = protoList
  · simp only [if_neg hsimple, if_pos hlist, bind_assoc, pure_bind, checkCount]
    congr 1
    funext size
    congr 1
    funext cap
    split <;> rfl
  · simp only [if_neg hsimple, if_neg hlist]
    rfl

/-- A reader is what it does up to its `new`, and what it does behind it. -/
theorem body_eq [FloatOps] (fuel : Nat) (tag : Int) (R : SizedReader) :
    R.body fuel tag = R.beforeNew fuel tag >>= R.fill fuel := by
  unfold beforeNew
  simp only [bind_assoc, pure_bind]
  cases R with
  | readByteString =>
    show (do return bytes2HexStr (← stringBody)) = _
    rw [stringBody_eq tag]
    simp only [bind_assoc]
    rfl
  | string => exact stringBody_eq tag
  | readString => exact stringBody_eq tag
  | byteArray => exact byteArrayBody_eq fuel tag
  | array p => exact listBody_eq fuel tag (primBody p)
  | readArrayImpl t => exact listBody_eq fuel tag (readBody fuel t 0)

/-- `read( o, tag, isRequire )` up to its `new`, if it comes to one. -/
def upToNew (fuel : Nat) (tag : Int) (isRequire : Bool) (R : SizedReader) :
    JIn (Option (CountCase × Nat)) :=
  optional (skipToTag fuel tag) isRequire none (some <$> R.beforeNew fuel tag)

/-- A `read` is what it does up to its `new`, and what it does behind it. -/
theorem read_eq [FloatOps] (fuel : Nat) (tag : Int) (isRequire : Bool) (R : SizedReader)
    (dflt : R.Value) : optional (skipToTag fuel tag) isRequire dflt (R.body fuel tag) =
      R.upToNew fuel tag isRequire >>= fun n => n.elim (pure dflt) (R.fill fuel) := by
  unfold upToNew optional
  rw [bind_assoc]
  congr 1
  funext found
  cases found with
  | false => cases isRequire <;> rfl
  | true =>
    simp only [if_true, map_eq_pure_bind, bind_assoc, pure_bind, Option.elim]
    exact body_eq fuel tag R

/-! ## The count that the data declare -/

/-- Behind the header of a string. -/
def stringCountAt (type : UInt8) (l : List UInt8) : Option ((CountCase × Int) × List UInt8) :=
  if type = protoString1 then (numberAt 8 1 l).map fun n => ((.string1, n.1.toNat), n.2)
  else if type = protoString4 then (numberAt 32 4 l).map fun n => ((.string4, n.1.toInt), n.2)
  else none

/-- Behind the two headers of a `byte[]`. -/
def simpleListAt (type : UInt8) (l : List UInt8) : Option ((CountCase × Int) × List UInt8) :=
  if type = protoByte then (sizeAt l).map fun n => ((.simpleList, n.1.toInt), n.2) else none

/-- Behind the header of a `byte[]`. -/
def byteArrayCountAt (type : UInt8) (l : List UInt8) :
    Option ((CountCase × Int) × List UInt8) :=
  if type = protoSimpleList then (headAt l).bind fun h => simpleListAt h.1.1.type h.2
  else if type = protoList then (sizeAt l).map fun n => ((.byteList, n.1.toInt), n.2)
  else none

/-- Behind the header of another array. -/
def listCountAt (type : UInt8) (l : List UInt8) : Option ((CountCase × Int) × List UInt8) :=
  if type = protoList then (sizeAt l).map fun n => ((.list, n.1.toInt), n.2) else none

/-- The count behind a header, and the bytes behind it. -/
def countAt : SizedReader → UInt8 → List UInt8 → Option ((CountCase × Int) × List UInt8)
  | readByteString => stringCountAt
  | string => stringCountAt
  | readString => stringCountAt
  | byteArray => byteArrayCountAt
  | array _ => listCountAt
  | readArrayImpl _ => listCountAt

/-- The count that the bytes in front of a reader declare, and the bytes
behind it. -/
def declared (R : SizedReader) (l : List UInt8) : Option ((CountCase × Int) × List UInt8) :=
  (headAt l).bind fun h => R.countAt h.1.1.type h.2

theorem stringCount_parses : Parses stringCount fun l =>
    (headAt l).bind fun h => stringCountAt h.1.1.type h.2 := by
  refine readHead_parses.bind (h := fun h l => stringCountAt h.1.type l) fun h => ?_
  refine .ite (fun _ => ?_) fun _ => .ite (fun _ => ?_) fun _ => .throw _
  · exact (getBits_parses 8 1).map fun n => (CountCase.string1, (n.toNat : Int))
  · exact (getBits_parses 32 4).map fun n => (CountCase.string4, n.toInt)

theorem listCount_parses (fuel : Nat) : Parses (listCount (fuel + 1)) fun l =>
    (headAt l).bind fun h => listCountAt h.1.1.type h.2 := by
  unfold listCount
  rw [readSize_succ]
  refine readHead_parses.bind (h := fun h l => listCountAt h.1.type l) fun h => ?_
  refine .ite (fun _ => ?_) fun _ => .throw _
  exact readSize_parses.map fun n => (CountCase.list, n.toInt)

theorem byteArrayCount_parses (fuel : Nat) (tag : Int) :
    Parses (byteArrayCount (fuel + 1) tag) fun l =>
      (headAt l).bind fun h => byteArrayCountAt h.1.1.type h.2 := by
  unfold byteArrayCount
  rw [readSize_succ]
  refine readHead_parses.bind (h := fun h l => byteArrayCountAt h.1.type l) fun h => ?_
  refine .ite (fun _ => ?_) fun _ => .ite (fun _ => ?_) fun _ => .throw _
  · refine readHead_parses.bind (h := fun h l => simpleListAt h.1.type l) fun hh => ?_
    simp only [ne_eq, ite_not]
    refine .ite (fun _ => ?_) fun _ => .throw _
    exact readSize_parses.map fun n => (CountCase.simpleList, n.toInt)
  · exact readSize_parses.map fun n => (CountCase.byteList, n.toInt)

theorem count_parses (fuel : Nat) (tag : Int) (R : SizedReader) :
    Parses (R.count (fuel + 1) tag) R.declared := by
  cases R with
  | readByteString | string | readString => exact stringCount_parses
  | byteArray => exact byteArrayCount_parses fuel tag
  | array | readArrayImpl => exact listCount_parses fuel

/-- A count of one byte is not negative. -/
theorem countAt_string1 {R : SizedReader} {type : UInt8} {l r : List UInt8}
    {d : CountCase × Int} (hcount : R.countAt type l = some (d, r)) (hcase : d.1 = .string1) :
    0 ≤ d.2 := by
  have hmap : ∀ {k : Nat} {c : CountCase} {f : BitVec k → Int}
      {p : Option (BitVec k × List UInt8)}, (p.map fun n => ((c, f n.1), n.2)) = some (d, r) →
      c = .string1 ∧ ∃ n, d.2 = f n := by
    intro k c f p h
    rcases Option.map_eq_some_iff.mp h with ⟨n, -, heq⟩
    cases heq
    exact ⟨hcase, n.1, rfl⟩
  cases R with
  | readByteString | string | readString =>
    change stringCountAt type l = _ at hcount
    unfold stringCountAt at hcount
    split at hcount
    · rcases hmap (f := fun n => n.toNat) hcount with ⟨-, n, hn⟩
      omega
    split at hcount
    · cases (hmap hcount).1
    · cases hcount
  | byteArray =>
    change byteArrayCountAt type l = _ at hcount
    unfold byteArrayCountAt at hcount
    split at hcount
    · rcases Option.bind_eq_some_iff.mp hcount with ⟨h, -, hsimple⟩
      unfold simpleListAt at hsimple
      split at hsimple
      · cases (hmap hsimple).1
      · cases hsimple
    split at hcount
    · cases (hmap hcount).1
    · cases hcount
  | array | readArrayImpl =>
    change listCountAt type l = _ at hcount
    unfold listCountAt at hcount
    split at hcount
    · cases (hmap hcount).1
    · cases hcount

end SizedReader

/-! ## Which counts are refused -/

/-- The counts that a `case` refuses because they are too large. -/
def TooLarge (capacity : Nat) : CountCase → Int → Prop
  | .string1, _ => False
  | .string4, n => protoMaxStringLength < n ∨ capacity < n
  | .simpleList, n => capacity < n
  | .byteList, n => capacity < n
  | .list, _ => False

section

variable {tag : Int} {c : CountCase} {n : Int} {b : JBuf}

theorem checkCount_throws (tag : Int) (hcase : c = .string1 → 0 ≤ n)
    (h : n < 0 ∨ TooLarge b.data.length c n) :
    ∃ message, checkCount tag c n b = .error (.decode message) b := by
  have hthrow : ∀ {p : Prop} [Decidable p] (e : String), p →
      ∃ message, (if p then throw (.decode e) else pure () : JIn Unit) b =
        .error (.decode message) b := by
    intro p _ e hp
    rw [if_pos hp]
    exact ⟨e, rfl⟩
  cases c with
  | string1 =>
    have hn := hcase rfl
    rcases h with h | h
    · omega
    · exact h.elim
  | string4 =>
    refine hthrow (p := n > protoMaxStringLength ∨ n < 0 ∨ n > b.data.length) _ ?_
    rcases h with h | h | h
    · exact Or.inr (Or.inl h)
    · exact Or.inl h
    · exact Or.inr (Or.inr h)
  | simpleList | byteList => exact hthrow (p := n < 0 ∨ n > b.data.length) _ h
  | list => exact hthrow (p := n < 0) _ (h.resolve_right id)

theorem checkCount_passes (tag : Int) (h : ¬(n < 0 ∨ TooLarge b.data.length c n)) :
    checkCount tag c n b = .ok () b := by
  have hpass : ∀ {p : Prop} [Decidable p] (e : String), ¬p →
      (if p then throw (.decode e) else pure () : JIn Unit) b = .ok () b := by
    intro p _ e hp
    rw [if_neg hp]
    rfl
  cases c with
  | string1 => rfl
  | string4 =>
    refine hpass (p := n > protoMaxStringLength ∨ n < 0 ∨ n > b.data.length) _ ?_
    intro hbad
    rcases hbad with hbad | hbad | hbad
    · exact h (Or.inr (Or.inl hbad))
    · exact h (Or.inl hbad)
    · exact h (Or.inr (Or.inr hbad))
  | simpleList | byteList => exact hpass (p := n < 0 ∨ n > b.data.length) _ h
  | list => exact hpass (p := n < 0) _ fun hneg => h (Or.inl hneg)

end

namespace SizedReader

section

variable {fuel : Nat} {tag : Int} {R : SizedReader} {b b₁ : JBuf}
  {d : CountCase × Int} {r : List UInt8}

theorem upToNew_eq (isRequire : Bool) (hskip : skipToTag (fuel + 1) tag b = .ok true b₁) :
    R.upToNew (fuel + 1) tag isRequire b = (some <$> R.beforeNew (fuel + 1) tag) b₁ := by
  unfold upToNew optional
  rw [bind_of_ok hskip]
  rfl

/-- A count that is refused. -/
theorem upToNew_throws (isRequire : Bool) (hskip : skipToTag (fuel + 1) tag b = .ok true b₁)
    (hdecl : R.declared (rest b₁) = some (d, r))
    (h : d.2 < 0 ∨ TooLarge b₁.data.length d.1 d.2) :
    ∃ message b₂, R.upToNew (fuel + 1) tag isRequire b = .error (.decode message) b₂ := by
  rcases (count_parses fuel tag R).reads (at_rest b₁) hdecl with ⟨b₂, hcount, -, hsame⟩
  rcases Option.bind_eq_some_iff.mp hdecl with ⟨hd, -, hcountAt⟩
  rw [← hsame.1] at h
  rcases checkCount_throws tag (countAt_string1 hcountAt) h with ⟨message, hcheck⟩
  refine ⟨message, b₂, ?_⟩
  rw [upToNew_eq isRequire hskip, map_eq_pure_bind]
  exact bind_of_error ((bind_of_ok hcount).trans (bind_of_error hcheck))

/-- A count that is not. -/
theorem upToNew_passes (isRequire : Bool) (hskip : skipToTag (fuel + 1) tag b = .ok true b₁)
    (hdecl : R.declared (rest b₁) = some (d, r))
    (h : ¬(d.2 < 0 ∨ TooLarge b₁.data.length d.1 d.2)) :
    ∃ b₂, R.upToNew (fuel + 1) tag isRequire b = .ok (some (d.1, d.2.toNat)) b₂ ∧ At b₂ r := by
  rcases (count_parses fuel tag R).reads (at_rest b₁) hdecl with ⟨b₂, hcount, hb₂, hsame⟩
  rw [← hsame.1] at h
  refine ⟨b₂, ?_, hb₂⟩
  rw [upToNew_eq isRequire hskip, map_eq_pure_bind]
  exact bind_of_ok ((bind_of_ok hcount).trans (bind_of_ok (checkCount_passes tag h)))

/-- The count of whatever a reader allocates is in the data. -/
theorem declared_of_upToNew {isRequire : Bool} {n : CountCase × Nat} {b₂ : JBuf}
    (h : R.upToNew (fuel + 1) tag isRequire b = .ok (some n) b₂) :
    ∃ b₁ d r, skipToTag (fuel + 1) tag b = .ok true b₁ ∧
      R.declared (rest b₁) = some (d, r) := by
  rcases bind_eq_ok h with ⟨found, b₁, hskip, hrest⟩
  cases found with
  | false => cases isRequire <;> cases hrest
  | true =>
    rw [upToNew_eq isRequire hskip, map_eq_pure_bind] at h
    rcases bind_eq_ok h with ⟨_, _, hbefore, -⟩
    rcases bind_eq_ok hbefore with ⟨d, b₃, hcount, -⟩
    cases hdecl : R.declared (rest b₁) with
    | some p => exact ⟨b₁, p.1, p.2, hskip, hdecl⟩
    | none =>
      rcases (count_parses fuel tag R).fails (at_rest b₁) hdecl with ⟨e, b₄, hfail, -⟩
      rw [hcount] at hfail
      cases hfail

end

/-- A `read` checks its count: it throws a `DecodeException` before `new`
when the count is negative or exceeds the bytes behind it, and never
allocates an array that is longer than what is left of the buffer. -/
def SizeChecked (fuel : Nat) (tag : Int) (isRequire : Bool) (R : SizedReader) (b : JBuf) :
    Prop :=
  (∀ b₁ d r, skipToTag fuel tag b = .ok true b₁ → R.declared (rest b₁) = some (d, r) →
    d.2 < 0 ∨ (r.length : Int) < d.2 →
    ∃ message b₂, R.upToNew fuel tag isRequire b = .error (.decode message) b₂) ∧
  ∀ n b₂, R.upToNew fuel tag isRequire b = .ok (some n) b₂ → n.2 ≤ (rest b₂).length

/-- The declared count, if the tag is found and there is one, does not exceed
the bytes behind it, or it is so large that its `case` refuses it. -/
def FitsOrTooLarge (fuel : Nat) (tag : Int) (R : SizedReader) (b : JBuf) : Prop :=
  ∀ b₁ d r, skipToTag fuel tag b = .ok true b₁ → R.declared (rest b₁) = some (d, r) →
    d.2 ≤ r.length ∨ TooLarge b₁.data.length d.1 d.2

/-- Exactly these buffers are read with a check of the count. -/
theorem sizeChecked_iff (fuel : Nat) (tag : Int) (isRequire : Bool) (R : SizedReader)
    (b : JBuf) : R.SizeChecked (fuel + 1) tag isRequire b ↔ R.FitsOrTooLarge (fuel + 1) tag b := by
  constructor
  · intro h b₁ d r hskip hdecl
    by_contra hneither
    rw [not_or] at hneither
    rcases hneither with ⟨hlong, hsmall⟩
    have hpass : ¬(d.2 < 0 ∨ TooLarge b₁.data.length d.1 d.2) := by
      intro hbad
      rcases hbad with hneg | hbad
      · omega
      · exact hsmall hbad
    rcases h.1 b₁ d r hskip hdecl (Or.inr (by omega)) with ⟨message, b₂, hthrow⟩
    rcases upToNew_passes isRequire hskip hdecl hpass with ⟨b₃, hok, -⟩
    rw [hok] at hthrow
    cases hthrow
  · intro h
    constructor
    · intro b₁ d r hskip hdecl hbad
      refine upToNew_throws isRequire hskip hdecl ?_
      rcases hbad with hneg | hlong
      · exact Or.inl hneg
      · exact Or.inr ((h b₁ d r hskip hdecl).resolve_left (by omega))
    · intro n b₂ hok
      rcases declared_of_upToNew hok with ⟨b₁, d, r, hskip, hdecl⟩
      by_cases hbad : d.2 < 0 ∨ TooLarge b₁.data.length d.1 d.2
      · rcases upToNew_throws isRequire hskip hdecl hbad with ⟨_, _, hthrow⟩
        rw [hok] at hthrow
        cases hthrow
      · rcases upToNew_passes isRequire hskip hdecl hbad with ⟨b₃, hrun, hb₃⟩
        rw [hok] at hrun
        cases hrun
        have hfits := (h b₁ d r hskip hdecl).resolve_right fun hlarge => hbad (Or.inr hlarge)
        rw [show rest b₂ = r from hb₃]
        show d.2.toNat ≤ _
        omega

/-- An `int[]` with a count of `2 ^ 31 - 1` and no element. -/
theorem not_sizeChecked_intArray : ¬∀ (fuel : Nat) (tag : Int) (isRequire : Bool)
    (R : SizedReader) (b : JBuf), R.SizeChecked (fuel + 1) tag isRequire b := by
  intro h
  have hlong := (h 0 0 true (.array .int)
    (JBuf.wrap [0x09, 0x02, 0x7F, 0xFF, 0xFF, 0xFF] (by decide))).2 (.list, 2147483647)
    ⟨[0x09, 0x02, 0x7F, 0xFF, 0xFF, 0xFF], 6, 6, by decide, by decide, by decide⟩ rfl
  exact absurd hlong (by decide)

end SizedReader

end OCServer.Java
