import OCServer.Proto.JavaObject
import OCServer.Proto.JavaRead

/-!
# `readList`

The reader of a list whose class nobody knows.  It has a loop of its own over the
elements: scalars and strings are skipped and not added, maps and lists are not
even skipped, and a struct cannot be made.  Only the header of a zero adds an
element.

`readList_consumes_iff` says for which lists the reader gives as many elements as
were written, right behind them.
-/

namespace OCServer.Java

open BigEndian ByteIO ByteSource

/-! ## The reader -/

/-- The `switch` on the type of an element: what is added to the list, if anything is.
`ProtoStruct` is abstract, so that `cons.newInstance()` throws. -/
def elementBody (type : UInt8) : JIn (Option Int) :=
  let skipped (m : JIn Unit) : JIn (Option Int) := do
    m
    pure none
  if type = protoByte then skipped (skip 1)
  else if type = protoShort then skipped (skip 2)
  else if type = protoInt then skipped (skip 4)
  else if type = protoLong then skipped (skip 8)
  else if type = protoFloat then skipped (skip 4)
  else if type = protoDouble then skipped (skip 8)
  else if type = protoString1 then skipped (do skip (← get).toNat)
  else if type = protoString4 then skipped (do skip (← getInt).toInt)
  else if type = protoMap then pure none
  else if type = protoList then pure none
  else if type = protoStructBegin then
    throw (.decode "type mismatch.java.lang.InstantiationException")
  else if type = protoZeroTag then pure (some 0)
  else throw (.decode "type mismatch.")

/-- One round of the loop. -/
def readElement : JIn (Option Int) := do
  let (subH, _) ← readHead
  elementBody subH.type

/-- `readList` behind its tag. -/
def listField (fuel : Nat) : JIn (List Int) := do
  let (hd, _) ← readHead
  if hd.type = protoList then
    let size ← readSize fuel
    if size.toInt < 0 then throw (.decode s!"size invalid: {size.toInt}")
    let lr ← repeatM readElement size.toInt.toNat
    pure (lr.filterMap id)
  else throw (.decode "type mismatch.")

/-- `readList`. -/
def readList (fuel : Nat) (tag : Int) (isRequire : Bool) : JIn (List Int) :=
  optional (skipToTag fuel tag) isRequire [] (listField fuel)

/-! ## Zeros -/

/-- The scalars that are written without a value. -/
def Zero : (p : Prim) → PrimVal p → Prop
  | .bool, v => v = false
  | .short, v => v = 0
  | .int, v => v = 0
  | .long, v => v = 0
  | .float, _ => False
  | .double, _ => False

/-- A `byte`, `short`, `int` or `long` that is zero, or `false`. -/
def Obj.IsZero : Obj → Prop
  | .byte b => b = 0
  | .prim p v => Zero p v
  | _ => False

theorem encInt_zero (tag : UInt8) : encInt tag 0 = encHead protoZeroTag tag := rfl

/-- A field with a header of another type. -/
def Other (tag : UInt8) (bs : List UInt8) : Prop :=
  ∃ type rest, type.toNat < 16 ∧ type ≠ protoZeroTag ∧ bs = encHead type tag ++ rest

theorem Other.head {type tag : UInt8} (htype : type.toNat < 16) (hne : type ≠ protoZeroTag)
    (rest : List UInt8) : Other tag (encHead type tag ++ rest) :=
  ⟨type, rest, htype, hne, rfl⟩

theorem other_int {tag : UInt8} {n : Int} (h : n ≠ 0) : Other tag (encInt tag n) := by
  unfold encInt
  rw [if_neg h]
  split_ifs <;> exact .head (by decide) (by decide) _

theorem other_string (tag : UInt8) (s : List UInt8) : Other tag (encString tag s) := by
  unfold encString
  split_ifs <;> rw [List.append_assoc] <;> exact .head (by decide) (by decide) _

theorem encInt_cases {k : Nat} (tag : UInt8) (v : BitVec k) :
    (v = 0 ∧ encInt tag v.toInt = encHead protoZeroTag tag) ∨
      (v ≠ 0 ∧ Other tag (encInt tag v.toInt)) := by
  have hzero : (0 : BitVec k).toInt = 0 := BitVec.toInt_zero
  by_cases hv : v = 0
  · refine Or.inl ⟨hv, ?_⟩
    rw [hv, hzero]
    exact encInt_zero tag
  · refine Or.inr ⟨hv, other_int ?_⟩
    intro h
    exact hv (BitVec.eq_of_toInt_eq (h.trans hzero.symm))

theorem encPrim_cases (tag : UInt8) (p : Prim) (v : PrimVal p) :
    (Zero p v ∧ encPrim tag p v = encHead protoZeroTag tag) ∨
      (¬Zero p v ∧ Other tag (encPrim tag p v)) := by
  cases p with
  | bool =>
    cases v with
    | false => exact Or.inl ⟨rfl, rfl⟩
    | true => exact Or.inr ⟨Bool.noConfusion, other_int (by decide)⟩
  | short => exact encInt_cases tag v
  | int => exact encInt_cases tag v
  | long => exact encInt_cases tag v
  | float => exact Or.inr ⟨id, .head (by decide) (by decide) _⟩
  | double => exact Or.inr ⟨id, .head (by decide) (by decide) _⟩

/-- An object is a zero, and then only a header, or it starts with another header. -/
theorem encObj_cases (e : Obj) (tag : UInt8) :
    (e.IsZero ∧ encObj e tag = encHead protoZeroTag tag) ∨
      (¬e.IsZero ∧ Other tag (encObj e tag)) := by
  cases e with
  | byte b => exact encInt_cases tag b
  | prim p v => exact encPrim_cases tag p v
  | string s => exact Or.inr ⟨id, other_string tag s⟩
  | _ =>
    refine Or.inr ⟨id, ?_⟩
    simp only [encObj, List.append_assoc]
    exact .head (by decide) (by decide) _

theorem encObj_length_pos (e : Obj) (tag : UInt8) : 0 < (encObj e tag).length := by
  have hhead : ∀ type : UInt8, 0 < (encHead type tag).length := by
    intro type
    unfold encHead
    split <;> simp
  rcases encObj_cases e tag with ⟨-, henc⟩ | ⟨-, type, rest, -, -, henc⟩
  · rw [henc]
    exact hhead _
  · rw [henc, List.length_append]
    exact Nat.add_pos_left (hhead type) _

/-! ## Elements -/

theorem readElement_zero : Reads readElement (encHead protoZeroTag 0) (some 0) := by
  unfold readElement
  exact (readHead_reads (by decide) 0).then (Reads.pure _)

/-- Only a zero is added. -/
theorem elementBody_gives {type : UInt8} (h : type ≠ protoZeroTag) :
    Gives (elementBody type) fun a => a = none := by
  have hskip : ∀ m : JIn Unit, Gives (do m; pure none : JIn (Option Int)) fun a => a = none :=
    fun m => Gives.bind fun _ => Gives.pure rfl
  have hthrow : ∀ message : String,
      Gives (throw (.decode message) : JIn (Option Int)) fun a => a = none := by
    intro message b a b' hrun
    cases hrun
  have hnone : Gives (pure none : JIn (Option Int)) fun a => a = none := Gives.pure rfl
  unfold elementBody
  rw [if_neg h]
  -- the six scalars, the two strings, map and list, and what throws
  refine .ite (hskip _) (.ite (hskip _) (.ite (hskip _) (.ite (hskip _) ?_)))
  refine .ite (hskip _) (.ite (hskip _) ?_)
  refine .ite (hskip _) (.ite (hskip _) ?_)
  refine .ite hnone (.ite hnone ?_)
  exact .ite (hthrow _) (hthrow _)

theorem readElement_other {bs : List UInt8} (h : Other 0 bs) :
    Misses readElement bs fun a => a.isSome := by
  obtain ⟨type, rest, htype, hne, rfl⟩ := h
  unfold readElement
  refine (readHead_reads htype 0).bind_misses ?_
  intro b r a b' _ hrun hsome
  rw [elementBody_gives hne b a b' hrun] at hsome
  cases hsome

/-! ## The loop -/

/-- The loop, and the list that it fills. -/
def elementLoop (size : Nat) : JIn (List Int) := do
  let lr ← repeatM readElement size
  pure (lr.filterMap id)

theorem filterMap_replicate (n : Nat) :
    (List.replicate n (some (0 : Int))).filterMap id = List.replicate n 0 := by
  induction n with
  | zero => rfl
  | succ n ih => rw [List.replicate_succ, List.filterMap_cons, ih, List.replicate_succ]; rfl

/-- Zeros are read as they were written. -/
theorem elementLoop_reads {l : List Obj} (h : ∀ e ∈ l, e.IsZero) :
    Reads (elementLoop l.length) (l.flatMap fun e => encObj e 0) (List.replicate l.length 0) := by
  have hone : ∀ e ∈ l, Reads readElement (encObj e 0) (some 0) := by
    intro e he
    rcases encObj_cases e 0 with ⟨-, henc⟩ | ⟨hnot, -⟩
    · rw [henc]
      exact readElement_zero
    · exact absurd (h e he) hnot
  have hloop := Reads.repeatM_map (g := fun _ => some (0 : Int)) l hone
  rw [List.map_const'] at hloop
  unfold elementLoop
  refine hloop.then ?_
  rw [filterMap_replicate]
  exact Reads.pure _

/-- An element that is not zero is missing at the end. -/
theorem elementLoop_misses {l : List Obj} (h : ¬∀ e ∈ l, e.IsZero) :
    Misses (elementLoop l.length) (l.flatMap fun e => encObj e 0)
      fun lr => lr.length = l.length := by
  have hloop : Misses (repeatM readElement l.length) (l.flatMap fun e => encObj e 0)
      fun lr => ∀ a ∈ lr, a.isSome := by
    refine Misses.repeatM (g := fun _ => some 0) (P := fun _ a => a.isSome)
      (Q := fun _ lr => ∀ a ∈ lr, a.isSome) (fun _ _ _ _ hall => List.forall_mem_cons.mp hall)
      l ?_ ?_ h
    · intro e he hzero
      rcases encObj_cases e 0 with ⟨-, henc⟩ | ⟨hnot, -⟩
      · rw [henc]
        exact readElement_zero
      · exact absurd hzero hnot
    · intro e he hnot
      rcases encObj_cases e 0 with ⟨hzero, -⟩ | ⟨-, hother⟩
      · exact absurd hzero hnot
      · exact readElement_other hother
  intro b r lr b' hb hrun hlen
  obtain ⟨as, b₁, has, hpure⟩ := bind_eq_ok hrun
  cases hpure
  have hcount := Gives.repeatM_length readElement l.length b as _ has
  exact hloop b r as _ hb has (List.filterMap_length_eq_length.mp (hlen.trans hcount.symm))

/-- Before the loop, `readList` reads the header and the size. -/
theorem readList_run (fuel : Nat) (l : List Obj) (tag : UInt8) (isRequire : Bool) {b : JBuf}
    {r : List UInt8} (hb : At b (encObj (.list l) tag ++ r)) :
    ∃ b', readList (fuel + 1) tag.toNat isRequire b = elementLoop l.length b' ∧
      At b' (l.flatMap (fun e => encObj e 0) ++ r) ∧ Same b b' := by
  have hlt := at_length_lt hb
  have henc : encObj (.list l) tag =
      encHead protoList tag ++ (encSize l.length ++ l.flatMap fun e => encObj e 0) := by
    rw [encObj, encElements_eq, List.append_assoc]
  rw [henc] at hb hlt
  have hle := length_le_flatMap (fun e => encObj_length_pos e 0) l
  simp only [List.length_append] at hlt
  have hsize : (BitVec.ofNat 32 l.length).toInt = l.length := toInt_size (by omega)
  have hhit := skipToTag_hit fuel (FieldAt.head (by decide) (by decide) _) hb
  rw [List.append_assoc] at hb
  obtain ⟨b₁, hhead, hb₁, hsame₁⟩ := readHead_reads (by decide) tag b _ hb
  rw [List.append_assoc] at hb₁
  obtain ⟨b₂, hread, hb₂, hsame₂⟩ := readSize_reads fuel l.length b₁ _ hb₁
  refine ⟨b₂, ?_, hb₂, same_trans hsame₁ hsame₂⟩
  unfold readList optional
  rw [bind_of_ok hhit]
  show listField (fuel + 1) b = _
  unfold listField
  rw [bind_of_ok hhead]
  show (readSize (fuel + 1) >>= _) b₁ = _
  rw [bind_of_ok hread]
  dsimp only
  rw [hsize, if_neg (by omega), Int.toNat_natCast]
  rfl

/-! ## Whole lists -/

/-- It gives as many elements as were written, and stops right behind `n` bytes. -/
def Consumes (m : JIn (List Int)) (l : List Obj) (n : Nat) (b : JBuf) : Prop :=
  ∃ lr b', m b = .ok lr b' ∧ lr.length = l.length ∧ b'.pos = b.pos + n

theorem readList_consumes {l : List Obj} (fuel : Nat) (tag : UInt8) (isRequire : Bool) {b : JBuf}
    {r : List UInt8} (hb : At b (encObj (.list l) tag ++ r)) :
    Consumes (readList (fuel + 1) tag.toNat isRequire) l (encObj (.list l) tag).length b ↔
      ∀ e ∈ l, e.IsZero := by
  obtain ⟨b₁, hrun, hb₁, hsame₁⟩ := readList_run fuel l tag isRequire hb
  constructor
  · rintro ⟨lr, b', hread, hlen, -⟩
    by_contra hnot
    rw [hrun] at hread
    exact elementLoop_misses hnot b₁ r lr b' hb₁ hread hlen
  · intro hall
    obtain ⟨b', hloop, hb', hsame'⟩ := elementLoop_reads hall b₁ r hb₁
    exact ⟨_, b', hrun.trans hloop, List.length_replicate,
      pos_of_at hb hb' (same_trans hsame₁ hsame')⟩

/-- For every list of objects, every tag and every buffer, whatever follows: `readList` gives
as many elements as were written and stops right behind the field, if and only if every
element is a zero. -/
theorem readList_consumes_iff (l : List Obj) (tag : UInt8) (ops : List BufOp) :
    ∃ ops' bs, writeObject (.list l) tag.toNat ops = .ok () ops' ∧
      toByteArray ops' = toByteArray ops ++ bs ∧
      ∀ (fuel : Nat) (b : JBuf) (r : List UInt8),
        (b.data.take b.limit).drop b.pos = bs ++ r →
        (Consumes (readList (fuel + 1) tag.toNat true) l bs.length b ↔ ∀ e ∈ l, e.IsZero) := by
  obtain ⟨ops', hwrite, hbytes⟩ := writeObject_writes (.list l) tag ops
  refine ⟨ops', _, hwrite, hbytes, ?_⟩
  intro fuel b r hb
  exact readList_consumes fuel tag true hb

/-- A list of the number one. -/
theorem not_always_consumes : ¬∀ (l : List Obj) (tag : UInt8) (ops ops' : List BufOp)
    (bs : List UInt8), writeObject (.list l) tag.toNat ops = .ok () ops' →
    toByteArray ops' = toByteArray ops ++ bs → ∀ (fuel : Nat) (b : JBuf) (r : List UInt8),
      (b.data.take b.limit).drop b.pos = bs ++ r →
      Consumes (readList (fuel + 1) tag.toNat true) l bs.length b := by
  intro h
  let l : List Obj := [.prim .int 1]
  let b : JBuf := ⟨[9, 0, 1, 0, 1], 0, 5, by decide, by decide, by decide⟩
  have henc : encObj (.list l) 0 = [9, 0, 1, 0, 1] := by decide
  have hb : At b (encObj (.list l) 0 ++ []) := by
    rw [henc]
    rfl
  obtain ⟨ops', hwrite, hbytes⟩ := writeObject_writes (.list l) 0 []
  have hall := (readList_consumes 0 0 true hb).mp (h l 0 [] ops' _ hwrite hbytes 0 b [] hb)
  exact absurd (hall _ (List.mem_singleton_self _)) (by show ¬(1 : BitVec 32) = 0; decide)

end OCServer.Java
