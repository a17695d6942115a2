import OCServer.Lib.FieldScan
import OCServer.Proto.SkipTag

/-!
# Skipping in `ProtoIn` on any bytes

`skipField`, `skipToStructEnd` and `skipToTag` over a string stream, whatever
it holds.  `format` says which headers, lengths and sizes the reader sees, and
the scan of `FieldScan` which fields it comes to.

A `get` that finds no byte leaves the reader with a header of type and tag
zero, or with what a variable held, and `tell` with -1.  A scan goes `Astray`
where this happens, and where a length leads back.  As long as it does not,
the three functions end, and no round of their loops moves back.  A header
that is read at the end of the data leads to the first byte.
-/

namespace OCServer.Cpp

open BigEndian ByteIO ByteSource FieldScan Fuel StateTransition

/-! ## The format -/

/-- A header. -/
def headAt : List UInt8 → Option (ProtoHead × List UInt8)
  | [] => none
  | b :: r =>
    if (b &&& 0xF0) >>> 4 = 15 then r.head?.map fun t => (⟨b &&& 0xF, t, 2⟩, r.tail)
    else some (⟨b &&& 0xF, (b &&& 0xF0) >>> 4, 1⟩, r)

/-- The size of a `SIMPLE_LIST` behind its header, as `read( int & )` takes
it. -/
def sizeAt (type : UInt8) (l : List UInt8) : Option (Body × List UInt8) :=
  if type = protoZeroTag then some (.move 0, l)
  else if type = protoByte then
    (numberAt 8 1 l).map fun n => (.move (n.1.setWidth 32).toInt, n.2)
  else if type = protoShort then
    (numberAt 16 2 l).map fun n => (.move (n.1.setWidth 32).toInt, n.2)
  else if type = protoInt then (numberAt 32 4 l).map fun n => (.move n.1.toInt, n.2)
  else some (.invalid, l)

/-- What follows a header. -/
def bodyAt (type : UInt8) (l : List UInt8) : Option (Body × List UInt8) :=
  if type = protoByte then some (.move 1, l)
  else if type = protoShort then some (.move 2, l)
  else if type = protoInt ∨ type = protoFloat then some (.move 4, l)
  else if type = protoLong ∨ type = protoDouble then some (.move 8, l)
  else if type = protoString1 then (numberAt 8 1 l).map fun n => (.move n.1.toNat, n.2)
  else if type = protoString4 then (numberAt 32 4 l).map fun n => (.move n.1.toInt, n.2)
  else if type = protoMap then
    (numberAt 32 4 l).map fun n => (.fields (n.1 * 2).toInt.toNat, n.2)
  else if type = protoList then
    (numberAt 32 4 l).map fun n => (.fields n.1.toInt.toNat, n.2)
  else if type = protoStructBegin ∨ type = protoStructEnd ∨ type = protoZeroTag then
    some (.move 0, l)
  else if type = protoSimpleList then
    (headAt l).bind fun h =>
      if h.1.type ≠ protoByte then some (.invalid, h.2)
      else (headAt h.2).bind fun h => sizeAt h.1.type h.2
  else some (.invalid, l)

/-- The format as `ProtoIn` skips it.  The tag of a header is a signed
`char`. -/
def format : Format UInt8 UInt8 where
  head l := (headAt l).map fun h => ((h.1.type, h.1.tag.toBitVec.toInt), h.2)
  body := bodyAt
  closes type := type = protoStructEnd
  decCloses := fun type => inferInstanceAs (Decidable (type = protoStructEnd))

/-- A header or a length that is cut short, a length that leads back, or a
payload that is cut short in front of more fields.  A search for a tag that is
not positive stops at the end of the data. -/
def Astray : State UInt8 UInt8 → Prop
  | ([], _) => False
  | (.field :: _, l) => headAt l = none
  | (.members :: _, l) => headAt l = none
  | (.search tag :: _, l) => headAt l = none ∧ ¬(l = [] ∧ tag ≤ 0)
  | (.body type :: k, l) => bodyAt type l = none ∨
      ∃ len r, bodyAt type l = some (.move len, r) ∧
        (len < 0 ∨ r.length < len ∧ ∃ p k', k = p :: k' ∧ ∀ tag, p ≠ .search tag)

/-- The scan asks for a header at the end of the data. -/
def AtEnd : State UInt8 UInt8 → Prop
  | (.field :: _, l) => l = []
  | (.members :: _, l) => l = []
  | (.search tag :: _, l) => l = [] ∧ 0 < tag
  | _ => False

/-! ## Rounds -/

/-- The counted loop of `skipField`: no round has a loop that moves back. -/
def Rounds (round : IStream → Prop) (m : CppIn Unit) : Nat → IStream → Prop
  | 0, _ => True
  | n + 1, s => round s ∧ ∀ s', m s = .ok () s' → Rounds round m n s'

mutual

/-- No round of a loop of `skipField( type )` moves back. -/
def forwardField : Nat → UInt8 → IStream → Prop
  | 0, _, _ => True
  | fuel + 1, type, s => ∀ len s₁, getInt s = .ok len s₁ →
    (type = protoMap → Rounds (forwardAny fuel) (skipAny fuel) (len * 2).toInt.toNat s₁) ∧
    (type = protoList → Rounds (forwardAny fuel) (skipAny fuel) len.toInt.toNat s₁)

/-- The same for `skipField()`, which is a round of these loops and does not
move back itself. -/
def forwardAny : Nat → IStream → Prop
  | 0, _ => True
  | fuel + 1, s => ∀ head s₁, readHead s = .ok head s₁ → forwardField fuel head.type s₁ ∧
    ∀ s₂, skipField fuel head.type s₁ = .ok () s₂ → s.pos ≤ s₂.pos

end

/-- A round from `start` whose header has been read. -/
def forwardRound (fuel start : Nat) (type : UInt8) (s : IStream) : Prop :=
  forwardField fuel type s ∧ ∀ s', skipField fuel type s = .ok () s' → start ≤ s'.pos

/-- No round of the loop of `skipToStructEnd` moves back. -/
def forwardStructEnd : Nat → IStream → Prop
  | 0, _ => True
  | fuel + 1, s => ∀ head s₁, readHead s = .ok head s₁ →
    forwardRound fuel s.pos head.type s₁ ∧ ∀ s₂, skipField fuel head.type s₁ = .ok () s₂ →
      head.type ≠ protoStructEnd → forwardStructEnd fuel s₂

/-- No round of the loop of `skipToTag` moves back. -/
def forwardTag : Nat → Int → IStream → Prop
  | 0, _, _ => True
  | fuel + 1, tag, s => s.fail = false → ∀ head s₁, readHead s = .ok head s₁ →
    head.type ≠ protoStructEnd → ¬tag ≤ head.tag.toBitVec.toInt →
    forwardRound fuel s.pos head.type s₁ ∧
      ∀ s₂, skipField fuel head.type s₁ = .ok () s₂ → forwardTag fuel tag s₂

/-! ## Reading headers and lengths -/

theorem getNumber_readsAs (k w : Nat) : ReadsAs (getNumber k w) (numberAt k w) := by
  intro s l p hs hp
  unfold numberAt at hp
  rw [Option.ite_none_right_eq_some] at hp
  rcases hp with ⟨hle, hp⟩
  cases hp
  have hlen : (l.take w).length = w := List.length_take_of_le hle
  have hreads : Reads (getNumber k w) (l.take w) (BitVec.ofNat k (beVal (l.take w))) := by
    unfold getNumber
    refine declare_reads fun a => ?_
    have hloop := getLoop_reads (l.take w) a
    rw [hlen] at hloop
    exact hloop.then (Reads.pure _)
  exact hreads s (l.drop w) (by rwa [List.take_append_drop])

theorem getChar_readsAs :
    ReadsAs getChar fun l => (numberAt 8 1 l).map fun n => (UInt8.ofBitVec n.1, n.2) := by
  intro s l p hs hp
  cases l with
  | nil => cases hp
  | cons b r =>
    dsimp only at hp
    rw [numberAt_cons] at hp
    cases hp
    exact getChar_reads b s r hs

theorem getShort_readsAs : ReadsAs getShort (numberAt 16 2) := by
  intro s l p hs hp
  cases l with
  | nil => cases hp
  | cons a r =>
    cases r with
    | nil => cases hp
    | cons b r =>
      have hreads : Reads getShort [a, b] (BitVec.ofNat 16 (beVal [a, b])) := by
        unfold getShort
        refine declare_reads fun x => declare_reads fun y => ?_
        exact (getInto_reads x a).bind ((getInto_reads y b).then (Reads.pure _))
      unfold numberAt at hp
      rw [if_pos (by simp)] at hp
      cases hp
      exact hreads s r hs

theorem readHead_readsAs : ReadsAs readHead headAt := by
  intro s l p hs hp
  cases l with
  | nil => cases hp
  | cons b r =>
    rcases getInto_reads 0 b s r hs with ⟨s₁, h₁, hs₁, hsame₁⟩
    unfold readHead
    rw [bind_of_ok h₁]
    by_cases htag : (b &&& 0xF0) >>> 4 = 15
    · simp only [headAt, if_pos htag] at hp
      cases r with
      | nil => cases hp
      | cons t r =>
        cases hp
        rcases getInto_reads b t s₁ r hs₁ with ⟨s₂, h₂, hs₂, hsame₂⟩
        rw [if_pos htag, bind_of_ok h₂]
        exact ⟨s₂, rfl, hs₂, same_trans hsame₁ hsame₂⟩
    · simp only [headAt, if_neg htag] at hp
      cases hp
      rw [if_neg htag]
      exact ⟨s₁, rfl, hs₁, hsame₁⟩

/-- The two shapes of a header. -/
theorem headAt_cases {l : List UInt8} {h : ProtoHead × List UInt8} (hl : headAt l = some h) :
    (∃ b, l = b :: h.2 ∧ (b &&& 0xF0) >>> 4 ≠ 15 ∧
        h.1 = ⟨b &&& 0xF, (b &&& 0xF0) >>> 4, 1⟩) ∨
      ∃ b t, l = b :: t :: h.2 ∧ (b &&& 0xF0) >>> 4 = 15 ∧ h.1 = ⟨b &&& 0xF, t, 2⟩ := by
  cases l with
  | nil => cases hl
  | cons b r =>
    by_cases htag : (b &&& 0xF0) >>> 4 = 15
    · simp only [headAt, if_pos htag] at hl
      cases r with
      | nil => cases hl
      | cons t r =>
        cases hl
        exact Or.inr ⟨b, t, rfl, htag, rfl⟩
    · simp only [headAt, if_neg htag] at hl
      cases hl
      exact Or.inl ⟨b, rfl, htag, rfl⟩

theorem headAt_length {l : List UInt8} {h : ProtoHead × List UInt8} (hl : headAt l = some h) :
    h.2.length + h.1.len = l.length ∧ 0 < h.1.len := by
  rcases headAt_cases hl with ⟨b, rfl, -, hhead⟩ | ⟨b, t, rfl, -, hhead⟩
  · simp [hhead]
  · simp [hhead]

/-- A body is at most what is left, and the size of a container takes some
of it. -/
theorem bodyAt_length {type : UInt8} {l : List UInt8} {p : Body × List UInt8}
    (h : bodyAt type l = some p) :
    p.2.length ≤ l.length ∧ ∀ k, p.1 = .fields k → p.2.length < l.length := by
  have hsame : ∀ {body : Body} {r : List UInt8}, some (body, r) = some p →
      (∀ k, body ≠ .fields k) → r.length ≤ l.length →
      p.2.length ≤ l.length ∧ ∀ k, p.1 = .fields k → p.2.length < l.length := by
    intro body r hp hne hle
    cases hp
    exact ⟨hle, fun k hk => absurd hk (hne k)⟩
  have hnumber : ∀ {w v : Nat} {g : BitVec w × List UInt8 → Body × List UInt8} {r : List UInt8},
      (numberAt w v r).map g = some p → (∀ n, (g n).2 = n.2) → r.length ≤ l.length → 0 < v →
      p.2.length ≤ l.length ∧ ∀ k, p.1 = .fields k → p.2.length < l.length := by
    intro w v g r hp hg hle hv
    rcases Option.map_eq_some_iff.mp hp with ⟨a, ha, rfl⟩
    have hlen := numberAt_length ha
    rw [hg]
    exact ⟨by omega, fun _ _ => by omega⟩
  unfold bodyAt at h
  by_cases h0 : type = protoByte
  · rw [if_pos h0] at h
    exact hsame h nofun (Nat.le_refl _)
  rw [if_neg h0] at h
  by_cases h1 : type = protoShort
  · rw [if_pos h1] at h
    exact hsame h nofun (Nat.le_refl _)
  rw [if_neg h1] at h
  by_cases h2 : type = protoInt ∨ type = protoFloat
  · rw [if_pos h2] at h
    exact hsame h nofun (Nat.le_refl _)
  rw [if_neg h2] at h
  by_cases h3 : type = protoLong ∨ type = protoDouble
  · rw [if_pos h3] at h
    exact hsame h nofun (Nat.le_refl _)
  rw [if_neg h3] at h
  by_cases h4 : type = protoString1
  · rw [if_pos h4] at h
    exact hnumber h (fun _ => rfl) (Nat.le_refl _) (by decide)
  rw [if_neg h4] at h
  by_cases h5 : type = protoString4
  · rw [if_pos h5] at h
    exact hnumber h (fun _ => rfl) (Nat.le_refl _) (by decide)
  rw [if_neg h5] at h
  by_cases h6 : type = protoMap
  · rw [if_pos h6] at h
    exact hnumber h (fun _ => rfl) (Nat.le_refl _) (by decide)
  rw [if_neg h6] at h
  by_cases h7 : type = protoList
  · rw [if_pos h7] at h
    exact hnumber h (fun _ => rfl) (Nat.le_refl _) (by decide)
  rw [if_neg h7] at h
  by_cases h8 : type = protoStructBegin ∨ type = protoStructEnd ∨ type = protoZeroTag
  · rw [if_pos h8] at h
    exact hsame h nofun (Nat.le_refl _)
  rw [if_neg h8] at h
  by_cases h9 : type = protoSimpleList
  · rw [if_pos h9] at h
    rcases Option.bind_eq_some_iff.mp h with ⟨hd, hhead, h⟩
    have hlen := headAt_length hhead
    by_cases hbyte : hd.1.type ≠ protoByte
    · rw [if_pos hbyte] at h
      exact hsame h nofun (by omega)
    rw [if_neg hbyte] at h
    rcases Option.bind_eq_some_iff.mp h with ⟨hd', hhead', h⟩
    have hlen' := headAt_length hhead'
    unfold sizeAt at h
    by_cases hz : hd'.1.type = protoZeroTag
    · rw [if_pos hz] at h
      exact hsame h nofun (by omega)
    rw [if_neg hz] at h
    by_cases hb : hd'.1.type = protoByte
    · rw [if_pos hb] at h
      exact hnumber h (fun _ => rfl) (by omega) (by decide)
    rw [if_neg hb] at h
    by_cases hs : hd'.1.type = protoShort
    · rw [if_pos hs] at h
      exact hnumber h (fun _ => rfl) (by omega) (by decide)
    rw [if_neg hs] at h
    by_cases hi : hd'.1.type = protoInt
    · rw [if_pos hi] at h
      exact hnumber h (fun _ => rfl) (by omega) (by decide)
    rw [if_neg hi] at h
    exact hsame h nofun (by omega)
  · rw [if_neg h9] at h
    exact hsame h nofun (Nat.le_refl _)

/-! ## What `skipField` does -/

/-- What a body says, `skipField` does in the state behind it. -/
inductive Does (run : Nat → EStateM.Result CppExc IStream Unit) (forward : Nat → Prop) :
    Body → IStream → Prop
  | move {len : Int} {s : IStream} (hrun : ∀ n, run (n + 1) = skip len s)
    (hforward : ∀ n, forward (n + 1)) : Does run forward (.move len) s
  | fields {k : Nat} {s : IStream} (hrun : ∀ n, run (n + 1) = repeatSkip (skipAny n) k s)
    (hforward : ∀ n, forward (n + 1) ↔ Rounds (forwardAny n) (skipAny n) k s) :
    Does run forward (.fields k) s
  | invalid {s s' : IStream} {text : String}
    (hrun : ∀ n, run (n + 1) = .error (.protoError text) s') (hforward : ∀ n, forward (n + 1)) :
    Does run forward .invalid s

/-- Only a map and a list have a loop. -/
theorem forwardField_of_ne {type : UInt8} (hmap : type ≠ protoMap) (hlist : type ≠ protoList)
    (n : Nat) (s : IStream) : forwardField (n + 1) type s := by
  unfold forwardField
  intro len s₁ _
  exact ⟨fun h => absurd h hmap, fun h => absurd h hlist⟩

theorem forwardField_map {n : Nat} {s s₁ : IStream} {len : BitVec 32}
    (h : getInt s = .ok len s₁) : forwardField (n + 1) protoMap s ↔
      Rounds (forwardAny n) (skipAny n) (len * 2).toInt.toNat s₁ := by
  unfold forwardField
  constructor
  · exact fun hall => (hall len s₁ h).1 rfl
  · intro hrounds len' s' h'
    rw [h] at h'
    cases h'
    exact ⟨fun _ => hrounds, fun htype => absurd htype (by decide)⟩

theorem forwardField_list {n : Nat} {s s₁ : IStream} {len : BitVec 32}
    (h : getInt s = .ok len s₁) : forwardField (n + 1) protoList s ↔
      Rounds (forwardAny n) (skipAny n) len.toInt.toNat s₁ := by
  unfold forwardField
  constructor
  · exact fun hall => (hall len s₁ h).2 rfl
  · intro hrounds len' s' h'
    rw [h] at h'
    cases h'
    exact ⟨fun htype => absurd htype (by decide), fun _ => hrounds⟩

/-- A move that stays. -/
theorem skip_zero {s : IStream} {l : List UInt8} (ht : Tellable s) (hs : At s l) :
    skip 0 s = .ok () s := by
  have hlen := at_length hs
  unfold skip
  rw [bind_of_ok (tell_eq ht hs), Int.add_zero]
  unfold seek
  rw [if_pos ⟨ht.1, Int.natCast_nonneg _, by rw [Int.toNat_natCast]; omega⟩]
  have hfail : s.fail = false := hs.1
  rw [Int.toNat_natCast, ← hfail]

section

variable {run : Nat → EStateM.Result CppExc IStream Unit} {forward : Nat → Prop}
  {s : IStream} {l : List UInt8} {p : Body × List UInt8}

/-- A length that is read first. -/
theorem does_of_readsAs {β : Type} {m : CppIn β} {f : List UInt8 → Option (β × List UInt8)}
    (hm : ReadsAs m f) {g : Nat → β → CppIn Unit} {k : β → Body} (hs : At s l)
    (hrun : ∀ n, run (n + 1) = (m >>= g n) s)
    (hg : ∀ a s', m s = .ok a s' → (∀ n, run (n + 1) = g n a s') → Does run forward (k a) s')
    (hp : (f l).map (fun a => (k a.1, a.2)) = some p) :
    ∃ s', At s' p.2 ∧ Same s s' ∧ Does run forward p.1 s' := by
  rcases Option.map_eq_some_iff.mp hp with ⟨a, ha, rfl⟩
  rcases hm hs ha with ⟨s', hok, hs', hsame⟩
  exact ⟨s', hs', hsame, hg a.1 s' hok fun n => (hrun n).trans (bind_of_ok hok)⟩

theorem getInt_does {g : Nat → BitVec 32 → CppIn Unit} {k : BitVec 32 → Body} (hs : At s l)
    (hrun : ∀ n, run (n + 1) = (getInt >>= g n) s)
    (hg : ∀ a s', getInt s = .ok a s' → (∀ n, run (n + 1) = g n a s') →
      Does run forward (k a) s')
    (hp : (numberAt 32 4 l).map (fun a => (k a.1, a.2)) = some p) :
    ∃ s', At s' p.2 ∧ Same s s' ∧ Does run forward p.1 s' :=
  does_of_readsAs (getNumber_readsAs 32 4) hs hrun hg hp

/-- The size of a `SIMPLE_LIST`. -/
theorem readInt_does (hs : At s l) (hforward : ∀ n, forward (n + 1))
    (hrun : ∀ n, run (n + 1) = (readInt >>= fun r => skip r.1.toInt) s)
    (hp : ((headAt l).bind fun h => sizeAt h.1.type h.2) = some p) :
    ∃ s', At s' p.2 ∧ Same s s' ∧ Does run forward p.1 s' := by
  rcases Option.bind_eq_some_iff.mp hp with ⟨h, hhead, hsize⟩
  rcases readHead_readsAs hs hhead with ⟨s₁, hok, hs₁, hsame₁⟩
  -- the value behind the header, and the move by it
  have hvalue : ∀ {β : Type} {m : CppIn β} {f : List UInt8 → Option (β × List UInt8)}
      (_ : ReadsAs m f) (g : β → BitVec 32), readInt s = (m >>= fun a => pure (g a, h.1.tag)) s₁ →
      (f h.2).map (fun a => (Body.move (g a.1).toInt, a.2)) = some p →
      ∃ s', At s' p.2 ∧ Same s s' ∧ Does run forward p.1 s' := by
    intro β m f hm g hread hp
    rcases Option.map_eq_some_iff.mp hp with ⟨a, ha, rfl⟩
    rcases hm hs₁ ha with ⟨s₂, hrun₂, hs₂, hsame₂⟩
    rw [bind_of_ok hrun₂] at hread
    have hskip : ∀ n, run (n + 1) = skip (g a.1).toInt s₂ := by
      intro n
      rw [hrun, bind_of_ok hread]
    exact ⟨s₂, hs₂, same_trans hsame₁ hsame₂, .move hskip hforward⟩
  have hread : readInt s = _ := bind_of_ok hok
  unfold sizeAt at hsize
  by_cases h0 : h.1.type = protoZeroTag
  · rw [if_pos h0] at hsize hread
    cases hsize
    exact ⟨s₁, hs₁, hsame₁, .move (fun n => (hrun n).trans (bind_of_ok hread)) hforward⟩
  rw [if_neg h0] at hsize hread
  by_cases h1 : h.1.type = protoByte
  · rw [if_pos h1] at hsize hread
    refine hvalue getChar_readsAs (fun c => c.toBitVec.setWidth 32) hread ?_
    rw [Option.map_map]
    exact hsize
  rw [if_neg h1] at hsize hread
  by_cases h2 : h.1.type = protoShort
  · rw [if_pos h2] at hsize
    rw [if_pos ⟨h2, by decide⟩] at hread
    exact hvalue getShort_readsAs (fun n => n.setWidth 32) hread hsize
  rw [if_neg h2] at hsize
  rw [if_neg fun hc => h2 hc.1] at hread
  by_cases h3 : h.1.type = protoInt
  · rw [if_pos h3] at hsize
    rw [if_pos ⟨h3, by decide⟩] at hread
    refine hvalue (getNumber_readsAs 32 4) (fun n => n.setWidth 32) hread ?_
    simpa only [BitVec.setWidth_eq] using hsize
  · rw [if_neg h3] at hsize
    rw [if_neg fun hc => h3 hc.1, if_neg fun hc => absurd hc.2 (by decide)] at hread
    cases hsize
    have herr : ∃ text s₂, readInt s = .error (.protoError text) s₂ := by
      rw [hread]
      exact error_tell _ s₁
    rcases herr with ⟨text, s₂, herr⟩
    exact ⟨s₁, hs₁, hsame₁, .invalid (fun n => (hrun n).trans (bind_of_error herr)) hforward⟩

/-- `skipField` does what the body says. -/
theorem skipField_does {type : UInt8} (ht : Tellable s) (hs : At s l)
    (hp : bodyAt type l = some p) : ∃ s', At s' p.2 ∧ Same s s' ∧
      Does (fun n => skipField n type s) (fun n => forwardField n type s) p.1 s' := by
  by_cases h6 : type = protoMap
  · subst h6
    refine getInt_does (k := fun n => .fields (n * 2).toInt.toNat) hs (fun _ => rfl)
      (fun a s' hok hrun => ?_) hp
    exact Does.fields hrun fun n => forwardField_map hok
  by_cases h7 : type = protoList
  · subst h7
    refine getInt_does (k := fun n => .fields n.toInt.toNat) hs (fun _ => rfl)
      (fun a s' hok hrun => ?_) hp
    exact Does.fields hrun fun n => forwardField_list hok
  have hforward := fun n => forwardField_of_ne h6 h7 n s
  have hfixed : ∀ len, some (.move len, l) = some p →
      (∀ n, skipField (n + 1) type s = skip len s) → ∃ s', At s' p.2 ∧ Same s s' ∧
        Does (fun n => skipField n type s) (fun n => forwardField n type s) p.1 s' := by
    intro len hp hrun
    cases hp
    exact ⟨s, hs, same_refl s, .move hrun hforward⟩
  by_cases h0 : type = protoByte
  · subst h0
    exact hfixed 1 hp fun _ => rfl
  by_cases h1 : type = protoShort
  · subst h1
    exact hfixed 2 hp fun _ => rfl
  by_cases h2 : type = protoInt ∨ type = protoFloat
  · rcases h2 with rfl | rfl
    · exact hfixed 4 hp fun _ => rfl
    · exact hfixed 4 hp fun _ => rfl
  by_cases h3 : type = protoLong ∨ type = protoDouble
  · rcases h3 with rfl | rfl
    · exact hfixed 8 hp fun _ => rfl
    · exact hfixed 8 hp fun _ => rfl
  by_cases h4 : type = protoString1
  · subst h4
    refine does_of_readsAs getChar_readsAs (k := fun c => .move c.toNat)
      (g := fun _ c => skip c.toNat) hs (fun _ => rfl)
      (fun c s' _ hrun => Does.move hrun hforward) ?_
    rw [Option.map_map]
    exact hp
  by_cases h5 : type = protoString4
  · subst h5
    exact getInt_does hs (fun _ => rfl) (fun a s' _ hrun => Does.move hrun hforward) hp
  by_cases h8 : type = protoStructBegin ∨ type = protoStructEnd ∨ type = protoZeroTag
  · rcases h8 with rfl | rfl | rfl
    · exact hfixed 0 hp fun _ => (skip_zero ht hs).symm
    · exact hfixed 0 hp fun _ => (skip_zero ht hs).symm
    · exact hfixed 0 hp fun _ => (skip_zero ht hs).symm
  by_cases h9 : type = protoSimpleList
  · subst h9
    rcases Option.bind_eq_some_iff.mp hp with ⟨h, hhead, hrest⟩
    rcases readHead_readsAs hs hhead with ⟨s₁, hok, hs₁, hsame₁⟩
    by_cases htype : h.1.type ≠ protoByte
    · rw [if_pos htype] at hrest
      cases hrest
      rcases error_tell (α := Unit)
        s!"Proto: skipField with invalid type, type value: {h.1.type} ." s₁ with ⟨text, s₂, herr⟩
      have hrun : ∀ n, skipField (n + 1) protoSimpleList s = .error (.protoError text) s₂ := by
        intro n
        show (readHead >>= _) s = _
        rw [bind_of_ok hok]
        dsimp only
        rw [if_pos htype, ← bind_assoc]
        exact bind_of_error herr
      exact ⟨s₁, hs₁, hsame₁, .invalid hrun hforward⟩
    · rw [if_neg htype] at hrest
      have hdoes : ∃ s', At s' p.2 ∧ Same s₁ s' ∧ Does (fun n => skipField n protoSimpleList s)
          (fun n => forwardField n protoSimpleList s) p.1 s' := by
        refine readInt_does hs₁ hforward (fun n => ?_) hrest
        show (readHead >>= _) s = _
        rw [bind_of_ok hok]
        dsimp only
        rw [if_neg htype]
      rcases hdoes with ⟨s₂, hs₂, hsame₂, hdoes⟩
      exact ⟨s₂, hs₂, same_trans hsame₁ hsame₂, hdoes⟩
  · have hbody : bodyAt type l = some (.invalid, l) := by
      unfold bodyAt
      simp only [h0, h1, h2, h3, h4, h5, h6, h7, h8, h9, if_false]
    rw [hbody] at hp
    cases hp
    have hrun : ∃ text s₁, ∀ n, skipField (n + 1) type s = .error (.protoError text) s₁ := by
      rcases error_tell (α := Unit)
        s!"Proto: unknown type when skipField, got type {Char.ofNat type.toNat} ." s with
        ⟨text, s₁, herr⟩
      refine ⟨text, s₁, fun n => ?_⟩
      unfold skipField
      simp only [h0, h1, h2, h3, h4, h5, h6, h7, h8, h9, if_false]
      exact herr
    rcases hrun with ⟨text, s₁, hrun⟩
    exact ⟨s, hs, same_refl s, .invalid hrun hforward⟩

end

/-! ## Skipping along the scan -/

section

variable (data : List UInt8)

/-- A string stream over the data, at `l`. -/
def On (s : IStream) (l : List UInt8) : Prop := Tellable s ∧ s.data = data ∧ At s l

/-- What a program does where the scan halts, and what becomes of its
rounds. -/
structure Out (m : Nat → CppIn Unit) (f : Nat → IStream → Prop) (N : Nat) (s : IStream)
    (q : Item UInt8) (k : List (Item UInt8)) (l : List UInt8) : Prop where
  invalid : ∀ type r, q = .body type → bodyAt type l = some (.invalid, r) →
    ∃ text s', ∀ n, N ≤ n → m n s = .error (.protoError text) s' ∧ f n s
  cutShort : ∀ len r, Declares format q l len r → r.length < len → k = [] →
    ∃ s', s'.fail = true ∧ data.length ≤ s'.pos + l.length ∧
      ∀ n, N ≤ n → m n s = .ok () s' ∧ f n s
  atEnd : AtEnd (q :: k, l) → data ≠ [] → ∀ n, N ≤ n → ¬f n s
  plain : ∀ tag, .search tag ∉ q :: k

/-- From `s` at `l` and with the fuel `N`, the program goes along with the
scan, and `f` says that its rounds go forward. -/
def Goes (m : Nat → CppIn Unit) (f : Nat → IStream → Prop) (N : Nat) (p : List (Item UInt8))
    (s : IStream) : List UInt8 → Prop :=
  Follows format (On data) (fun s' => ∀ n, N ≤ n → m n s = .ok () s' ∧ f n s)
    (Out data m f N s) p

variable {data} {m : Nat → CppIn Unit} {f : Nat → IStream → Prop} {N : Nat} {type : UInt8}
  {s s' : IStream} {l r : List UInt8}

theorem On.move (hon : On data s l) (hsame : Same s s') (hs' : At s' r) : On data s' r :=
  ⟨Tellable.of_same hsame hon.1, hsame.1.trans hon.2.1, hs'⟩

theorem On.length (hon : On data s l) : s.pos + l.length = data.length := by
  rw [← hon.2.1]
  exact at_length hon.2.2

/-- Two programs that run alike. -/
theorem Goes.run {g : Nat → CppIn Unit} {h : Nat → IStream → Prop} {M : Nat} {c : IStream}
    {p : List (Item UInt8)}
    (hm : ∀ n, N ≤ n → ∃ n', M ≤ n' ∧ m n s = g n' c ∧ (f n s ↔ h n' c))
    (hgoes : Goes data g h M p c l) : Goes data m f N p s l := by
  have hrun : ∀ {res}, (∀ n, M ≤ n → g n c = res ∧ h n c) → ∀ n, N ≤ n → m n s = res ∧ f n s := by
    intro res hres n hn
    rcases hm n hn with ⟨n', hn', heq, hiff⟩
    rw [heq, hiff]
    exact hres n' hn'
  refine Follows.imp hgoes (fun s₁ _ hok _ _ => hrun hok) fun q k l' _ hout => ?_
  refine ⟨fun type r hq hbody => ?_, fun len r hdecl hlt hk => ?_, fun hend hne n hn => ?_,
    hout.plain⟩
  · rcases hout.invalid type r hq hbody with ⟨text, s₁, herr⟩
    exact ⟨text, s₁, hrun herr⟩
  · rcases hout.cutShort len r hdecl hlt hk with ⟨s₁, hfail, hpos, hok⟩
    exact ⟨s₁, hfail, hpos, hrun hok⟩
  · rcases hm n hn with ⟨n', hn', _, hiff⟩
    rw [hiff]
    exact hout.atEnd hend hne n' hn'

/-- A step of the scan is a step of the program. -/
theorem Goes.step {g : Nat → CppIn Unit} {h : Nat → IStream → Prop} {M : Nat} {c : IStream}
    {p q : List (Item UInt8)}
    (hm : ∀ n, N ≤ n → ∃ n', M ≤ n' ∧ m n s = g n' c ∧ (f n s ↔ h n' c))
    (hstep : ∀ k, format.step (p ++ k, l) = some (q ++ k, r)) (hle : r.length ≤ l.length)
    (hgoes : Goes data g h M q c r) : Goes data m f N p s l := by
  have hscan : Goes data g h M p c l := Follows.step hgoes hstep hle
  exact hscan.run hm

/-- One program after the other. -/
theorem Goes.bind {g : Nat → CppIn Unit} {h : Nat → IStream → Prop} {p q : List (Item UInt8)}
    (hgoes : Goes data m f N p s l) (hq : q ≠ []) (hplain : ∀ tag, .search tag ∉ q)
    (hrest : ∀ s' r, On data s' r → r.length ≤ l.length → Goes data g h N q s' r) :
    Goes data (fun n => m n >>= fun _ => g n)
      (fun n s => f n s ∧ ∀ s', m n s = .ok () s' → h n s') N (p ++ q) s l := by
  refine Follows.bind hgoes (fun t k r hout => ?_) fun s₁ r hok hon hle => ?_
  · refine ⟨fun type r' ht hbody => ?_, fun _ _ _ _ hk => ?_, fun hend hne n hn hf => ?_,
      fun tag hmem => ?_⟩
    · rcases hout.invalid type r' ht hbody with ⟨text, s₁, herr⟩
      refine ⟨text, s₁, fun n hn => ⟨bind_of_error (herr n hn).1, (herr n hn).2, ?_⟩⟩
      intro s' hok
      rw [(herr n hn).1] at hok
      cases hok
    · exact absurd (List.append_eq_nil_iff.mp hk).2 hq
    · refine hout.atEnd ?_ hne n hn hf.1
      cases t <;> exact hend
    · rw [← List.cons_append, List.mem_append] at hmem
      exact hmem.elim (hout.plain tag) (hplain tag)
  · have hrun : ∀ n, N ≤ n → ∃ n', N ≤ n' ∧ (m n >>= fun _ => g n) s = g n' s₁ ∧
        ((f n s ∧ ∀ s', m n s = .ok () s' → h n s') ↔ h n' s₁) := by
      intro n hn
      refine ⟨n, hn, bind_of_ok (hok n hn).1, fun hf => hf.2 s₁ (hok n hn).1, fun hh => ?_⟩
      refine ⟨(hok n hn).2, fun s' heq => ?_⟩
      rw [(hok n hn).1] at heq
      cases heq
      exact hh
    have hgoes' : Goes data (fun n => m n >>= fun _ => g n)
        (fun n s => f n s ∧ ∀ s', m n s = .ok () s' → h n s') N q s r :=
      Goes.run hrun (hrest s₁ r hon hle)
    exact hgoes'

/-- Nothing is moved back. -/
theorem Goes.forward {start : Nat} {p : List (Item UInt8)} (hgoes : Goes data m f N p s l)
    (hon : On data s l) (hstart : start ≤ s.pos) :
    Goes data m (fun n s => f n s ∧ ∀ s', m n s = .ok () s' → start ≤ s'.pos) N p s l := by
  have hlen := hon.length
  have hforward : ∀ {s₁ : IStream} {r : List UInt8}, r.length ≤ l.length →
      data.length ≤ s₁.pos + r.length →
      (∀ n, N ≤ n → m n s = .ok () s₁ ∧ f n s) → ∀ n, N ≤ n → m n s = .ok () s₁ ∧
        f n s ∧ ∀ s', m n s = .ok () s' → start ≤ s'.pos := by
    intro s₁ r hle hpos hok n hn
    refine ⟨(hok n hn).1, (hok n hn).2, fun s' heq => ?_⟩
    rw [(hok n hn).1] at heq
    cases heq
    omega
  refine Follows.imp hgoes (fun s₁ r hok hon₁ hle => ?_) fun q k r hle hout => ?_
  · exact hforward hle (Nat.le_of_eq hon₁.length.symm) hok
  · refine ⟨fun type r' hq hbody => ?_, fun len r' hdecl hlt hk => ?_,
      fun hend hne n hn hf => hout.atEnd hend hne n hn hf.1, hout.plain⟩
    · rcases hout.invalid type r' hq hbody with ⟨text, s₁, herr⟩
      refine ⟨text, s₁, fun n hn => ⟨(herr n hn).1, (herr n hn).2, fun s' hok => ?_⟩⟩
      rw [(herr n hn).1] at hok
      cases hok
    · rcases hout.cutShort len r' hdecl hlt hk with ⟨s₁, hfail, hpos, hok⟩
      exact ⟨s₁, hfail, hpos, hforward hle hpos hok⟩

/-- Over a payload that is cut short, the position stays and the stream has
failed. -/
theorem skip_over {len : Int} (hon : On data s r) (hlt : r.length < len) :
    skip len s = .ok () { s with fail := true } := by
  have hlen := at_length hon.2.2
  unfold skip
  rw [bind_of_ok (tell_eq hon.1 hon.2.2)]
  unfold seek
  rw [if_neg (by omega)]

theorem goes_move {len : Int} (hbody : bodyAt type l = some (.move len, r))
    (hle : r.length ≤ l.length) (hon : On data s' r) (hm : ∀ n, N ≤ n → m n s = skip len s')
    (hf : ∀ n, N ≤ n → f n s) : Goes data m f N [.body type] s l := by
  have hdecl : Declares format (.body type) l len r := ⟨type, rfl, hbody⟩
  have hstep : ∀ k, format.step (.body type :: k, l) = Format.enter k (.move len, r) := by
    intro k
    show (bodyAt type l).bind (Format.enter k) = _
    rw [hbody]
    rfl
  by_cases hin : 0 ≤ len ∧ len ≤ r.length
  · have hlen : (r.take len.toNat).length = len.toNat := List.length_take_of_le (by omega)
    have hcast : len = ((r.take len.toNat).length : Int) := by omega
    rcases skip_reads len hcast s' (r.drop len.toNat) hon.1
      (by rw [List.take_append_drop]; exact hon.2.2) with ⟨s₁, hskip, hs₁, hsame⟩
    have hon₁ := hon.move hsame hs₁
    refine Or.inl ⟨s₁, _, fun n hn => ⟨(hm n hn).trans hskip, hf n hn⟩, hon₁, ?_, fun k => ?_⟩
    · rw [List.length_drop]
      omega
    · exact Relation.ReflTransGen.single ((hstep k).trans (enter_move hin))
  · refine Follows.halt (hdecl.halted hin) ⟨?_, ?_, fun hend => absurd hend id, by simp⟩
    · intro type' r' hq hinvalid
      cases hq
      rw [hbody] at hinvalid
      cases hinvalid
    · intro len' r' hdecl' hlt _
      rcases hdecl.unique hdecl' with ⟨rfl, rfl⟩
      have hlen := hon.length
      exact ⟨_, rfl, by show data.length ≤ s'.pos + l.length; omega,
        fun n hn => ⟨(hm n hn).trans (skip_over hon hlt), hf n hn⟩⟩

/-- A counted loop over fields. -/
theorem goes_repeat (k : Nat) (h : ∀ s r, On data s r → r.length ≤ l.length →
      Goes data skipAny forwardAny N [.field] s r) : ∀ s r, On data s r → r.length ≤ l.length →
    Goes data (fun n => repeatSkip (skipAny n) k) (fun n => Rounds (forwardAny n) (skipAny n) k) N
      (List.replicate k .field) s r := by
  induction k with
  | zero => exact fun s r hon _ => Follows.nil (fun _ _ => ⟨rfl, trivial⟩) hon
  | succ k ih =>
    intro s r hon hle
    cases k with
    | zero =>
      refine Goes.run (fun n hn => ⟨n, hn, ?_, ?_⟩) (h s r hon hle)
      · show (skipAny n >>= fun _ => pure ()) s = skipAny n s
        rw [bind_pure_unit]
      · exact ⟨fun hrounds => hrounds.1, fun hround => ⟨hround, fun _ _ => trivial⟩⟩
    | succ k =>
      exact Goes.bind (h s r hon hle) (List.cons_ne_nil _ _) (by simp [List.mem_replicate])
        fun s' r' hon' hle' => ih s' r' hon' (by omega)

theorem skipField_goes (hon : On data s l)
    (hfield : ∀ s r, On data s r → r.length < l.length →
      Goes data skipAny forwardAny N [.field] s r) (type : UInt8) :
    Goes data (fun n => skipField n type) (fun n => forwardField n type) (N + 1) [.body type] s
      l := by
  cases hbody : bodyAt type l with
  | none =>
    refine Follows.halt (fun k => ?_) ⟨?_, ?_, fun hend => absurd hend id, by simp⟩
    · show (bodyAt type l).bind (Format.enter k) = none
      rw [hbody]
      rfl
    · intro type' r hq hinvalid
      cases hq
      rw [hbody] at hinvalid
      cases hinvalid
    · intro len r hdecl
      rcases hdecl with ⟨type', hq, hmove⟩
      cases hq
      cases hbody.symm.trans hmove
  | some p =>
    have hlen := bodyAt_length hbody
    rcases skipField_does hon.1 hon.2.2 hbody with ⟨s', hs', hsame, hdoes⟩
    cases p with
    | mk body r =>
      have hon' : On data s' r := hon.move hsame hs'
      cases hdoes with
      | move hrun hforward =>
        exact goes_move hbody hlen.1 hon' (forall_of_succ fun n _ => hrun n)
          (forall_of_succ fun n _ => hforward n)
      | @fields k _ hrun hforward =>
        have hlt : r.length < l.length := hlen.2 k rfl
        refine Goes.step (g := fun n => repeatSkip (skipAny n) k)
          (h := fun n => Rounds (forwardAny n) (skipAny n) k) (M := N)
          (q := List.replicate k .field)
          (forall_of_succ fun n hn => ⟨n, hn, hrun n, hforward n⟩) (fun ks => ?_) hlen.1
          (goes_repeat k (fun s r hon hle => hfield s r hon (by omega)) s' r hon' (Nat.le_refl _))
        show (bodyAt type l).bind (Format.enter ks) = _
        rw [hbody]
        rfl
      | @invalid _ s₁ text hrun hforward =>
        refine Follows.halt (fun k => ?_) ⟨?_, ?_, fun hend => absurd hend id, by simp⟩
        · show (bodyAt type l).bind (Format.enter k) = none
          rw [hbody]
          rfl
        · exact fun _ _ _ _ => ⟨text, s₁, forall_of_succ fun n _ => ⟨hrun n, hforward n⟩⟩
        · intro len r' hdecl
          rcases hdecl with ⟨type', hq, hmove⟩
          cases hq
          cases hbody.symm.trans hmove

/-- A round at the end of the data goes to the first byte. -/
theorem not_forwardRound_end (hon : On data s []) (hne : data ≠ []) (n : Nat) :
    ¬forwardRound (n + 1) s.pos 0 { s with fail := true } := by
  intro hround
  have hlen := hon.length
  have hpos := List.length_pos_of_ne_nil hne
  have hback : s.pos ≤ 0 := hround.2 _ (skip_failed hon.1)
  rw [List.length_nil] at hlen
  omega

/-- A header, and the body behind it. -/
theorem goes_head {p : Item UInt8} {q : UInt8 → List (Item UInt8)} {g : Nat → UInt8 → CppIn Unit}
    {h : Nat → UInt8 → IStream → Prop} (hon : On data s l)
    (hm : ∀ n, N ≤ n → m (n + 1) s = (readHead >>= fun head => g n head.type) s)
    (hf : ∀ n, N ≤ n → (f (n + 1) s ↔ ∀ head s₁, readHead s = .ok head s₁ → h n head.type s₁))
    (hitem : ∀ k, format.next k l p = (format.head l).map fun h => (q h.1.1 ++ k, h.2))
    (hp : ∀ type, p ≠ .body type) (hplain : ∀ tag, p ≠ .search tag)
    (hend : ∀ n, On data s [] → data ≠ [] → N ≤ n → ¬h n 0 { s with fail := true })
    (hatEnd : AtEnd ([p], l) → l = [])
    (hnext : ∀ type s' r, On data s' r → r.length < l.length → s.pos ≤ s'.pos →
      Goes data (fun n => g n type) (fun n => h n type) N (q type) s' r) :
    Goes data m f (N + 1) [p] s l := by
  cases hl : headAt l with
  | none =>
    refine Follows.halt (fun k => ?_) ⟨?_, ?_, fun hat hne => ?_, fun tag hmem => ?_⟩
    · rw [hitem]
      show ((headAt l).map _).map _ = none
      rw [hl]
      rfl
    · exact fun type _ hq => absurd hq (hp type)
    · intro len r hdecl
      rcases hdecl with ⟨type, hq, _⟩
      exact absurd hq (hp type)
    · have hnil := hatEnd hat
      subst hnil
      refine forall_of_succ fun n hn hforward => ?_
      exact hend n hon hne hn ((hf n hn).mp hforward _ _ (readHead_nil hon.2.2))
    · rw [List.mem_singleton] at hmem
      exact hplain tag hmem.symm
  | some hd =>
    have hhead : format.head l = some ((hd.1.type, hd.1.tag.toBitVec.toInt), hd.2) := by
      show (headAt l).map _ = _
      rw [hl]
      rfl
    have hlen := headAt_length hl
    rcases readHead_readsAs hon.2.2 hl with ⟨s₁, hrun, hs₁, hsame⟩
    have hon₁ := hon.move hsame hs₁
    have hpos := hon.length
    have hpos₁ := hon₁.length
    refine Goes.step (g := fun n => g n hd.1.type) (h := fun n => h n hd.1.type) (M := N)
      (q := q hd.1.type) (forall_of_succ fun n hn => ⟨n, hn, ?_, ?_⟩) (fun k => ?_) (by omega)
      (hnext hd.1.type s₁ hd.2 hon₁ (by omega) (by omega))
    · exact (hm n hn).trans (bind_of_ok hrun)
    · rw [hf n hn, hrun]
      constructor
      · exact fun hall => hall _ _ rfl
      · intro hh head s' heq
        cases heq
        exact hh
    · show format.next k l p = _
      rw [hitem, hhead]
      rfl

/-- `skipField`, by induction on the fuel. -/
theorem goes (N : Nat) : ∀ s l, On data s l →
    (2 * l.length + 3 ≤ N → ∀ type,
      Goes data (fun n => skipField n type) (fun n => forwardField n type) N [.body type] s l) ∧
    (2 * l.length + 2 ≤ N → Goes data skipAny forwardAny N [.field] s l) := by
  induction N with
  | zero =>
    intro s l _
    constructor <;> intro hN <;> omega
  | succ N ih =>
    intro s l hon
    refine ⟨fun hN type => ?_, fun hN => ?_⟩
    · exact skipField_goes hon (fun s' r hon' hlt => (ih s' r hon').2 (by omega)) type
    · refine goes_head (q := fun type => [.body type]) (g := fun n type => skipField n type)
        (h := fun n type s₁ => forwardRound n s.pos type s₁) hon (fun _ _ => rfl)
        (fun _ _ => Iff.rfl) (fun k => rfl) nofun nofun (fun n hon' hne hn => ?_) id ?_
      · cases n with
        | zero => omega
        | succ n => exact not_forwardRound_end hon' hne n
      · intro type s' r hon' hlt hpos
        exact Goes.forward ((ih s' r hon').1 (by omega) type) hon' hpos

/-- `skipToStructEnd`, by induction on the fuel. -/
theorem skipToStructEnd_goes (N : Nat) : ∀ s l, On data s l → 2 * l.length + 2 ≤ N →
    Goes data skipToStructEnd forwardStructEnd N [.members] s l := by
  induction N with
  | zero =>
    intro s l _ hN
    omega
  | succ N ih =>
    intro s l hon hN
    refine goes_head (q := fun type => [.body type] ++
        if type = protoStructEnd then [] else [.members])
      (g := fun n type => skipField n type >>= fun _ =>
        if type = protoStructEnd then pure () else skipToStructEnd n)
      (h := fun n type s₁ => forwardRound n s.pos type s₁ ∧ ∀ s₂,
        skipField n type s₁ = .ok () s₂ → type ≠ protoStructEnd → forwardStructEnd n s₂)
      hon (fun _ _ => rfl) (fun _ _ => Iff.rfl) (fun k => ?_) nofun nofun
      (fun n hon' hne hn => ?_) id ?_
    · show (format.head l).map _ = _
      cases format.head l with
      | none => rfl
      | some h =>
        show some (.body h.1.1 :: (if h.1.1 = protoStructEnd then k else .members :: k), h.2) =
          some (.body h.1.1 :: ((if h.1.1 = protoStructEnd then [] else [.members]) ++ k), h.2)
        split <;> rfl
    · cases n with
      | zero => omega
      | succ n => exact fun hh => not_forwardRound_end hon' hne n hh.1
    · intro type s' r hon' hlt hpos
      have hround := Goes.forward ((goes N s' r hon').1 (by omega) type) hon' hpos
      by_cases htype : type = protoStructEnd
      · simp only [if_pos htype]
        refine Goes.run (fun n hn => ⟨n, hn, ?_, ?_⟩) hround
        · show (skipField n type >>= fun _ => pure ()) s' = _
          rw [bind_pure_unit]
        · exact ⟨fun hh => hh.1, fun hh => ⟨hh, fun _ _ hne => absurd htype hne⟩⟩
      · simp only [if_neg htype]
        have hrest := hround.bind (q := [.members]) (List.cons_ne_nil _ _) (by simp)
          fun s₁ r₁ hon₁ hle₁ => ih s₁ r₁ hon₁ (by omega)
        refine Goes.run (fun n hn => ⟨n, hn, rfl, ?_⟩) hrest
        exact ⟨fun hh => ⟨hh.1, fun s₁ hok => hh.2 s₁ hok htype⟩,
          fun hh => ⟨hh.1, fun s₁ hok _ => hh.2 s₁ hok⟩⟩

/-- Where a scan halts and has not gone astray, the program has thrown, or the
stream has failed behind the last of its items. -/
theorem Out.stops {q : Item UInt8} {k t : List (Item UInt8)} (hout : Out data m f N s q k l)
    (hhalt : Halted format q l) (hstray : ¬Astray (q :: (k ++ t), l)) :
    (∃ text s', ∀ n, N ≤ n → m n s = .error (.protoError text) s' ∧ f n s) ∨
      ∃ s', s'.fail = true ∧ ∀ n, N ≤ n → m n s = .ok () s' ∧ f n s := by
  have hhead : format.head l = none → headAt l = none := Option.map_eq_none_iff.mp
  cases q with
  | field => exact absurd (hhead (Option.map_eq_none_iff.mp (hhalt []))) hstray
  | members => exact absurd (hhead (Option.map_eq_none_iff.mp (hhalt []))) hstray
  | search tag => exact absurd List.mem_cons_self (hout.plain tag)
  | body type =>
    cases hbody : bodyAt type l with
    | none => exact absurd (Or.inl hbody) hstray
    | some p =>
      have hnone : Format.enter ([] : List (Item UInt8)) p = none := by
        have h := hhalt []
        rwa [show format.next [] l (.body type) = (bodyAt type l).bind (Format.enter []) from rfl,
          hbody] at h
      cases p with
      | mk body r =>
        cases body with
        | fields n => cases hnone
        | members => cases hnone
        | invalid => exact Or.inl (hout.invalid type r rfl hbody)
        | move len =>
          have hin : ¬(0 ≤ len ∧ len ≤ r.length) := by
            intro hin
            rw [enter_move hin] at hnone
            cases hnone
          have hneg : ¬len < 0 := fun hneg => hstray (Or.inr ⟨len, r, hbody, Or.inl hneg⟩)
          have hlt : (r.length : Int) < len := by omega
          have hk : k = [] := by
            cases k with
            | nil => rfl
            | cons p k =>
              refine absurd (Or.inr ⟨len, r, hbody, Or.inr ⟨hlt, p, k ++ t, rfl, ?_⟩⟩) hstray
              intro tag hp
              subst hp
              exact hout.plain tag (by simp)
          rcases hout.cutShort len r ⟨type, rfl, hbody⟩ hlt hk with ⟨s', hfail, _, hok⟩
          exact Or.inr ⟨s', hfail, hok⟩

end

/-! ## The search -/

/-- A value, or a `ProtoError`. -/
def Regular {α : Type} (r : EStateM.Result CppExc IStream α) : Prop :=
  (∃ a s, r = .ok a s) ∨ ∃ text s, r = .error (.protoError text) s

/-- What comes of a function whose scan halts. -/
structure Halts {α : Type} (data : List UInt8) (m : Nat → CppIn α) (f : Nat → IStream → Prop)
    (N : Nat) (s : IStream) (st : State UInt8 UInt8) : Prop where
  stops : ¬Astray st → ∃ r, Regular r ∧ ∀ n, N ≤ n → m n s = r ∧ f n s
  atEnd : AtEnd st → data ≠ [] → ∀ n, N ≤ n → ¬f n s

section

variable {data : List UInt8} {N : Nat} {s : IStream} {l : List UInt8}

/-- A header stops the search. -/
theorem skipToTag_stop {tag : Int} {h : ProtoHead × List UInt8} (hon : On data s l)
    (hl : headAt l = some h)
    (hstop : h.1.type = protoStructEnd ∨ tag ≤ h.1.tag.toBitVec.toInt) :
    ∃ found s', ∀ n, skipToTagLoop (n + 1) tag s = .ok found s' ∧ forwardTag (n + 1) tag s := by
  rcases readHead_readsAs hon.2.2 hl with ⟨s₁, hrun, _, _⟩
  have hforward : ∀ n, forwardTag (n + 1) tag s := by
    intro n _ head s' heq hne hle
    rw [hrun] at heq
    cases heq
    exact absurd (hstop.resolve_left hne) hle
  have hloop : ∀ n, skipToTagLoop (n + 1) tag s =
      (if h.1.type = protoStructEnd then pure false
      else if tag ≤ h.1.tag.toBitVec.toInt then
        if tag = h.1.tag.toBitVec.toInt then
          tell >>= fun p => seek (p - h.1.len) >>= fun _ => pure true
        else pure false
      else skipField n h.1.type >>= fun _ => skipToTagLoop n tag : CppIn Bool) s₁ := by
    intro n
    conv_lhs => unfold skipToTagLoop
    rw [bind_of_ok (good_eq hon.2.2)]
    show (readHead >>= _) s = _
    rw [bind_of_ok hrun]
  by_cases htype : h.1.type = protoStructEnd
  · refine ⟨false, s₁, fun n => ⟨?_, hforward n⟩⟩
    rw [hloop, if_pos htype]
    rfl
  have hle := hstop.resolve_left htype
  by_cases heq : tag = h.1.tag.toBitVec.toInt
  · have hseek : ∃ s', (tell >>= fun p => seek (p - h.1.len)) s₁ = .ok () s' := by
      have htell : ∃ p, tell s₁ = .ok p s₁ := ⟨_, rfl⟩
      rcases htell with ⟨p, htell⟩
      rw [bind_of_ok htell]
      unfold seek
      split <;> exact ⟨_, rfl⟩
    rcases hseek with ⟨s', hseek⟩
    refine ⟨true, s', fun n => ⟨?_, hforward n⟩⟩
    rw [hloop, if_neg htype, if_pos hle, if_pos heq]
    show (do (tell >>= fun p => seek (p - h.1.len)); pure true : CppIn Bool) s₁ = _
    rw [bind_of_ok hseek]
    rfl
  · refine ⟨false, s₁, fun n => ⟨?_, hforward n⟩⟩
    rw [hloop, if_neg htype, if_pos hle, if_neg heq]
    rfl

/-- A field below the tag is skipped in a round. -/
theorem skipToTag_round {tag : Int} {h : ProtoHead × List UInt8} {s₁ : IStream}
    (hon : On data s l) (hrun : readHead s = .ok h.1 s₁)
    (hgo : ¬(h.1.type = protoStructEnd ∨ tag ≤ h.1.tag.toBitVec.toInt)) (n : Nat) :
    skipToTagLoop (n + 1) tag s =
        (skipField n h.1.type >>= fun _ => skipToTagLoop n tag) s₁ ∧
      (forwardTag (n + 1) tag s ↔ forwardRound n s.pos h.1.type s₁ ∧
        ∀ s₂, skipField n h.1.type s₁ = .ok () s₂ → forwardTag n tag s₂) := by
  rw [not_or] at hgo
  constructor
  · conv_lhs => unfold skipToTagLoop
    rw [bind_of_ok (good_eq hon.2.2)]
    show (readHead >>= _) s = _
    rw [bind_of_ok hrun, if_neg hgo.1, if_neg hgo.2]
  · constructor
    · exact fun hforward => hforward hon.2.2.1 _ _ hrun hgo.1 hgo.2
    · intro hround _ head s' heq _ _
      rw [hrun] at heq
      cases heq
      exact hround

/-- A stream that has failed ends the search. -/
theorem skipToTagLoop_failed {tag : Int} (hfail : s.fail = true) (n : Nat) :
    skipToTagLoop (n + 1) tag s = .ok false s := by
  unfold skipToTagLoop
  rw [bind_of_ok (good_of_fail hfail)]
  rfl

theorem forwardTag_failed {tag : Int} (hfail : s.fail = true) (n : Nat) : forwardTag n tag s := by
  cases n with
  | zero => trivial
  | succ n =>
    intro hgood
    rw [hfail] at hgood
    cases hgood

/-- The search along the scan, by induction on the fuel. -/
theorem searches (tag : Int) (N : Nat) : ∀ s l, On data s l → 2 * l.length + 2 ≤ N →
    ∃ st, Reaches format.step ([.search tag], l) st ∧ format.step st = none ∧
      Halts data (fun n => skipToTagLoop n tag) (fun n => forwardTag n tag) N s st := by
  induction N with
  | zero =>
    intro s l _ hN
    omega
  | succ N ih =>
    intro s l hon hN
    cases hl : headAt l with
    | none =>
      refine ⟨([.search tag], l), Relation.ReflTransGen.refl, ?_, fun hstray => ?_,
        fun hend hne => forall_of_succ fun n hn hforward => ?_⟩
      · show ((headAt l).map _).bind _ = none
        rw [hl]
        rfl
      · have hat : l = [] ∧ tag ≤ 0 := by
          by_contra hat
          exact hstray ⟨hl, hat⟩
        rcases hat with ⟨rfl, htag⟩
        refine ⟨_, Or.inl ⟨_, _, rfl⟩, forall_of_succ fun n _ =>
          ⟨skipToTagLoop_nonpos hon.2.2 htag n, ?_⟩⟩
        intro _ head s' heq _ hle
        rw [readHead_nil hon.2.2] at heq
        cases heq
        exact absurd htag hle
      · rcases hend with ⟨rfl, htag⟩
        have hround := hforward hon.2.2.1 _ _ (readHead_nil hon.2.2) (by decide)
          (by show ¬tag ≤ 0; omega)
        cases n with
        | zero => omega
        | succ n => exact not_forwardRound_end hon hne n hround.1
    | some h =>
      by_cases hstop : h.1.type = protoStructEnd ∨ tag ≤ h.1.tag.toBitVec.toInt
      · rcases skipToTag_stop hon hl hstop with ⟨found, s', hrun⟩
        refine ⟨([.search tag], l), Relation.ReflTransGen.refl, ?_, fun _ =>
          ⟨_, Or.inl ⟨found, s', rfl⟩, forall_of_succ fun n _ => hrun n⟩, fun hend => ?_⟩
        · show ((headAt l).map _).bind _ = none
          rw [hl]
          exact if_pos hstop
        · rw [hend.1] at hl
          cases hl
      -- the header, the body and the rest of the search
      rcases readHead_readsAs hon.2.2 hl with ⟨s₁, hrun, hs₁, hsame⟩
      have hround := skipToTag_round hon hrun hstop
      have hlen := headAt_length hl
      have hon₁ := hon.move hsame hs₁
      have hpos := hon.length
      have hpos₁ := hon₁.length
      have hstep : format.step ([.search tag], l) =
          some ([.body h.1.type, .search tag], h.2) := by
        show ((headAt l).map _).bind _ = _
        rw [hl]
        exact if_neg hstop
      have hstart : s.pos ≤ s₁.pos := by omega
      rcases Goes.forward ((goes N s₁ h.2 hon₁).1 (by omega) h.1.type) hon₁ hstart with
        ⟨s₂, r, hok, hon₂, hle, hreach⟩ | ⟨q, k, l', hreach, hhalt, _, hout⟩
      · rcases ih s₂ r hon₂ (by omega) with ⟨st, hreach', hnone, hhalts⟩
        refine ⟨st, .head hstep ((hreach [.search tag]).trans hreach'), hnone, fun hstray => ?_,
          fun hend hne => forall_of_succ fun n hn hforward => ?_⟩
        · rcases hhalts.stops hstray with ⟨res, hregular, hres⟩
          refine ⟨res, hregular, forall_of_succ fun n hn =>
            ⟨?_, (hround n).2.mpr ⟨(hok n hn).2, ?_⟩⟩⟩
          · rw [(hround n).1, bind_of_ok (hok n hn).1]
            exact (hres n hn).1
          · intro s' heq
            cases heq.symm.trans (hok n hn).1
            exact (hres n hn).2
        · exact hhalts.atEnd hend hne n hn (((hround n).2.mp hforward).2 s₂ (hok n hn).1)
      · have hreach' : Reaches format.step ([.body h.1.type, .search tag], h.2)
            (q :: (k ++ [.search tag]), l') := hreach [.search tag]
        refine ⟨_, .head hstep hreach', hhalt _, fun hstray => ?_,
          fun hend hne => forall_of_succ fun n hn hforward => ?_⟩
        · rcases hout.stops hhalt hstray with ⟨text, s', herr⟩ | ⟨s', hfail, hok⟩
          · refine ⟨_, Or.inr ⟨text, s', rfl⟩, forall_of_succ fun n hn =>
              ⟨?_, (hround n).2.mpr ⟨(herr n hn).2, fun s₂ heq => ?_⟩⟩⟩
            · rw [(hround n).1]
              exact bind_of_error (herr n hn).1
            · cases heq.symm.trans (herr n hn).1
          · refine ⟨_, Or.inl ⟨false, s', rfl⟩, forall_of_succ fun n hn =>
              ⟨?_, (hround n).2.mpr ⟨(hok n hn).2, fun s₂ heq => ?_⟩⟩⟩
            · rw [(hround n).1, bind_of_ok (hok n hn).1]
              cases n with
              | zero => omega
              | succ n => exact skipToTagLoop_failed hfail n
            · cases heq.symm.trans (hok n hn).1
              exact forwardTag_failed hfail n
        · refine hout.atEnd ?_ hne n hn ((hround n).2.mp hforward).1
          cases q <;> exact hend

/-- The other functions along the scan. -/
theorem Goes.halts {m : Nat → CppIn Unit} {f : Nat → IStream → Prop} {p : Item UInt8}
    (h : Goes data m f N [p] s l) :
    ∃ st, Reaches format.step ([p], l) st ∧ format.step st = none ∧ Halts data m f N s st := by
  rcases h with ⟨s', r, hok, _, _, hreach⟩ | ⟨q, k, l', hreach, hhalt, _, hout⟩
  · exact ⟨([], r), hreach [], rfl, fun _ => ⟨_, Or.inl ⟨(), s', rfl⟩, hok⟩,
      fun hend => absurd hend id⟩
  · refine ⟨(q :: (k ++ []), l'), hreach [], hhalt _, fun hstray => ?_, fun hend => ?_⟩
    · rcases hout.stops hhalt hstray with ⟨text, s', herr⟩ | ⟨s', _, hok⟩
      · exact ⟨_, Or.inr ⟨text, s', rfl⟩, herr⟩
      · exact ⟨_, Or.inl ⟨(), s', rfl⟩, hok⟩
    · refine hout.atEnd ?_
      cases q <;> exact hend

/-- What `skipToTag` catches is an answer. -/
theorem halts_skipToTag {tag : Int} {st : State UInt8 UInt8}
    (h : Halts data (fun n => skipToTagLoop n tag) (fun n => forwardTag n tag) N s st) :
    Halts data (fun n => skipToTag n tag) (fun n => forwardTag n tag) N s st := by
  refine ⟨fun hstray => ?_, h.atEnd⟩
  rcases h.stops hstray with ⟨r, hregular, hrun⟩
  have hcatch : ∀ n, N ≤ n → skipToTag n tag s =
      catchError (fun _ => r) s := by
    intro n hn
    unfold skipToTag catchError
    rw [(hrun n hn).1]
  rcases hregular with ⟨found, s', rfl⟩ | ⟨text, s', rfl⟩
  · exact ⟨_, Or.inl ⟨found, s', rfl⟩, fun n hn => ⟨hcatch n hn, (hrun n hn).2⟩⟩
  · exact ⟨_, Or.inl ⟨false, s', rfl⟩, fun n hn => ⟨hcatch n hn, (hrun n hn).2⟩⟩

/-! ## An empty stream -/

/-- On an empty stream, the first byte is the end of the data. -/
theorem On.restart (hon : On [] s l) : On [] { s with pos := 0, fail := false } [] :=
  ⟨hon.1, hon.2.1, rfl, Nat.zero_le _, hon.2.1⟩

/-- There, a search for a positive tag never ends. -/
theorem skipToTag_empty {tag : Int} (htag : 0 < tag) (n : Nat) : ∀ s, On [] s [] →
    ∃ s', skipToTag n tag s = .error .outOfFuel s' := by
  have hloop : ∀ n s, On [] s [] → ∃ s', skipToTagLoop n tag s = .error .outOfFuel s' := by
    intro n
    induction n with
    | zero => exact fun s _ => ⟨s, rfl⟩
    | succ n ih =>
      intro s hon
      rw [skipToTagLoop_nil tag hon.2.2, if_neg (by omega)]
      cases n with
      | zero => exact ⟨_, rfl⟩
      | succ n =>
        rcases ih _ hon.restart with ⟨s', herr⟩
        have hskip : skipField (n + 1) protoByte { s with fail := true } = _ := skip_failed hon.1
        rw [bind_of_ok hskip]
        exact ⟨s', herr⟩
  intro s hon
  rcases hloop n s hon with ⟨s', herr⟩
  refine ⟨s', ?_⟩
  unfold skipToTag catchError
  rw [herr]

/-- Neither does the end of a struct. -/
theorem skipToStructEnd_empty (n : Nat) : ∀ s, On [] s [] →
    ∃ s', skipToStructEnd n s = .error .outOfFuel s' := by
  induction n with
  | zero => exact fun s _ => ⟨s, rfl⟩
  | succ n ih =>
    intro s hon
    unfold skipToStructEnd
    rw [bind_of_ok (readHead_nil hon.2.2)]
    cases n with
    | zero => exact ⟨_, rfl⟩
    | succ n =>
      rcases ih _ hon.restart with ⟨s', herr⟩
      have hskip : skipField (n + 1) protoByte { s with fail := true } = _ := skip_failed hon.1
      refine ⟨s', ?_⟩
      show (skipField (n + 1) protoByte >>= fun _ => skipToStructEnd (n + 1))
        { s with fail := true } = _
      rw [bind_of_ok hskip]
      exact herr

end

/-! ## When the functions end -/

/-- The scan does not go astray. -/
def Straight (st : State UInt8 UInt8) : Prop := ∀ st', Reaches format.step st st' → ¬Astray st'

/-- The scan comes to the end of the data and asks for a header. -/
def RunsOut (st : State UInt8 UInt8) : Prop := ∃ st', Reaches format.step st st' ∧ AtEnd st'

/-- A function returns or throws a `ProtoError`, with any fuel from some on,
and no round of a loop moves back. -/
def SkipsForward {α : Type} (m : Nat → CppIn α) (f : Nat → IStream → Prop) (s : IStream) : Prop :=
  ∃ r, Regular r ∧ ∃ N, ∀ n, N ≤ n → m n s = r ∧ f n s

/-- The function skips forward when the scan does not go astray, and it does
not when the scan runs out of data. -/
def Settles {α : Type} (m : Nat → CppIn α) (f : Nat → IStream → Prop) (p : Item UInt8)
    (s : IStream) (l : List UInt8) : Prop :=
  (Straight ([p], l) → SkipsForward m f s) ∧
    (RunsOut ([p], l) → s.data ≠ [] → ¬SkipsForward m f s)

theorem step_atEnd {st : State UInt8 UInt8} (h : AtEnd st) : format.step st = none := by
  cases st with
  | mk k l =>
    cases k with
    | nil => rfl
    | cons p k =>
      cases p with
      | body type => exact absurd h id
      | field =>
        subst h
        rfl
      | members =>
        subst h
        rfl
      | search tag =>
        rcases h with ⟨rfl, _⟩
        rfl

theorem settles_of_halts {α : Type} {m : Nat → CppIn α} {f : Nat → IStream → Prop}
    {p : Item UInt8} {N : Nat} {s : IStream} {l : List UInt8}
    (h : ∃ st, Reaches format.step ([p], l) st ∧ format.step st = none ∧ Halts s.data m f N s st) :
    Settles m f p s l := by
  rcases h with ⟨st, hreach, hnone, hhalts⟩
  constructor
  · intro hstraight
    rcases hhalts.stops (hstraight st hreach) with ⟨r, hregular, hrun⟩
    exact ⟨r, hregular, N, hrun⟩
  · intro hout hne hskips
    rcases hout with ⟨st', hreach', hend⟩
    cases reaches_unique hreach hnone hreach' (step_atEnd hend)
    rcases hskips with ⟨r, _, M, hrun⟩
    exact hhalts.atEnd hend hne _ (Nat.le_max_left N M) (hrun _ (Nat.le_max_right N M)).2

theorem not_skipsForward {α : Type} {m : Nat → CppIn α} {f : Nat → IStream → Prop} {s : IStream}
    (h : ∀ n, ∃ s', m n s = .error .outOfFuel s') : ¬SkipsForward m f s := by
  intro hskips
  rcases hskips with ⟨r, hregular, N, hrun⟩
  rcases h N with ⟨s', herr⟩
  have hr := (hrun N (Nat.le_refl N)).1
  rw [herr] at hr
  subst hr
  rcases hregular with ⟨_, _, hr⟩ | ⟨_, _, hr⟩ <;> cases hr

section

variable {s : IStream} {l : List UInt8}

theorem settles_skipToTag (ht : Tellable s) (hs : At s l) (tag : Int) :
    Settles (fun n => skipToTag n tag) (fun n => forwardTag n tag) (.search tag) s l := by
  rcases searches tag (2 * l.length + 2) s l ⟨ht, rfl, hs⟩ (Nat.le_refl _) with
    ⟨st, hreach, hnone, hhalts⟩
  exact settles_of_halts ⟨st, hreach, hnone, halts_skipToTag hhalts⟩

/-- For every string stream and position: each of the functions ends and goes
forward when its scan does not go astray, and it does not when the scan runs
out of data.  On an empty stream, neither a search for a positive tag nor
`skipToStructEnd` ends. -/
theorem skipping_ends (ht : Tellable s) (hs : At s l) :
    (∀ tag, Settles (fun n => skipToTag n tag) (fun n => forwardTag n tag) (.search tag) s l) ∧
    Settles skipToStructEnd forwardStructEnd .members s l ∧
    (∀ type, Settles (fun n => skipField n type) (fun n => forwardField n type) (.body type) s l) ∧
    Settles skipAny forwardAny .field s l ∧
    (s.data = [] → (∀ tag, 0 < tag →
        ¬SkipsForward (fun n => skipToTag n tag) (fun n => forwardTag n tag) s) ∧
      ¬SkipsForward skipToStructEnd forwardStructEnd s) := by
  have hon : On s.data s l := ⟨ht, rfl, hs⟩
  refine ⟨settles_skipToTag ht hs, ?_, fun type => ?_, ?_, fun hnil => ?_⟩
  · exact settles_of_halts (skipToStructEnd_goes (2 * l.length + 2) s l hon (Nat.le_refl _)).halts
  · exact settles_of_halts ((goes (2 * l.length + 3) s l hon).1 (Nat.le_refl _) type).halts
  · exact settles_of_halts ((goes (2 * l.length + 2) s l hon).2 (Nat.le_refl _)).halts
  · have hl : l = [] := by
      have hlen := hon.length
      rw [hnil, List.length_nil] at hlen
      exact List.length_eq_zero_iff.mp (by omega)
    rw [hnil, hl] at hon
    exact ⟨fun tag htag => not_skipsForward fun n => skipToTag_empty htag n s hon,
      not_skipsForward fun n => skipToStructEnd_empty n s hon⟩

end

/-- A `BYTE` is skipped, and the field behind it is found. -/
theorem skipping_ends_byte : SkipsForward (fun n => skipToTag n 1) (fun n => forwardTag n 1)
    (IStream.of [0x00, 5, 0x1C]) := by
  refine ((skipping_ends ⟨rfl, by decide⟩ (at_of [0x00, 5, 0x1C])).1 1).1 fun st hreach => ?_
  rcases Relation.ReflTransGen.cases_head hreach with rfl | ⟨st₁, hstep, hreach⟩
  · exact fun hstray => nomatch hstray.1
  cases hstep
  rcases Relation.ReflTransGen.cases_head hreach with rfl | ⟨st₂, hstep, hreach⟩
  · intro hstray
    rcases hstray with hnone | ⟨len, r, hbody, hlen⟩
    · cases hnone
    · cases hbody
      exact absurd hlen (by simp)
  cases hstep
  rcases Relation.ReflTransGen.cases_head hreach with rfl | ⟨st₃, hstep, _⟩
  · exact fun hstray => nomatch hstray.1
  · cases hstep

/-- Tag 1 is searched behind the only field, which has tag 0. -/
theorem not_always_ends : ¬∀ (s : IStream) (l : List UInt8) (tag : Int), Tellable s → At s l →
    SkipsForward (fun n => skipToTag n tag) (fun n => forwardTag n tag) s := by
  intro h
  have ht : Tellable (IStream.of [0x0C]) := ⟨rfl, by decide⟩
  have hreach : Reaches format.step ([.search 1], [0x0C]) ([.search 1], []) :=
    .head rfl (.head rfl .refl)
  have hout : RunsOut ([.search 1], [0x0C]) := ⟨_, hreach, rfl, by decide⟩
  exact (settles_skipToTag ht (at_of [0x0C]) 1).2 hout (by decide) (h _ _ 1 ht (at_of [0x0C]))

end OCServer.Cpp
