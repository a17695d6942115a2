import OCServer.Lib.FieldScan
import OCServer.Lib.Fuel
import OCServer.Proto.JavaAccept
import OCServer.Proto.JavaSkip

/-!
# `ProtoInputStream.skipToTag` on any bytes

A request starts with `skipToTag`, so that it runs over bytes that nobody
has checked.  `format` says which headers, lengths and sizes the reader
sees, and the scan of `FieldScan` which fields it comes to.

As long as every length that the scan meets is within what is left of the
buffer, `skipToTag` answers, and never moves back.  A length that leads out
of the buffer is an `IllegalArgumentException`, which `skipToTag` does not
catch.
-/

namespace OCServer.Java

open BigEndian ByteIO ByteSource FieldScan Fuel StateTransition

/-! ## The format -/

/-- A header, as `readHead` returns it. -/
def headAt : List UInt8 → Option ((HeadData × Nat) × List UInt8)
  | [] => none
  | b :: r =>
    if (b &&& 0xF0) >>> 4 = 15 then
      r.head?.map fun t => ((⟨b &&& 0xF, t.toNat⟩, 2), r.tail)
    else some ((⟨b &&& 0xF, ((b &&& 0xF0) >>> 4).toNat⟩, 1), r)

/-- An `int` behind its header. -/
def intAt (type : UInt8) (l : List UInt8) : Option (BitVec 32 × List UInt8) :=
  if type = protoZeroTag then some (0, l)
  else if type = protoByte then (numberAt 8 1 l).map fun n => (n.1.signExtend 32, n.2)
  else if type = protoShort then (numberAt 16 2 l).map fun n => (n.1.signExtend 32, n.2)
  else if type = protoInt then (numberAt 32 4 l).map fun n => (n.1.signExtend 32, n.2)
  else none

/-- A field at tag 0. -/
def tagZero (l : List UInt8) : Bool :=
  (headAt l).any fun h => h.1.1.type ≠ protoStructEnd ∧ h.1.1.tag = 0

/-- The size of a container: an `int` at tag 0. -/
def sizeAt (l : List UInt8) : Option (BitVec 32 × List UInt8) :=
  if tagZero l then (headAt l).bind fun h => intAt h.1.1.type h.2 else none

/-- What follows a header. -/
def bodyAt (type : UInt8) (l : List UInt8) : Option (Body × List UInt8) :=
  if type = protoByte then some (.move 1, l)
  else if type = protoShort then some (.move 2, l)
  else if type = protoInt then some (.move 4, l)
  else if type = protoLong then some (.move 8, l)
  else if type = protoFloat then some (.move 4, l)
  else if type = protoDouble then some (.move 8, l)
  else if type = protoString1 then (numberAt 8 1 l).map fun n => (.move n.1.toNat, n.2)
  else if type = protoString4 then (numberAt 32 4 l).map fun n => (.move n.1.toInt, n.2)
  else if type = protoMap then
    (sizeAt l).map fun n => (.fields (n.1 * 2).toInt.toNat, n.2)
  else if type = protoList then (sizeAt l).map fun n => (.fields n.1.toInt.toNat, n.2)
  else if type = protoSimpleList then
    (headAt l).bind fun h =>
      if h.1.1.type = protoByte then (sizeAt h.2).map fun n => (.move n.1.toInt, n.2) else none
  else if type = protoStructBegin then some (.members, l)
  else if type = protoStructEnd ∨ type = protoZeroTag then some (.move 0, l)
  else some (.invalid, l)

/-- The format as `ProtoInputStream` skips it. -/
def format : Format UInt8 UInt8 where
  head l := (headAt l).map fun h => ((h.1.1.type, h.1.1.tag), h.2)
  body := bodyAt
  closes type := type = protoStructEnd
  decCloses := fun type => inferInstanceAs (Decidable (type = protoStructEnd))

/-- A move that leads out of a buffer with this limit, in front of `r`. -/
def Leaves (limit : Nat) (len : Int) (r : List UInt8) : Prop :=
  (r.length : Int) < len ∨ len < 0 ∧ (limit : Int) - r.length + len < 0

/-! ## Reading the lengths -/

/-- What `skipToTag` catches. -/
def Caught : JExc → Prop
  | .decode _ => True
  | .bufferUnderflow => True
  | _ => False

/-- `m` reads what `f` parses, and throws what is caught when there is
nothing to parse. -/
structure Parses {β : Type} (m : JIn β) (f : List UInt8 → Option (β × List UInt8)) : Prop where
  reads : ReadsAs m f
  fails : ∀ {b l}, At b l → f l = none →
    ∃ e b', m b = .error e b' ∧ Caught e ∧ Same b b' ∧ b.pos ≤ b'.pos
  shrinks : ∀ {l p}, f l = some p → p.2.length ≤ l.length

theorem pos_le_of_at {b b' : JBuf} {l r : List UInt8} (hb : At b l) (hb' : At b' r)
    (hsame : Same b b') (hle : r.length ≤ l.length) : b.pos ≤ b'.pos := by
  have hlen := at_length hb
  have hlen' := at_length hb'
  have hlimit : b'.limit = b.limit := hsame.2
  have := b.pos_le
  have := b'.pos_le
  omega

theorem Parses.pure {β : Type} (a : β) : Parses (pure a) fun l => some (a, l) where
  reads := ReadsAs.pure a
  fails _ hp := nomatch hp
  shrinks hp := by
    cases hp
    exact Nat.le_refl _

theorem Parses.throw {β : Type} (message : String) :
    Parses (throw (.decode message) : JIn β) fun _ => none where
  reads _ _ _ _ hp := nomatch hp
  fails {b _} _ _ := ⟨_, b, rfl, trivial, same_refl b, Nat.le_refl _⟩
  shrinks hp := nomatch hp

theorem Parses.bind {β γ : Type} {m : JIn β} {f : List UInt8 → Option (β × List UInt8)}
    {g : β → JIn γ} {h : β → List UInt8 → Option (γ × List UInt8)} (hm : Parses m f)
    (hg : ∀ a, Parses (g a) (h a)) : Parses (m >>= g) fun l => (f l).bind fun p => h p.1 p.2 where
  reads := hm.reads.bind fun a => (hg a).reads
  fails {b l} hb hp := by
    cases hq : f l with
    | none =>
      rcases hm.fails hb hq with ⟨e, b₁, herr, hrest⟩
      exact ⟨e, b₁, bind_of_error herr, hrest⟩
    | some q =>
      rw [hq] at hp
      rcases hm.reads hb hq with ⟨b₁, h₁, hb₁, hsame₁⟩
      rcases (hg q.1).fails hb₁ hp with ⟨e, b₂, herr, hcaught, hsame₂, hle⟩
      have hle₁ := pos_le_of_at hb hb₁ hsame₁ (hm.shrinks hq)
      exact ⟨e, b₂, (bind_of_ok h₁).trans herr, hcaught, same_trans hsame₁ hsame₂, by omega⟩
  shrinks {l p} hp := by
    rcases Option.bind_eq_some_iff.mp hp with ⟨q, hq, hp⟩
    exact Nat.le_trans ((hg q.1).shrinks hp) (hm.shrinks hq)

theorem Parses.map {β γ : Type} {m : JIn β} {f : List UInt8 → Option (β × List UInt8)}
    (hm : Parses m f) (g : β → γ) :
    Parses (m >>= fun a => Pure.pure (g a)) fun l => (f l).map fun p => (g p.1, p.2) := by
  rw [map_eq_bind]
  exact hm.bind fun a => Parses.pure (g a)

theorem Parses.ite {β : Type} {c : Prop} [Decidable c] {m m' : JIn β}
    {f f' : List UInt8 → Option (β × List UInt8)} (h : c → Parses m f) (h' : ¬c → Parses m' f') :
    Parses (if c then m else m') fun l => if c then f l else f' l := by
  by_cases hc : c
  · simpa only [if_pos hc] using h hc
  · simpa only [if_neg hc] using h' hc

theorem getBytes_parses (n : Nat) :
    Parses (getBytes n) fun l => if n ≤ l.length then some (l.take n, l.drop n) else none where
  reads b l p hb hp := by
    rw [Option.ite_none_right_eq_some] at hp
    rcases hp with ⟨hle, hp⟩
    cases hp
    have hlen : (l.take n).length = n := List.length_take_of_le hle
    rcases getBytes_reads (l.take n) b (l.drop n) (by rwa [List.take_append_drop])
      with ⟨b', hrun, hb', hsame⟩
    rw [hlen] at hrun
    exact ⟨b', hrun, hb', hsame⟩
  fails {b l} hb hp := by
    have hlen := at_length hb
    have hlt : ¬n ≤ l.length := by
      intro hle
      rw [if_pos hle] at hp
      cases hp
    refine ⟨.bufferUnderflow, b, ?_, trivial, same_refl b, Nat.le_refl _⟩
    unfold getBytes
    rw [dif_neg (by omega)]
  shrinks {l p} hp := by
    rw [Option.ite_none_right_eq_some] at hp
    rcases hp with ⟨_, hp⟩
    cases hp
    simp

theorem getBits_parses (k w : Nat) : Parses (getBits k w) (numberAt k w) := by
  have h := (getBytes_parses w).map fun bs => BitVec.ofNat k (beVal bs)
  have heq : numberAt k w = fun l =>
      (if w ≤ l.length then some (l.take w, l.drop w) else none).map
        fun p => (BitVec.ofNat k (beVal p.1), p.2) := by
    funext l
    unfold numberAt
    split <;> rfl
  rw [heq]
  exact h

theorem readHead_parses : Parses readHead headAt := by
  have heq : headAt = fun l => (numberAt 8 1 l).bind fun p =>
      if (UInt8.ofBitVec p.1 &&& 0xF0) >>> 4 = 15 then
        (numberAt 8 1 p.2).map fun q => ((⟨UInt8.ofBitVec p.1 &&& 0xF, q.1.toNat⟩, 2), q.2)
      else some ((⟨UInt8.ofBitVec p.1 &&& 0xF, ((UInt8.ofBitVec p.1 &&& 0xF0) >>> 4).toNat⟩, 1),
        p.2) := by
    funext l
    cases l with
    | nil => rfl
    | cons b r =>
      rw [numberAt_cons]
      by_cases htag : (b &&& 0xF0) >>> 4 = 15
      · simp only [headAt, Option.bind_some, UInt8.ofBitVec_toBitVec, if_pos htag]
        cases r with
        | nil => rfl
        | cons t r =>
          rw [numberAt_cons]
          rfl
      · simp only [headAt, Option.bind_some, UInt8.ofBitVec_toBitVec, if_neg htag]
  rw [heq]
  have htag (type : UInt8) := (getBits_parses 8 1).map fun t : BitVec 8 =>
    ((⟨type, t.toNat⟩, 2) : HeadData × Nat)
  exact (getBits_parses 8 1).bind fun b => Parses.ite (fun _ => htag _) fun _ => Parses.pure _

/-- The two shapes of a header. -/
theorem headAt_cases {l : List UInt8} {h : (HeadData × Nat) × List UInt8}
    (hl : headAt l = some h) :
    (∃ b, l = b :: h.2 ∧ h.1 = (⟨b &&& 0xF, ((b &&& 0xF0) >>> 4).toNat⟩, 1)) ∨
      ∃ b t, l = b :: t :: h.2 ∧ h.1 = (⟨b &&& 0xF, t.toNat⟩, 2) := by
  cases l with
  | nil => cases hl
  | cons b r =>
    by_cases htag : (b &&& 0xF0) >>> 4 = 15
    · simp only [headAt, if_pos htag] at hl
      cases r with
      | nil => cases hl
      | cons t r =>
        cases hl
        exact Or.inr ⟨b, t, rfl, rfl⟩
    · simp only [headAt, if_neg htag] at hl
      cases hl
      exact Or.inl ⟨b, rfl, rfl⟩

/-- A header takes one or two bytes. -/
theorem headAt_eq {l : List UInt8} {h : (HeadData × Nat) × List UInt8} (hl : headAt l = some h) :
    ∃ bs, l = bs ++ h.2 ∧ bs.length = h.1.2 ∧ 0 < bs.length := by
  rcases headAt_cases hl with ⟨b, hl, hhead⟩ | ⟨b, t, hl, hhead⟩
  · exact ⟨[b], hl, by rw [hhead]; rfl, by simp⟩
  · exact ⟨[b, t], hl, by rw [hhead]; rfl, by simp⟩

theorem headAt_tag {l : List UInt8} {h : (HeadData × Nat) × List UInt8}
    (hl : headAt l = some h) : 0 ≤ h.1.1.tag := by
  rcases headAt_cases hl with ⟨b, -, hhead⟩ | ⟨b, t, -, hhead⟩
  · rw [hhead]
    exact Int.natCast_nonneg _
  · rw [hhead]
    exact Int.natCast_nonneg _

theorem headAt_length {l : List UInt8} {h : (HeadData × Nat) × List UInt8}
    (hl : headAt l = some h) : h.2.length < l.length := by
  rcases headAt_eq hl with ⟨bs, rfl, _, hpos⟩
  rw [List.length_append]
  omega

theorem integerBody_parses : Parses (integerBody 32 protoInt) fun l =>
    (headAt l).bind fun h => intAt h.1.1.type h.2 := by
  refine readHead_parses.bind (h := fun h l => intAt h.1.type l) fun h => ?_
  unfold intAt
  refine .ite (fun _ => .pure _) fun _ => ?_
  refine .ite (fun _ => (getBits_parses 8 1).map _) fun _ => ?_
  have hshort : protoShort ≤ protoInt := by decide
  have hlong : ¬protoLong ≤ protoInt := by decide
  simp only [hshort, hlong, and_true, and_false, if_false, UInt8.le_refl]
  refine .ite (fun _ => (getBits_parses 16 2).map _) fun _ => ?_
  exact .ite (fun _ => (getBits_parses 32 4).map _) fun _ => .throw _

theorem peakHead_parses {b : JBuf} {l : List UInt8} (hb : At b l) :
    (∀ h, headAt l = some h → peakHead b = .ok h.1 b) ∧
      (headAt l = none → ∃ e, peakHead b = .error e b ∧ Caught e) := by
  unfold peakHead
  constructor
  · intro h hl
    rcases readHead_parses.reads hb hl with ⟨b', hrun, _⟩
    rw [hrun]
  · intro hl
    rcases readHead_parses.fails hb hl with ⟨e, b', hrun, hcaught, _⟩
    rw [hrun]
    exact ⟨e, rfl, hcaught⟩

theorem catchIn_of_ok {β : Type} {m : JIn β} {handle : JExc → JIn β} {b b' : JBuf} {a : β}
    (h : m b = .ok a b') : catchIn m handle b = .ok a b' := by
  unfold catchIn
  rw [h]

theorem catchIn_of_error {β : Type} {m : JIn β} {handle : JExc → JIn β} {b b' : JBuf} {e : JExc}
    (h : m b = .error e b') : catchIn m handle b = handle e b' := by
  unfold catchIn
  rw [h]

theorem handler_caught {e : JExc} (h : Caught e) (b : JBuf) :
    skipToTagHandler e b = .ok false b := by
  cases e with
  | decode _ => rfl
  | bufferUnderflow => rfl
  | _ => exact absurd h id

theorem intAt_length {type : UInt8} {l : List UInt8} {p : BitVec 32 × List UInt8}
    (h : intAt type l = some p) : p.2.length ≤ l.length := by
  have hnumber : ∀ {k w : Nat}, (numberAt k w l).map (fun n => (n.1.signExtend 32, n.2)) = some p →
      p.2.length ≤ l.length := by
    intro k w hmap
    rcases Option.map_eq_some_iff.mp hmap with ⟨q, hq, rfl⟩
    exact (getBits_parses k w).shrinks hq
  unfold intAt at h
  split at h
  · cases h
    exact Nat.le_refl _
  split at h
  · exact hnumber h
  split at h
  · exact hnumber h
  split at h
  · exact hnumber h
  · cases h

/-- The search for tag 0 stops at the first header. -/
theorem skipToTag_zero (fuel : Nat) {b : JBuf} {l : List UInt8} (hb : At b l) :
    skipToTag (fuel + 1) 0 b = .ok (tagZero l) b := by
  unfold skipToTag skipToTagLoop catchIn tagZero
  cases hl : headAt l with
  | none =>
    rcases (peakHead_parses hb).2 hl with ⟨e, hpeak, hcaught⟩
    rw [bind_of_error hpeak]
    exact handler_caught hcaught b
  | some h =>
    rw [bind_of_ok ((peakHead_parses hb).1 h hl)]
    dsimp only
    by_cases htype : h.1.1.type = protoStructEnd
    · rw [if_pos htype]
      simp [htype, pure, EStateM.pure]
    · have hbeq : ((0 : Int) == h.1.1.tag) = decide (h.1.1.tag = 0) := by
        rw [Bool.eq_iff_iff, beq_iff_eq, decide_eq_true_iff]
        exact eq_comm
      rw [if_neg htype, if_pos (headAt_tag hl), hbeq]
      simp [htype, pure, EStateM.pure]

theorem readSize_eq (fuel : Nat) {b : JBuf} {l : List UInt8} (hb : At b l) :
    readSize (fuel + 1) b =
      (if tagZero l then integerBody 32 protoInt
        else throw (.decode "require field not exist.") : JIn (BitVec 32)) b := by
  unfold readSize required
  rw [bind_of_ok (skipToTag_zero fuel hb)]

theorem readSize_parses : Parses (readSize 1) sizeAt := by
  have hparses (c : Bool) := Parses.ite (c := c = true) (fun _ => integerBody_parses)
    fun _ => Parses.throw (β := BitVec 32) "require field not exist."
  refine ⟨fun b l p hb hp => ?_, fun {b l} hb hp => ?_, fun {l p} hp => ?_⟩
  · rw [readSize_eq 0 hb]
    exact (hparses _).reads hb hp
  · rw [readSize_eq 0 hb]
    exact (hparses _).fails hb hp
  · exact (hparses _).shrinks hp

/-- The size does not depend on the fuel. -/
theorem readSize_succ (fuel : Nat) : readSize (fuel + 1) = readSize 1 := by
  funext b
  rw [readSize_eq fuel (at_rest b), readSize_eq 0 (at_rest b)]

/-! ## Skipping along the scan -/

section

variable (b₀ : JBuf)

/-- On the bytes of `b₀` and not before it, at `l`. -/
def On (b : JBuf) (l : List UInt8) : Prop := Same b₀ b ∧ At b l ∧ b₀.pos ≤ b.pos

/-- A length that moves back, within the buffer. -/
def Lost (p : Item UInt8) (l : List UInt8) : Prop :=
  ∃ len r, Declares format p l len r ∧ len < 0 ∧ ¬Leaves b₀.limit len r

/-- A move that leads out of the buffer is an `IllegalArgumentException`.
Everything else is caught. -/
def Throws (p : Item UInt8) (l : List UInt8) (e : JExc) (b : JBuf) : Prop :=
  (∃ len r, Declares format p l len r ∧ Leaves b₀.limit len r ∧ e = .illegalArgument) ∨
    (∀ len r, ¬Declares format p l len r) ∧ Caught e ∧ Same b₀ b ∧ b₀.pos ≤ b.pos

/-- From `b` at `l` and with the fuel `N`, the program goes along with the
scan, and throws where it halts, unless it is lost. -/
def Goes (m : Nat → JIn Unit) (N : Nat) (p : List (Item UInt8)) (b : JBuf) :
    List UInt8 → Prop :=
  Follows format (On b₀) (fun b' => ∀ n, N ≤ n → m n b = .ok () b')
    (fun q _ l => Lost b₀ q l ∨
      ∃ e b', (∀ n, N ≤ n → m n b = .error e b') ∧ Throws b₀ q l e b') p

variable {b₀} {m m' : Nat → JIn Unit} {N N' : Nat} {type : UInt8} {b b' : JBuf}
  {l r : List UInt8}

theorem Goes.nil (hon : On b₀ b l) : Goes b₀ (fun _ => pure ()) N [] b l :=
  Follows.nil (fun _ _ => rfl) hon

theorem Goes.halt {p : Item UInt8} (hhalt : Halted format p l) (hout : Lost b₀ p l ∨
      ∃ e b', (∀ n, N ≤ n → m n b = .error e b') ∧ Throws b₀ p l e b') :
    Goes b₀ m N [p] b l := Follows.halt hhalt hout

/-- Two programs that run alike. -/
theorem Goes.run {p : List (Item UInt8)}
    (hm : ∀ n, N ≤ n → ∃ n', N' ≤ n' ∧ m n b = m' n' b') (h : Goes b₀ m' N' p b' l) :
    Goes b₀ m N p b l := by
  have hrun : ∀ {res}, (∀ n, N' ≤ n → m' n b' = res) → ∀ n, N ≤ n → m n b = res := by
    intro res hres n hn
    rcases hm n hn with ⟨n', hn', heq⟩
    rw [heq, hres n' hn']
  refine Follows.imp h (fun b₁ _ hok _ _ => hrun hok) fun q k l' _ hout =>
    hout.imp_right fun herr => ?_
  rcases herr with ⟨e, b₁, herr, hthrows⟩
  exact ⟨e, b₁, hrun herr, hthrows⟩

/-- A step of the scan is a step of the program. -/
theorem Goes.step {g : Nat → JIn Unit} {M : Nat} {c : JBuf} {p q : List (Item UInt8)}
    (hm : ∀ n, N ≤ n → ∃ n', M ≤ n' ∧ m n b = g n' c)
    (hstep : ∀ k, format.step (p ++ k, l) = some (q ++ k, r)) (hle : r.length ≤ l.length)
    (h : Goes b₀ g M q c r) : Goes b₀ m N p b l := by
  have hscan : Goes b₀ g M p c l := Follows.step h hstep hle
  exact hscan.run hm

/-- One program after the other. -/
theorem Goes.bind {p q : List (Item UInt8)} (h : Goes b₀ m N p b l)
    (h' : ∀ b' r, On b₀ b' r → r.length ≤ l.length → Goes b₀ m' N q b' r) :
    Goes b₀ (fun n => m n >>= fun _ => m' n) N (p ++ q) b l := by
  refine Follows.bind h (fun t k r hout => hout.imp_right fun herr => ?_) fun b₁ r hok hon hle => ?_
  · rcases herr with ⟨e, b₁, herr, hthrows⟩
    exact ⟨e, b₁, fun n hn => bind_of_error (herr n hn), hthrows⟩
  · exact (h' b₁ r hon hle).run fun n hn => ⟨n, hn, bind_of_ok (hok n hn)⟩

theorem On.move (hon : On b₀ b l) (hsame : Same b b') (hb' : At b' r)
    (hle : r.length ≤ l.length) : On b₀ b' r :=
  ⟨same_trans hon.1 hsame, hb', Nat.le_trans hon.2.2 (pos_le_of_at hon.2.1 hb' hsame hle)⟩

/-- An exception, and no move. -/
theorem goes_caught {e : JExc} {p : Item UInt8} (hon : On b₀ b l)
    (hm : ∀ n, N ≤ n → m n b = .error e b') (he : Caught e) (hsame : Same b b')
    (hle : b.pos ≤ b'.pos) (hhalt : Halted format p l) (hno : ∀ len r, ¬Declares format p l len r) :
    Goes b₀ m N [p] b l := by
  have hpos := Nat.le_trans hon.2.2 hle
  exact Goes.halt hhalt (Or.inr ⟨e, b', hm, Or.inr ⟨hno, he, same_trans hon.1 hsame, hpos⟩⟩)

/-- A move out of the buffer. -/
theorem skip_leaves {len : Int} (hint : (BitVec.ofInt 32 len).toInt = len) (hon : On b₀ b r)
    (h : Leaves b₀.limit len r) : skip len b = .error .illegalArgument b := by
  have hlen := at_length hon.2.1
  have hlimit : b.limit = b₀.limit := hon.1.2
  have hpos := b.pos_le
  have hle := b.limit_le
  have hlt := b.size_lt
  rw [BitVec.toInt_ofInt] at hint
  have hlo := Int.le_bmod (x := len) (m := 2 ^ 32) (by decide)
  have hhi := Int.bmod_lt (x := len) (m := 2 ^ 32) (by decide)
  unfold skip position
  rw [dif_neg]
  rw [BitVec.toInt_ofInt]
  unfold Leaves at h
  rw [Int.bmod_def]
  split <;> omega

theorem goes_move {len : Int} (hint : (BitVec.ofInt 32 len).toInt = len)
    (hbody : bodyAt type l = some (.move len, r)) (hle : r.length ≤ l.length) (hon : On b₀ b' r)
    (hm : ∀ n, N ≤ n → m n b = skip len b') : Goes b₀ m N [.body type] b l := by
  have hdecl : Declares format (.body type) l len r := ⟨type, rfl, hbody⟩
  by_cases hin : 0 ≤ len ∧ len ≤ r.length
  · have hlen : (r.take len.toNat).length = len.toNat := List.length_take_of_le (by omega)
    have hcast : len = ((r.take len.toNat).length : Int) := by omega
    rcases skip_reads len hcast b' (r.drop len.toNat)
      (by rw [List.take_append_drop]; exact hon.2.1) with ⟨b₁, hskip, hb₁, hsame⟩
    refine Goes.step (g := fun _ => pure ()) (M := 0) (c := b₁) ?_ ?_ ?_
      (Goes.nil (hon.move hsame hb₁ (by rw [List.length_drop]; omega)))
    · exact fun n hn => ⟨0, Nat.le_refl 0, (hm n hn).trans hskip⟩
    · intro k
      show (bodyAt type l).bind (Format.enter k) = _
      rw [hbody]
      exact enter_move hin
    · rw [List.length_drop]
      omega
  · refine Goes.halt (hdecl.halted hin) ?_
    by_cases hleaves : Leaves b₀.limit len r
    · exact Or.inr ⟨_, b', fun n hn => (hm n hn).trans (skip_leaves hint hon hleaves),
        Or.inl ⟨len, r, hdecl, hleaves, rfl⟩⟩
    · have hle : ¬((r.length : Int) < len) := fun hlt => hleaves (Or.inl hlt)
      exact Or.inl ⟨len, r, hdecl, by omega, hleaves⟩

/-- A body whose length or size is read first. -/
theorem goes_parse {β : Type} {p : JIn β} {f : List UInt8 → Option (β × List UInt8)}
    (hp : Parses p f) {g : Nat → β → JIn Unit} {k : β → Body}
    (hbody : bodyAt type l = (f l).map fun a => (k a.1, a.2)) (hon : On b₀ b l)
    (hm : ∀ n, N ≤ n → m n b = (p >>= g n) b)
    (hnext : ∀ a r b', bodyAt type l = some (k a, r) → r.length ≤ l.length → f l = some (a, r) →
      On b₀ b' r → (∀ n, N ≤ n → m n b = g n a b') → Goes b₀ m N [.body type] b l) :
    Goes b₀ m N [.body type] b l := by
  cases hl : f l with
  | none =>
    rw [hl] at hbody
    rcases hp.fails hon.2.1 hl with ⟨e, b', herr, he, hsame, hle⟩
    refine goes_caught hon (fun n hn => (hm n hn).trans (bind_of_error herr)) he hsame hle ?_ ?_
    · intro k
      show (bodyAt type l).bind (Format.enter k) = none
      rw [hbody]
      rfl
    · intro len r hdecl
      rcases hdecl with ⟨_, htype, hsome⟩
      cases htype
      rw [show format.body type l = none from hbody] at hsome
      cases hsome
  | some a =>
    rw [hl] at hbody
    rcases hp.reads hon.2.1 hl with ⟨b', hrun, hb', hsame⟩
    exact hnext a.1 a.2 b' hbody (hp.shrinks hl) hl (hon.move hsame hb' (hp.shrinks hl))
      fun n hn => (hm n hn).trans (bind_of_ok hrun)

/-- A type that is not skipped. -/
theorem goes_invalid (hbody : bodyAt type l = some (.invalid, r)) (hon : On b₀ b l)
    (hm : ∀ n, N ≤ n → m n b = .error (.decode "invalid type.") b) :
    Goes b₀ m N [.body type] b l := by
  refine goes_caught hon hm trivial (same_refl b) (Nat.le_refl _) ?_ ?_
  · intro k
    show (bodyAt type l).bind (Format.enter k) = none
    rw [hbody]
    rfl
  · intro len r' hdecl
    rcases hdecl with ⟨_, htype, hsome⟩
    cases htype
    rw [show format.body type l = some (.invalid, r) from hbody] at hsome
    cases hsome

/-- A counted loop over fields. -/
theorem goes_repeat (k : Nat) (h : ∀ b r, On b₀ b r → r.length ≤ l.length →
      Goes b₀ skipAny N [.field] b r) : ∀ b r, On b₀ b r → r.length ≤ l.length →
    Goes b₀ (fun n => repeatSkip (skipAny n) k) N (List.replicate k .field) b r := by
  induction k with
  | zero => exact fun b r hon _ => Goes.nil hon
  | succ k ih =>
    intro b r hon hle
    exact Goes.bind (h b r hon hle) fun b' r' hon' hle' => ih b' r' hon' (by omega)

/-- A header, and the body behind it. -/
theorem goes_head {p : Item UInt8} {q : UInt8 → List (Item UInt8)} {g : Nat → UInt8 → JIn Unit}
    (hon : On b₀ b l) (hm : ∀ n, N + 1 ≤ n → m n b = (readHead >>= fun h => g (n - 1) h.1.type) b)
    (hitem : ∀ k, format.next k l p = (format.head l).map fun h => (q h.1.1 ++ k, h.2))
    (hp : ∀ len r, ¬Declares format p l len r)
    (hnext : ∀ type b' r, On b₀ b' r → r.length < l.length →
      Goes b₀ (fun n => g n type) N (q type) b' r) :
    Goes b₀ m (N + 1) [p] b l := by
  cases hl : headAt l with
  | none =>
    have hhead : format.head l = none := by
      show (headAt l).map _ = none
      rw [hl]
      rfl
    rcases readHead_parses.fails hon.2.1 hl with ⟨e, b', herr, he, hsame, hle⟩
    refine goes_caught hon (fun n hn => (hm n hn).trans (bind_of_error herr)) he hsame hle ?_ hp
    intro k
    rw [hitem, hhead]
    rfl
  | some h =>
    have hhead : format.head l = some ((h.1.1.type, h.1.1.tag), h.2) := by
      show (headAt l).map _ = _
      rw [hl]
      rfl
    have hlt := headAt_length hl
    rcases readHead_parses.reads hon.2.1 hl with ⟨b', hrun, hb', hsame⟩
    refine Goes.step (g := fun n => g n h.1.1.type) (M := N) ?_ ?_ (by omega)
      (hnext h.1.1.type b' h.2 (hon.move hsame hb' (by omega)) hlt)
    · exact fun n hn => ⟨n - 1, by omega, (hm n hn).trans (bind_of_ok hrun)⟩
    · intro k
      show format.next k l p = _
      rw [hitem, hhead]
      rfl

/-- The size of a container takes a byte at least. -/
theorem sizeAt_length {p : BitVec 32 × List UInt8} (hl : sizeAt l = some p) :
    p.2.length < l.length := by
  unfold sizeAt at hl
  rw [Option.ite_none_right_eq_some] at hl
  rcases Option.bind_eq_some_iff.mp hl.2 with ⟨h, hhead, hint⟩
  have hlt := headAt_length hhead
  have hle := intAt_length hint
  omega

/-- The items of a container. -/
theorem goes_fields {k : Nat} (hbody : bodyAt type l = some (.fields k, r))
    (hlt : r.length < l.length) (hon : On b₀ b' r)
    (hm : ∀ n, N + 1 ≤ n → m n b = repeatSkip (skipAny (n - 1)) k b')
    (hfield : ∀ b r, On b₀ b r → r.length < l.length → Goes b₀ skipAny N [.field] b r) :
    Goes b₀ m (N + 1) [.body type] b l := by
  refine Goes.step (g := fun n => repeatSkip (skipAny n) k) (M := N) ?_ ?_
    (Nat.le_of_lt hlt) (goes_repeat k (fun b r hon hle => hfield b r hon (by omega)) b' r hon
      (Nat.le_refl _))
  · exact fun n hn => ⟨n - 1, by omega, hm n hn⟩
  · intro ks
    show (bodyAt type l).bind (Format.enter ks) = _
    rw [hbody]
    rfl

theorem skipField_goes (hN : 1 ≤ N) (hon : On b₀ b l)
    (hfield : ∀ b r, On b₀ b r → r.length < l.length → Goes b₀ skipAny N [.field] b r)
    (hmembers : Goes b₀ skipToStructEnd N [.members] b l) (type : UInt8) :
    Goes b₀ (fun n => skipField n type) (N + 1) [.body type] b l := by
  have hsize : ∀ n, N ≤ n → readSize n = readSize 1 := by
    intro n hn
    cases n with
    | zero => omega
    | succ n => exact readSize_succ n
  have hfixed : ∀ len, (BitVec.ofInt 32 len).toInt = len → bodyAt type l = some (.move len, l) →
      (∀ n, N ≤ n → skipField (n + 1) type b = skip len b) →
      Goes b₀ (fun n => skipField n type) (N + 1) [.body type] b l :=
    fun len hint hbody hm => goes_move hint hbody (Nat.le_refl _) hon (forall_of_succ hm)
  by_cases h0 : type = protoByte
  · subst h0
    exact hfixed 1 rfl rfl fun n _ => rfl
  by_cases h1 : type = protoShort
  · subst h1
    exact hfixed 2 rfl rfl fun n _ => rfl
  by_cases h2 : type = protoInt
  · subst h2
    exact hfixed 4 rfl rfl fun n _ => rfl
  by_cases h3 : type = protoLong
  · subst h3
    exact hfixed 8 rfl rfl fun n _ => rfl
  by_cases h4 : type = protoFloat
  · subst h4
    exact hfixed 4 rfl rfl fun n _ => rfl
  by_cases h5 : type = protoDouble
  · subst h5
    exact hfixed 8 rfl rfl fun n _ => rfl
  by_cases h6 : type = protoString1
  · subst h6
    refine goes_parse (getBits_parses 8 1) (k := fun n => .move n.toNat)
      (g := fun _ n => skip n.toNat) rfl hon (forall_of_succ fun n _ => rfl) ?_
    intro n r b' hbody hle _ hon' hm
    have hlt := n.isLt
    exact goes_move (BitVec.toInt_ofInt_eq_self (by decide) (by omega) (by omega)) hbody hle hon' hm
  by_cases h7 : type = protoString4
  · subst h7
    refine goes_parse (getBits_parses 32 4) (k := fun n => .move n.toInt)
      (g := fun _ n => skip n.toInt) rfl hon (forall_of_succ fun n _ => rfl) ?_
    intro n r b' hbody hle _ hon' hm
    exact goes_move (congrArg BitVec.toInt (BitVec.ofInt_toInt)) hbody hle hon' hm
  by_cases h8 : type = protoMap
  · subst h8
    refine goes_parse readSize_parses (k := fun n => .fields (n * 2).toInt.toNat)
      (g := fun n size => repeatSkip (skipAny (n - 1)) (size * 2).toInt.toNat) rfl hon
      (forall_of_succ fun n hn => ?_) ?_
    · rw [← hsize n hn]
      rfl
    · intro n r b' hbody _ hl hon' hm
      exact goes_fields hbody (sizeAt_length hl) hon' hm hfield
  by_cases h9 : type = protoList
  · subst h9
    refine goes_parse readSize_parses (k := fun n => .fields n.toInt.toNat)
      (g := fun n size => repeatSkip (skipAny (n - 1)) size.toInt.toNat) rfl hon
      (forall_of_succ fun n hn => ?_) ?_
    · rw [← hsize n hn]
      rfl
    · intro n r b' hbody _ hl hon' hm
      exact goes_fields hbody (sizeAt_length hl) hon' hm hfield
  by_cases h10 : type = protoSimpleList
  · subst h10
    have hparses := readHead_parses.bind (h := fun h l =>
      if h.1.type = protoByte then sizeAt l else none) fun h : HeadData × Nat =>
        Parses.ite (fun _ => readSize_parses) fun _ => Parses.throw
          s!"skipField with invalid type, type value: {protoSimpleList}, {h.1.type}"
    refine goes_parse hparses (k := fun n => .move n.toInt) (g := fun _ n => skip n.toInt) ?_
      hon (forall_of_succ fun n hn => ?_) ?_
    · show (headAt l).bind _ = _
      cases headAt l with
      | none => rfl
      | some h =>
        show (if h.1.1.type = protoByte then _ else _) = Option.map _ (if _ then _ else _)
        split <;> rfl
    · rw [← hsize n hn, bind_assoc]
      show (readHead >>= _) b = _
      cases hrun : readHead b with
      | error e b' => rw [bind_of_error hrun, bind_of_error hrun]
      | ok h b' =>
        rw [bind_of_ok hrun, bind_of_ok hrun]
        by_cases htype : h.1.type = protoByte
        · rw [if_pos htype]
          dsimp only
          rw [if_neg (not_not.mpr htype)]
          rfl
        · rw [if_neg htype]
          dsimp only
          rw [if_pos htype]
          rfl
    · intro n r b' hbody hle _ hon' hm
      exact goes_move (congrArg BitVec.toInt (BitVec.ofInt_toInt)) hbody hle hon' hm
  by_cases h11 : type = protoStructBegin
  · subst h11
    refine Goes.step (g := skipToStructEnd) (M := N) ?_ (fun k => rfl) (Nat.le_refl _) hmembers
    exact forall_of_succ fun n hn => ⟨n, hn, rfl⟩
  have hrun : ∀ n, skipField (n + 1) type =
      if type = protoStructEnd ∨ type = protoZeroTag then pure ()
      else throw (.decode "invalid type.") := by
    intro n
    unfold skipField
    simp only [h0, h1, h2, h3, h4, h5, h6, h7, h8, h9, h10, h11, if_false]
  have hbody : bodyAt type l =
      if type = protoStructEnd ∨ type = protoZeroTag then some (.move 0, l)
      else some (.invalid, l) := by
    unfold bodyAt
    simp only [h0, h1, h2, h3, h4, h5, h6, h7, h8, h9, h10, h11, if_false]
  by_cases h12 : type = protoStructEnd ∨ type = protoZeroTag
  · rw [if_pos h12] at hbody
    refine Goes.step (g := fun _ => pure ()) (M := 0) (c := b) ?_ ?_ (Nat.le_refl _)
      (Goes.nil hon)
    · refine forall_of_succ fun n _ => ⟨0, Nat.le_refl 0, ?_⟩
      show skipField (n + 1) type b = _
      rw [hrun, if_pos h12]
    · intro k
      show (bodyAt type l).bind (Format.enter k) = _
      rw [hbody]
      have hzero : (0 : Int) ≤ 0 ∧ (0 : Int) ≤ l.length := by omega
      exact enter_move hzero
  · rw [if_neg h12] at hbody
    refine goes_invalid hbody hon (forall_of_succ fun n _ => ?_)
    show skipField (n + 1) type b = _
    rw [hrun, if_neg h12]
    rfl

theorem not_declares {p : Item UInt8} (hp : ∀ type, p ≠ .body type) (len : Int)
    (r : List UInt8) : ¬Declares format p l len r := by
  intro hdecl
  rcases hdecl with ⟨type, htype, _⟩
  exact hp type htype

/-- The three skips, by induction on the fuel. -/
theorem goes (N : Nat) : ∀ b l, On b₀ b l →
    (2 * l.length + 2 ≤ N → ∀ type, Goes b₀ (fun n => skipField n type) N [.body type] b l) ∧
    (2 * l.length + 1 ≤ N → Goes b₀ skipAny N [.field] b l) ∧
    (2 * l.length + 1 ≤ N → Goes b₀ skipToStructEnd N [.members] b l) := by
  induction N with
  | zero =>
    intro b l _
    refine ⟨?_, ?_, ?_⟩ <;> intro hN <;> omega
  | succ N ih =>
    intro b l hon
    refine ⟨fun hN type => ?_, fun hN => ?_, fun hN => ?_⟩
    · refine skipField_goes (by omega) hon (fun b' r hon' hlt => ?_) ?_ type
      · exact (ih b' r hon').2.1 (by omega)
      · exact (ih b l hon).2.2 (by omega)
    · refine goes_head (q := fun type => [.body type]) (g := fun n type => skipField n type) hon
        (forall_of_succ fun n _ => rfl) (fun k => rfl) (not_declares nofun) ?_
      intro type b' r hon' hlt
      exact (ih b' r hon').1 (by omega) type
    · refine goes_head (q := fun type => [.body type] ++
          if type = protoStructEnd then [] else [.members])
        (g := fun n type => skipField n type >>= fun _ =>
          if type = protoStructEnd then pure () else skipToStructEnd n) hon
        (forall_of_succ fun n _ => rfl) (fun k => ?_) (not_declares nofun) ?_
      · show (format.head l).map _ = _
        cases format.head l with
        | none => rfl
        | some h =>
          show some (.body h.1.1 :: (if h.1.1 = protoStructEnd then k else .members :: k), h.2) =
            some (.body h.1.1 :: ((if h.1.1 = protoStructEnd then [] else [.members]) ++ k), h.2)
          split <;> rfl
      · intro type b' r hon' hlt
        refine Goes.bind ((ih b' r hon').1 (by omega) type) fun b₁ r₁ hon₁ hle₁ => ?_
        by_cases htype : type = protoStructEnd
        · simp only [if_pos htype]
          exact Goes.nil hon₁
        · simp only [if_neg htype]
          exact (ih b₁ r₁ hon₁).2.2 (by omega)

/-! ## The search -/

variable (b₀) in
/-- Where the scan of a search halts, the loop answers or throws, unless the
scan is lost. -/
def Concludes (run : Nat → EStateM.Result JExc JBuf Bool) (N : Nat) (q : Item UInt8)
    (l : List UInt8) : Prop :=
  Lost b₀ q l ∨ (∃ e b, (∀ n, N ≤ n → run n = .error e b) ∧ Throws b₀ q l e b) ∨
    ∃ found b, (∀ n, N ≤ n → run n = .ok found b) ∧ (∀ len r, ¬Declares format q l len r) ∧
      Same b₀ b ∧ b₀.pos ≤ b.pos

/-- A round of the loop. -/
theorem Concludes.step {run run' : Nat → EStateM.Result JExc JBuf Bool} {q : Item UInt8}
    (hrun : ∀ n, N ≤ n → run (n + 1) = run' n) (h : Concludes b₀ run' N q l) :
    Concludes b₀ run (N + 1) q l := by
  have hsucc : ∀ {res}, (∀ n, N ≤ n → run' n = res) → ∀ n, N + 1 ≤ n → run n = res := by
    intro res hres
    exact forall_of_succ fun n hn => (hrun n hn).trans (hres n hn)
  rcases h with hlost | ⟨e, b, herr, hthrows⟩ | ⟨found, b, hok, hrest⟩
  · exact Or.inl hlost
  · exact Or.inr (Or.inl ⟨e, b, hsucc herr, hthrows⟩)
  · exact Or.inr (Or.inr ⟨found, b, hsucc hok, hrest⟩)

/-- The loop stops at its first header. -/
theorem ends_stop {tag : Int} {h : (HeadData × Nat) × List UInt8} (hon : On b₀ b l)
    (hl : headAt l = some h) (hstop : h.1.1.type = protoStructEnd ∨ tag ≤ h.1.1.tag) :
    Halted format (.search tag) l ∧
      Concludes b₀ (fun n => skipToTagLoop n tag b) (N + 1) (.search tag) l := by
  constructor
  · intro k
    show ((headAt l).map _).bind _ = none
    rw [hl]
    exact if_pos hstop
  · refine Or.inr (Or.inr ⟨if h.1.1.type = protoStructEnd then false else tag == h.1.1.tag, b,
      forall_of_succ fun n _ => ?_, not_declares nofun, hon.1, hon.2.2⟩)
    show skipToTagLoop (n + 1) tag b = _
    unfold skipToTagLoop
    rw [bind_of_ok ((peakHead_parses hon.2.1).1 h hl)]
    dsimp only
    by_cases htype : h.1.1.type = protoStructEnd
    · rw [if_pos htype, if_pos htype]
      rfl
    · rw [if_neg htype, if_neg htype, if_pos (hstop.resolve_left htype)]
      rfl

/-- The search along the scan, by induction on the fuel. -/
theorem searches (tag : Int) (N : Nat) : ∀ b l, On b₀ b l → 2 * l.length + 1 ≤ N →
    ∃ q k l', Reaches format.step ([.search tag], l) (q :: k, l') ∧ Halted format q l' ∧
      Concludes b₀ (fun n => skipToTagLoop n tag b) N q l' := by
  induction N with
  | zero =>
    intro b l _ hN
    omega
  | succ N ih =>
    intro b l hon hN
    cases hl : headAt l with
    | none =>
      rcases (peakHead_parses hon.2.1).2 hl with ⟨e, hpeak, he⟩
      refine ⟨.search tag, [], l, Relation.ReflTransGen.refl, fun k => ?_, Or.inr (Or.inl
        ⟨e, b, forall_of_succ fun n _ => ?_, Or.inr ⟨not_declares nofun, he, hon.1, hon.2.2⟩⟩)⟩
      · show ((headAt l).map _).bind _ = none
        rw [hl]
        rfl
      · show skipToTagLoop (n + 1) tag b = _
        unfold skipToTagLoop
        exact bind_of_error hpeak
    | some h =>
      by_cases hstop : h.1.1.type = protoStructEnd ∨ tag ≤ h.1.1.tag
      · rcases ends_stop hon hl hstop with ⟨hhalt, hends⟩
        exact ⟨.search tag, [], l, Relation.ReflTransGen.refl, hhalt, hends⟩
      -- the header, the body and the rest of the search
      have hlt := headAt_length hl
      have hstep : format.step ([.search tag], l) =
          some ([.body h.1.1.type, .search tag], h.2) := by
        show ((headAt l).map _).bind _ = _
        rw [hl]
        exact if_neg hstop
      rcases headAt_eq hl with ⟨bs, hbs, hlen, _⟩
      have hcast : (h.1.2 : Int) = (bs.length : Int) := by omega
      rcases skip_reads h.1.2 hcast b h.2 (hbs ▸ hon.2.1)
        with ⟨b₁, hskip, hb₁, hsame₁⟩
      have hon₁ := hon.move hsame₁ hb₁ (by omega)
      have hloop : ∀ n, skipToTagLoop (n + 1) tag b =
          (skipField n h.1.1.type >>= fun _ => skipToTagLoop n tag) b₁ := by
        intro n
        rw [not_or] at hstop
        conv_lhs => unfold skipToTagLoop
        rw [bind_of_ok ((peakHead_parses hon.2.1).1 h hl)]
        dsimp only
        rw [if_neg hstop.1, if_neg hstop.2, bind_of_ok hskip]
      rcases (goes N b₁ h.2 hon₁).1 (by omega) h.1.1.type with
        ⟨b₂, r, hok, hon₂, hle, hreach⟩ | ⟨q, k, l', hreach, hhalt, _, hres⟩
      · rcases ih b₂ r hon₂ (by omega) with ⟨q, k, l', hreach', hhalt, hends⟩
        refine ⟨q, k, l', .head hstep ((hreach [.search tag]).trans hreach'), hhalt,
          hends.step fun n hn => ?_⟩
        rw [hloop, bind_of_ok (hok n hn)]
      · have hreach' : Reaches format.step ([.body h.1.1.type, .search tag], h.2)
            (q :: (k ++ [.search tag]), l') := hreach [.search tag]
        refine ⟨q, k ++ [Item.search tag], l', .head hstep hreach', hhalt, ?_⟩
        rcases hres with hlost | ⟨e, b', herr, hthrows⟩
        · exact Or.inl hlost
        · refine Or.inr (Or.inl ⟨e, b', forall_of_succ fun n hn => ?_, hthrows⟩)
          show skipToTagLoop (n + 1) tag b = _
          rw [hloop, bind_of_error (herr n hn)]

end

/-! ## When `skipToTag` is total -/

/-- A search answers, with any fuel from some on, and does not move back. -/
def Total (tag : Int) (b : JBuf) : Prop :=
  ∃ found b', Yields (fun fuel b => skipToTag fuel tag b) b (.ok found b') ∧ Same b b' ∧
    b.pos ≤ b'.pos ∧ b'.pos ≤ b'.limit

/-- Every length that the scan meets is within what is left. -/
def Inside (tag : Int) (l : List UInt8) : Prop :=
  ∀ len r, Meets format ([.search tag], l) len r → 0 ≤ len ∧ len ≤ r.length

/-- Some length leads out of the buffer. -/
def LeavesBuffer (tag : Int) (b : JBuf) : Prop :=
  ∃ len r, Meets format ([.search tag], rest b) len r ∧ Leaves b.limit len r

/-- For every buffer and tag: `skipToTag` is total when every length that
the scan meets is within what is left, and it is not when one leads out of
the buffer. -/
theorem skipToTag_total (tag : Int) (b : JBuf) :
    (Inside tag (rest b) → Total tag b) ∧ (LeavesBuffer tag b → ¬Total tag b) := by
  have hon : On b b (rest b) := ⟨same_refl b, at_rest b, Nat.le_refl _⟩
  rcases searches tag (2 * (rest b).length + 1) b (rest b) hon (Nat.le_refl _)
    with ⟨q, k, l, hreach, hhalt, hends⟩
  constructor
  · intro hinside
    have hdecl : ∀ {len r}, Declares format q l len r → 0 ≤ len ∧ len ≤ r.length :=
      fun h => hinside _ _ ⟨q, k, l, hreach, h⟩
    rcases hends with ⟨len, r, hd, hneg, _⟩ | ⟨e, b', herr, hthrows⟩ |
      ⟨found, b', hok, _, hsame, hle⟩
    · have := hdecl hd
      omega
    · rcases hthrows with ⟨len, r, hd, hleaves, _⟩ | ⟨_, he, hsame, hle⟩
      · have := hdecl hd
        unfold Leaves at hleaves
        omega
      · refine ⟨false, b', ⟨2 * (rest b).length + 1, fun n hn => ?_⟩, hsame, hle, b'.pos_le⟩
        exact (catchIn_of_error (herr n hn)).trans (handler_caught he b')
    · refine ⟨found, b', ⟨2 * (rest b).length + 1, fun n hn => ?_⟩, hsame, hle, b'.pos_le⟩
      exact catchIn_of_ok (hok n hn)
  · intro hleaves htotal
    rcases hleaves with ⟨len, r, ⟨p, k', l', hreach', hdecl⟩, hleaves⟩
    have hout : ¬(0 ≤ len ∧ len ≤ r.length) := by
      unfold Leaves at hleaves
      omega
    cases reaches_unique hreach (hhalt k) hreach' (hdecl.halted hout k')
    rcases hends with ⟨len', r', hd, _, hstays⟩ | ⟨e, b', herr, hthrows⟩ |
      ⟨_, _, _, hno, _⟩
    · rcases hd.unique hdecl with ⟨rfl, rfl⟩
      exact hstays hleaves
    · rcases hthrows with ⟨_, _, _, _, rfl⟩ | ⟨hno, _⟩
      · rcases htotal with ⟨found, b₁, ⟨M, hM⟩, _⟩
        have hrun := hM _ (Nat.le_max_right (2 * (rest b).length + 1) M)
        have herr' := herr _ (Nat.le_max_left (2 * (rest b).length + 1) M)
        have hthrow : skipToTag _ tag b = .error .illegalArgument b' := catchIn_of_error herr'
        cases hthrow.symm.trans hrun
      · exact hno len r hdecl
    · exact hno len r hdecl

/-- A `BYTE` is skipped, and the field behind it is found. -/
theorem skipToTag_total_byte : Total 1 (JBuf.wrap [0x00, 5, 0x1C] (by decide)) := by
  refine (skipToTag_total 1 _).1 fun len r hmeets => ?_
  rcases hmeets.cases with hdecl | ⟨st, hstep, hmeets⟩
  · rcases hdecl with ⟨_, htype, _⟩
    cases htype
  cases hstep
  rcases hmeets.cases with ⟨type, htype, hbody⟩ | ⟨st, hstep, hmeets⟩
  · cases htype
    cases hbody
    decide
  cases hstep
  rcases hmeets.cases with hdecl | ⟨st, hstep, _⟩
  · rcases hdecl with ⟨_, htype, _⟩
    cases htype
  · cases hstep

/-- The header of a `BYTE`, and the end of the buffer. -/
theorem not_always_total : ¬∀ (tag : Int) (b : JBuf), Total tag b := by
  intro h
  rcases h 1 (JBuf.wrap [0x00] (by decide)) with ⟨found, b', ⟨N, hN⟩, _⟩
  have hrun := hN (N + 2) (by omega)
  cases hrun

end OCServer.Java
