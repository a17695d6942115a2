import Mathlib.Data.List.Basic
import Mathlib.Tactic.Common

/-!
# Readers and writers of byte streams

A reader is a stateful program that may throw, over a state from which
bytes can be read: a `ByteSource`.  `Reads m bs a` says that `m` gives `a`
when `bs` comes next and stops right behind `bs`, whatever follows.
`Misses m bs P` says that it does not give a value with `P`: this is how a
reader is shown to be wrong without saying what it gives instead.
`ReadsIff m l F` says exactly what `m` gives in front of `l`, and
`Gives m P` what it gives wherever it stands.  `ReadsWhen P m bs a` is
`Reads m bs a` over the states with `P` only.  A writer
works over a `ByteSink`, and `Writes m bs` says that it appends `bs`.
`RoundTrips w m a` says that a reader reads back what a writer appends.

The rules compose these statements along `>>=` and along the two loops that
serialisers use: a counted loop of a reader and a loop of a writer over a
list.
-/

/-- A state to read bytes from.  `At s l` says that reads succeed in `s` and
that `l` is what is left.  `Same s s'` says that the two states are on the
same bytes. -/
class ByteSource (σ : Type) where
  At : σ → List UInt8 → Prop
  Same : σ → σ → Prop
  same_refl : ∀ s, Same s s
  same_trans : ∀ {s t u}, Same s t → Same t u → Same s u

/-- A state to append bytes to.  `Wrote t bs t'` says that `t'` is `t` with
`bs` appended. -/
class ByteSink (τ : Type) where
  Wrote : τ → List UInt8 → τ → Prop
  nil : ∀ t, Wrote t [] t
  append : ∀ {t u v bs cs}, Wrote t bs u → Wrote u cs v → Wrote t (bs ++ cs) v

namespace ByteIO

open ByteSource ByteSink

variable {ε σ τ α β γ : Type}

/-! ## Running -/

/-- A step that succeeds. -/
theorem bind_of_ok {m : EStateM ε σ α} {f : α → EStateM ε σ β} {s s₁ : σ} {a : α}
    (h : m s = .ok a s₁) : (m >>= f) s = f a s₁ := by
  show EStateM.bind m f s = _
  unfold EStateM.bind
  rw [h]

/-- A step that throws. -/
theorem bind_of_error {m : EStateM ε σ α} {f : α → EStateM ε σ β} {s s₁ : σ} {e : ε}
    (h : m s = .error e s₁) : (m >>= f) s = .error e s₁ := by
  show EStateM.bind m f s = _
  unfold EStateM.bind
  rw [h]

theorem map_of_ok {m : EStateM ε σ α} (g : α → β) {s s₁ : σ} {a : α} (h : m s = .ok a s₁) :
    (g <$> m) s = .ok (g a) s₁ := by
  rw [map_eq_pure_bind]
  exact bind_of_ok h

theorem map_of_error {m : EStateM ε σ α} (g : α → β) {s s₁ : σ} {e : ε} (h : m s = .error e s₁) :
    (g <$> m) s = .error e s₁ := by
  rw [map_eq_pure_bind]
  exact bind_of_error h

/-- What a sequence gave came from its two parts. -/
theorem bind_eq_ok {m : EStateM ε σ α} {f : α → EStateM ε σ β} {s s' : σ} {b : β}
    (h : (m >>= f) s = .ok b s') : ∃ a s₁, m s = .ok a s₁ ∧ f a s₁ = .ok b s' := by
  cases hm : m s with
  | ok a s₁ =>
    rw [bind_of_ok hm] at h
    exact ⟨a, s₁, rfl, h⟩
  | error e s₁ =>
    rw [bind_of_error hm] at h
    cases h

/-! ## What a run gives -/

/-- Whenever `m` gives a value, it has `P`. -/
def Gives (m : EStateM ε σ α) (P : α → Prop) : Prop := ∀ s a s', m s = .ok a s' → P a

theorem Gives.pure {a : α} {P : α → Prop} (h : P a) : Gives (pure a : EStateM ε σ α) P := by
  intro s a' s' hrun
  cases hrun
  exact h

theorem Gives.bind {m : EStateM ε σ α} {f : α → EStateM ε σ β} {P : β → Prop}
    (h : ∀ a, Gives (f a) P) : Gives (m >>= f) P := by
  intro s b s' hrun
  rcases bind_eq_ok hrun with ⟨a, s₁, _, hrest⟩
  exact h a s₁ b s' hrest

theorem Gives.ite {c : Prop} [Decidable c] {m m' : EStateM ε σ α} {P : α → Prop}
    (hm : Gives m P) (hm' : Gives m' P) : Gives (if c then m else m') P := by
  split
  · exact hm
  · exact hm'

/-- A counted loop: `for( i = 0; i < n; i++ )` over a reader. -/
def repeatM (m : EStateM ε σ α) : Nat → EStateM ε σ (List α)
  | 0 => Pure.pure []
  | n + 1 => do
    let a ← m
    let as ← repeatM m n
    Pure.pure (a :: as)

theorem Gives.repeatM_length (m : EStateM ε σ α) (n : Nat) :
    Gives ( ByteIO.repeatM m n) fun as => as.length = n := by
  induction n with
  | zero => exact Gives.pure rfl
  | succ n ih =>
    intro s as s' hrun
    rcases bind_eq_ok hrun with ⟨a, s₁, _, hrest⟩
    rcases bind_eq_ok hrest with ⟨as', s₂, has, hpure⟩
    cases hpure
    rw [List.length_cons, ih s₁ as' _ has]

/-! ## Readers -/

section

variable [ByteSource σ]

/-- `m` reads exactly `bs` and gives `a`, whatever follows. -/
def Reads (m : EStateM ε σ α) (bs : List UInt8) (a : α) : Prop :=
  ∀ s r, At s (bs ++ r) → ∃ s', m s = .ok a s' ∧ At s' r ∧ Same s s'

/-- A value takes no byte. -/
theorem Reads.pure (a : α) : Reads (pure a : EStateM ε σ α) [] a := by
  intro s r hs
  exact ⟨s, rfl, hs, same_refl s⟩

/-- One reader after the other. -/
theorem Reads.bind {m : EStateM ε σ α} {f : α → EStateM ε σ β} {bs cs : List UInt8} {a : α}
    {b : β} (hm : Reads m bs a) (hf : Reads (f a) cs b) : Reads (m >>= f) (bs ++ cs) b := by
  intro s r hs
  rw [List.append_assoc] at hs
  obtain ⟨s₁, h₁, hs₁, hsame₁⟩ := hm s _ hs
  obtain ⟨s₂, h₂, hs₂, hsame₂⟩ := hf s₁ r hs₁
  refine ⟨s₂, ?_, hs₂, same_trans hsame₁ hsame₂⟩
  rw [bind_of_ok h₁]
  exact h₂

/-- A reader, and then a reader that takes no byte. -/
theorem Reads.then {m : EStateM ε σ α} {f : α → EStateM ε σ β} {bs : List UInt8} {a : α}
    {b : β} (hm : Reads m bs a) (hf : Reads (f a) [] b) : Reads (m >>= f) bs b := by
  have h := hm.bind hf
  rwa [List.append_nil] at h

/-- The value of a reader under a function. -/
theorem Reads.map {m : EStateM ε σ α} {bs : List UInt8} {a : α} (g : α → β) (h : Reads m bs a) :
    Reads (g <$> m) bs (g a) := by
  rw [map_eq_pure_bind]
  exact h.then (Reads.pure (g a))

/-- A counted loop over as many items as were written. -/
theorem Reads.repeatM_map {m : EStateM ε σ α} {enc : β → List UInt8} {g : β → α} (items : List β)
    (h : ∀ b ∈ items, Reads m (enc b) (g b)) :
    Reads ( ByteIO.repeatM m items.length) (items.flatMap enc) (items.map g) := by
  induction items with
  | nil => exact Reads.pure []
  | cons b items ih =>
    rw [List.flatMap_cons, List.map_cons]
    refine (h b List.mem_cons_self).bind ?_
    exact (ih fun c hc => h c (List.mem_cons_of_mem b hc)).then (Reads.pure _)

/-- A counted loop that reads the items themselves. -/
theorem Reads.repeatM {m : EStateM ε σ α} {enc : α → List UInt8} (items : List α)
    (h : ∀ a ∈ items, Reads m (enc a) a) :
    Reads ( ByteIO.repeatM m items.length) (items.flatMap enc) items := by
  have hmap := Reads.repeatM_map (g := id) items h
  rwa [List.map_id] at hmap

/-! ## Readers over some of the states -/

/-- Over the states with `P`, `m` reads exactly `bs` and gives `a`, whatever
follows. -/
def ReadsWhen (P : σ → Prop) (m : EStateM ε σ α) (bs : List UInt8) (a : α) : Prop :=
  ∀ s r, P s → At s (bs ++ r) → ∃ s', m s = .ok a s' ∧ At s' r ∧ Same s s'

theorem Reads.when {m : EStateM ε σ α} {bs : List UInt8} {a : α} (h : Reads m bs a)
    (P : σ → Prop) : ReadsWhen P m bs a := fun s r _ hs => h s r hs

/-- One reader after the other, when `P` only depends on the bytes. -/
theorem ReadsWhen.bind {P : σ → Prop} (hP : ∀ {s s'}, Same s s' → P s → P s')
    {m : EStateM ε σ α} {f : α → EStateM ε σ β} {bs cs : List UInt8} {a : α} {b : β}
    (hm : ReadsWhen P m bs a) (hf : ReadsWhen P (f a) cs b) :
    ReadsWhen P (m >>= f) (bs ++ cs) b := by
  intro s r hp hs
  rw [List.append_assoc] at hs
  rcases hm s _ hp hs with ⟨s₁, h₁, hs₁, hsame₁⟩
  rcases hf s₁ r (hP hsame₁ hp) hs₁ with ⟨s₂, h₂, hs₂, hsame₂⟩
  refine ⟨s₂, ?_, hs₂, same_trans hsame₁ hsame₂⟩
  rw [bind_of_ok h₁]
  exact h₂

/-! ## Readers along a parser -/

/-- `m` reads what `f` parses at the start of what is left. -/
def ReadsAs (m : EStateM ε σ α) (f : List UInt8 → Option (α × List UInt8)) : Prop :=
  ∀ ⦃s l p⦄, At s l → f l = some p → ∃ s', m s = .ok p.1 s' ∧ At s' p.2 ∧ Same s s'

theorem ReadsAs.pure (a : α) : ReadsAs (Pure.pure a : EStateM ε σ α) fun l => some (a, l) := by
  intro s l p hs hp
  cases hp
  exact ⟨s, rfl, hs, same_refl s⟩

/-- One reader after the other. -/
theorem ReadsAs.bind {m : EStateM ε σ α} {f : List UInt8 → Option (α × List UInt8)}
    {g : α → EStateM ε σ β} {h : α → List UInt8 → Option (β × List UInt8)} (hm : ReadsAs m f)
    (hg : ∀ a, ReadsAs (g a) (h a)) :
    ReadsAs (m >>= g) fun l => (f l).bind fun p => h p.1 p.2 := by
  intro s l p hs hp
  rcases Option.bind_eq_some_iff.mp hp with ⟨q, hq, hp⟩
  rcases hm hs hq with ⟨s₁, h₁, hs₁, hsame₁⟩
  rcases hg q.1 hs₁ hp with ⟨s₂, h₂, hs₂, hsame₂⟩
  exact ⟨s₂, (bind_of_ok h₁).trans h₂, hs₂, same_trans hsame₁ hsame₂⟩

theorem map_eq_bind {f : List UInt8 → Option (α × List UInt8)} (g : α → β) :
    (fun l => (f l).map fun p => (g p.1, p.2)) =
      fun l => (f l).bind fun p => some (g p.1, p.2) := by
  funext l
  cases f l <;> rfl

/-! ## Readers that go wrong -/

/-- `m` does not give a value with `P` when `bs` comes next: it throws, or
gives another value. -/
def Misses (m : EStateM ε σ α) (bs : List UInt8) (P : α → Prop) : Prop :=
  ∀ s r a s', At s (bs ++ r) → m s = .ok a s' → ¬P a

/-- A reader that gives another value. -/
theorem Reads.misses {m : EStateM ε σ α} {bs : List UInt8} {a : α} {P : α → Prop}
    (h : Reads m bs a) (ha : ¬P a) : Misses m bs P := by
  intro s r a' s' hs hrun
  obtain ⟨s₁, h₁, _⟩ := h s r hs
  rw [h₁] at hrun
  cases hrun
  exact ha

/-- What follows does not help. -/
theorem Misses.append {m : EStateM ε σ α} {bs : List UInt8} {P : α → Prop} (h : Misses m bs P)
    (cs : List UInt8) : Misses m (bs ++ cs) P := by
  intro s r a s' hs hrun
  rw [List.append_assoc] at hs
  exact h s _ a s' hs hrun

/-- A reader that goes wrong before the value that counts. -/
theorem Misses.bind {m : EStateM ε σ α} {f : α → EStateM ε σ β} {bs : List UInt8}
    {P : α → Prop} {Q : β → Prop} (hm : Misses m bs P)
    (hf : ∀ a s b s', f a s = .ok b s' → Q b → P a) (cs : List UInt8) :
    Misses (m >>= f) (bs ++ cs) Q := by
  intro s r b s' hs hrun hQ
  rw [List.append_assoc] at hs
  obtain ⟨a, s₁, h, hrest⟩ := bind_eq_ok hrun
  exact hm s _ a s₁ hs h (hf a s₁ b s' hrest hQ)

/-- The value of a reader that goes wrong, under a function. -/
theorem Misses.map {m : EStateM ε σ α} {bs : List UInt8} {P : β → Prop} (g : α → β)
    (h : Misses m bs fun a => P (g a)) : Misses (g <$> m) bs P := by
  have hbind := h.bind (f := fun a => Pure.pure (g a)) (Q := P)
    (fun a s b s' hrun hb => by cases hrun; exact hb) []
  rwa [List.append_nil, ← map_eq_pure_bind] at hbind

/-- A reader that goes wrong later. -/
theorem Reads.bind_misses {m : EStateM ε σ α} {f : α → EStateM ε σ β} {bs cs : List UInt8}
    {a : α} {Q : β → Prop} (hm : Reads m bs a) (hf : Misses (f a) cs Q) :
    Misses (m >>= f) (bs ++ cs) Q := by
  intro s r b s' hs hrun
  rw [List.append_assoc] at hs
  obtain ⟨s₁, h₁, hs₁, _⟩ := hm s _ hs
  rw [bind_of_ok h₁] at hrun
  exact hf s₁ r b s' hs₁ hrun

/-- A reader that never gives a value has none with `P`. -/
theorem Misses.of_error {m : EStateM ε σ α} {bs : List UInt8} {P : α → Prop}
    (h : ∀ s r, At s (bs ++ r) → ∃ e s', m s = .error e s') : Misses m bs P := by
  intro s r a s' hs hrun
  obtain ⟨e, s₁, h₁⟩ := h s r hs
  rw [h₁] at hrun
  cases hrun

/-- A counted loop in which an item goes wrong.  `Q` is what is asked of the
list and `P` what it asks of an item. -/
theorem Misses.repeatM {m : EStateM ε σ β} {enc : α → List UInt8} {g : α → β}
    {good : α → Prop} {P : α → β → Prop} {Q : List α → List β → Prop}
    (hQ : ∀ a as b bs, Q (a :: as) (b :: bs) → P a b ∧ Q as bs) (items : List α)
    (hgood : ∀ a ∈ items, good a → Reads m (enc a) (g a))
    (hbad : ∀ a ∈ items, ¬good a → Misses m (enc a) (P a)) (h : ¬∀ a ∈ items, good a) :
    Misses ( ByteIO.repeatM m items.length) (items.flatMap enc) (Q items) := by
  induction items with
  | nil => simp at h
  | cons a items ih =>
    rw [List.flatMap_cons]
    by_cases ha : good a
    · refine (hgood a List.mem_cons_self ha).bind_misses ?_
      have hrest : ¬∀ a ∈ items, good a := fun hall =>
        h (List.forall_mem_cons.mpr ⟨ha, hall⟩)
      have hmiss := ih (fun c hc => hgood c (List.mem_cons_of_mem a hc))
        (fun c hc => hbad c (List.mem_cons_of_mem a hc)) hrest
      rw [← List.append_nil (items.flatMap enc)]
      refine hmiss.bind ?_ []
      intro bs s l s' hpure hl
      cases hpure
      exact (hQ _ _ _ _ hl).2
    · refine (hbad a List.mem_cons_self ha).bind ?_ _
      intro b s l s' hrun hl
      obtain ⟨bs, s₁, _, hpure⟩ := bind_eq_ok hrun
      cases hpure
      exact (hQ _ _ _ _ hl).1

end

/-! ## What a reader accepts -/

section

variable [ByteSource σ]

/-- In front of `l`, `m` gives `a` and leaves `r` if and only if `F a r`. -/
def ReadsIff (m : EStateM ε σ α) (l : List UInt8) (F : α → List UInt8 → Prop) : Prop :=
  ∀ s, At s l →
    (∀ a s', m s = .ok a s' → ∃ r, F a r ∧ At s' r ∧ Same s s') ∧
      ∀ a r, F a r → ∃ s', m s = .ok a s' ∧ At s' r ∧ Same s s'

variable {m : EStateM ε σ α} {l : List UInt8} {F G : α → List UInt8 → Prop}

/-- The same set of results, said differently. -/
theorem ReadsIff.congr (hm : ReadsIff m l F) (h : ∀ a r, F a r ↔ G a r) : ReadsIff m l G := by
  have heq : F = G := funext fun a => funext fun r => propext (h a r)
  rw [← heq]
  exact hm

theorem ReadsIff.pure (a : α) (l : List UInt8) :
    ReadsIff (pure a : EStateM ε σ α) l fun b r => b = a ∧ r = l := by
  intro s hs
  constructor
  · intro b s' h
    cases h
    exact ⟨l, ⟨rfl, rfl⟩, hs, same_refl s⟩
  · intro b r h
    rcases h with ⟨rfl, rfl⟩
    exact ⟨s, rfl, hs, same_refl s⟩

/-- A reader that throws. -/
theorem ReadsIff.of_error (h : ∀ s, At s l → ∃ e s', m s = .error e s') :
    ReadsIff m l fun _ _ => False := by
  intro s hs
  constructor
  · intro a s' hok
    rcases h s hs with ⟨e, s₁, herr⟩
    rw [herr] at hok
    cases hok
  · intro a r hF
    exact hF.elim

/-- One reader after the other. -/
theorem ReadsIff.bind {f : α → EStateM ε σ β} {H : α → List UInt8 → β → List UInt8 → Prop}
    (hm : ReadsIff m l F) (hf : ∀ a r, F a r → ReadsIff (f a) r (H a r)) :
    ReadsIff (m >>= f) l fun b r' => ∃ a r, F a r ∧ H a r b r' := by
  intro s hs
  rcases hm s hs with ⟨hsound, hcomplete⟩
  constructor
  · intro b s' h
    rcases bind_eq_ok h with ⟨a, s₁, ha, hb⟩
    rcases hsound a s₁ ha with ⟨r, hF, hs₁, hsame₁⟩
    rcases (hf a r hF s₁ hs₁).1 b s' hb with ⟨r', hH, hs', hsame'⟩
    exact ⟨r', ⟨a, r, hF, hH⟩, hs', same_trans hsame₁ hsame'⟩
  · intro b r' h
    rcases h with ⟨a, r, hF, hH⟩
    rcases hcomplete a r hF with ⟨s₁, ha, hs₁, hsame₁⟩
    rcases (hf a r hF s₁ hs₁).2 b r' hH with ⟨s', hb, hs', hsame'⟩
    refine ⟨s', ?_, hs', same_trans hsame₁ hsame'⟩
    rw [bind_of_ok ha]
    exact hb

/-- After a reader whose bytes are known. -/
theorem Reads.bind_readsIff {f : α → EStateM ε σ β} {bs r : List UInt8} {a : α}
    {H : β → List UInt8 → Prop} (hm : Reads m bs a) (hf : ReadsIff (f a) r H) :
    ReadsIff (m >>= f) (bs ++ r) H := by
  intro s hs
  rcases hm s r hs with ⟨s₁, ha, hs₁, hsame₁⟩
  rw [bind_of_ok ha]
  constructor
  · intro b s' h
    rcases (hf s₁ hs₁).1 b s' h with ⟨r', hH, hs', hsame'⟩
    exact ⟨r', hH, hs', same_trans hsame₁ hsame'⟩
  · intro b r' hH
    rcases (hf s₁ hs₁).2 b r' hH with ⟨s', hb, hs', hsame'⟩
    exact ⟨s', hb, hs', same_trans hsame₁ hsame'⟩

/-- After a reader that accepts nothing. -/
theorem ReadsIff.bind_of_false {f : α → EStateM ε σ β} (hm : ReadsIff m l fun _ _ => False) :
    ReadsIff (m >>= f) l fun _ _ => False := by
  refine (hm.bind (H := fun _ _ _ _ => False) fun a r h => h.elim).congr ?_
  simp

end

/-! ## Writers -/

section

variable [ByteSink τ]

/-- `m` appends `bs`. -/
def Writes (m : EStateM ε τ Unit) (bs : List UInt8) : Prop :=
  ∀ t, ∃ t', m t = .ok () t' ∧ Wrote t bs t'

theorem Writes.pure : Writes (pure () : EStateM ε τ Unit) [] :=
  fun t => ⟨t, rfl, nil t⟩

/-- One writer after the other. -/
theorem Writes.bind {m : EStateM ε τ Unit} {f : Unit → EStateM ε τ Unit} {bs cs : List UInt8}
    (hm : Writes m bs) (hf : Writes (f ()) cs) : Writes (m >>= f) (bs ++ cs) := by
  intro t
  obtain ⟨u, hu, hbs⟩ := hm t
  obtain ⟨v, hv, hcs⟩ := hf u
  refine ⟨v, ?_, append hbs hcs⟩
  rw [bind_of_ok hu]
  exact hv

/-- A loop over the items to write. -/
def writeAll (f : α → EStateM ε τ Unit) : List α → EStateM ε τ Unit
  | [] => Pure.pure ()
  | a :: as => do
    f a
    writeAll f as

omit [ByteSink τ] in
theorem writeAll_map (f : β → EStateM ε τ Unit) (g : α → β) (items : List α) :
    writeAll f (items.map g) = writeAll (fun a => f (g a)) items := by
  induction items with
  | nil => rfl
  | cons a items ih =>
    rw [List.map_cons, writeAll, writeAll, ih]

theorem Writes.writeAll {f : α → EStateM ε τ Unit} {enc : α → List UInt8} (items : List α)
    (h : ∀ a ∈ items, Writes (f a) (enc a)) :
    Writes ( ByteIO.writeAll f items) (items.flatMap enc) := by
  induction items with
  | nil => exact Writes.pure
  | cons a items ih =>
    rw [List.flatMap_cons]
    exact Writes.bind (h a List.mem_cons_self) (ih fun c hc => h c (List.mem_cons_of_mem a hc))

/-- A loop over items of which each is written somehow. -/
theorem Writes.writeAll_exists {f : α → EStateM ε τ Unit} (items : List α)
    (h : ∀ a ∈ items, ∃ bs, Writes (f a) bs) : ∃ bs, Writes ( ByteIO.writeAll f items) bs := by
  induction items with
  | nil => exact ⟨[], Writes.pure⟩
  | cons a items ih =>
    rcases h a List.mem_cons_self with ⟨bs, hbs⟩
    rcases ih fun c hc => h c (List.mem_cons_of_mem a hc) with ⟨cs, hcs⟩
    exact ⟨bs ++ cs, hbs.bind hcs⟩

/-- `m` appends some bytes, the same to every sink, or it always throws. -/
def Puts (m : EStateM ε τ Unit) : Prop :=
  (∃ bs, Writes m bs) ∨ ∀ t, ∃ e t', m t = .error e t'

theorem Writes.puts {m : EStateM ε τ Unit} {bs : List UInt8} (h : Writes m bs) : Puts m :=
  Or.inl ⟨bs, h⟩

theorem Puts.bind {m : EStateM ε τ Unit} {f : Unit → EStateM ε τ Unit} (hm : Puts m)
    (hf : Puts (f ())) : Puts (m >>= f) := by
  rcases hm with ⟨bs, hbs⟩ | hthrow
  · rcases hf with ⟨cs, hcs⟩ | hthrow
    · exact (hbs.bind hcs).puts
    · refine Or.inr fun t => ?_
      rcases hbs t with ⟨u, hu, _⟩
      rcases hthrow u with ⟨e, v, hv⟩
      refine ⟨e, v, ?_⟩
      rw [bind_of_ok hu]
      exact hv
  · refine Or.inr fun t => ?_
    rcases hthrow t with ⟨e, u, hu⟩
    exact ⟨e, u, bind_of_error hu⟩

theorem Puts.writeAll {f : α → EStateM ε τ Unit} (items : List α)
    (h : ∀ a ∈ items, Puts (f a)) : Puts ( ByteIO.writeAll f items) := by
  induction items with
  | nil => exact Writes.pure.puts
  | cons a items ih =>
    exact Puts.bind (h a List.mem_cons_self) (ih fun c hc => h c (List.mem_cons_of_mem a hc))

end

/-! ## Round trips -/

/-- What `w` appends, `m` reads as `a`. -/
def RoundTrips {ε' : Type} [ByteSink τ] [ByteSource σ] (w : EStateM ε' τ Unit)
    (m : EStateM ε σ α) (a : α) : Prop :=
  ∃ bs, Writes w bs ∧ Reads m bs a

end ByteIO
