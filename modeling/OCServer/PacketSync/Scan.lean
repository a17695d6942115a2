import OCServer.PacketSync.Model

/-!
# The reference scanner

What the framer is for, stated on whole byte strings.  `scan` walks a byte
string from its start.  Where a head byte is followed by an accepted header
and, after the declared payload, by the tail byte, it emits the frame and
goes on behind it.  Where one of these tests fails on bytes that are
present, it goes on one byte later.  Where bytes are missing it stops, and
what it did not decide is the rest.

* `Advance` is the relation between a stream and what is left of it after
  one decision, and `Advances` after several.  `Advances.scan` is all that
  a machine needs to know about `scan`.
* `scan_append` says that `scan` is incremental.
* `scanHeads` lists the headers that `scan` accepts, and `Sane` says that
  none of them declares `2 ^ 31 - 1` bytes or more.
-/

namespace OCServer

/-- What the scanner decides about an accepted header: its tail byte is
wrong, or the frame is complete. -/
inductive ScanEvent
  | reject (packet : NetPacket)
  | frame (packet : NetPacket) (data : List UInt8)
  deriving DecidableEq, Repr

/-- The header of an event. -/
def ScanEvent.head : ScanEvent → NetPacket
  | .reject p => p
  | .frame p _ => p

/-- The frames among some events. -/
def frames (evs : List ScanEvent) : List (NetPacket × List UInt8) :=
  evs.filterMap fun
    | .reject _ => none
    | .frame p data => some (p, data)

@[simp] theorem frames_append (a b : List ScanEvent) :
    frames (a ++ b) = frames a ++ frames b := List.filterMap_append

/-- The header test of the framer. -/
def Accepts (head tail : UInt8) (p : NetPacket) : Prop :=
  p.header = head ∧ p.tail = tail

instance (head tail : UInt8) (p : NetPacket) : Decidable (Accepts head tail p) :=
  inferInstanceAs (Decidable (_ ∧ _))

/-- `scan` after `k` more bytes.  The counter steps over the bytes of a
frame that has been emitted. -/
def scanSkip (head tail : UInt8) : Nat → List UInt8 → List ScanEvent × List UInt8
  | _, [] => ([], [])
  | k + 1, _ :: s => scanSkip head tail k s
  | 0, b :: s =>
    if b ≠ head then scanSkip head tail 0 s
    else if s.length < headLen then ([], b :: s)
    else
      let p := charToNetPacket s
      if ¬Accepts head tail p then scanSkip head tail 0 s
      else
        match s[headLen + p.datalen.toNat]? with
        | none => ([], b :: s)
        | some t =>
          if t ≠ tail then
            let r := scanSkip head tail 0 s
            (.reject p :: r.1, r.2)
          else
            let r := scanSkip head tail (headLen + p.datalen.toNat + 1) s
            (.frame p ((s.drop headLen).take p.datalen.toNat) :: r.1, r.2)

/-- The events of a byte string, and the rest that is undecided. -/
def scan (head tail : UInt8) (s : List UInt8) : List ScanEvent × List UInt8 :=
  scanSkip head tail 0 s

section

variable {head tail : UInt8}

/-! ## One equation per branch -/

theorem scanSkip_eq (k : Nat) (s : List UInt8) :
    scanSkip head tail k s = scan head tail (s.drop k) := by
  induction k generalizing s with
  | zero => rfl
  | succ k ih =>
    cases s with
    | nil => rfl
    | cons b s => exact ih s

@[simp] theorem scan_nil : scan head tail [] = ([], []) := rfl

theorem scan_of_ne {b : UInt8} (hb : b ≠ head) (s : List UInt8) :
    scan head tail (b :: s) = scan head tail s := by
  rw [scan, scanSkip, if_pos hb, ← scan]

theorem scan_short {s : List UInt8} (hs : s.length < headLen) :
    scan head tail (head :: s) = ([], head :: s) := by
  rw [scan, scanSkip, if_neg (by simp), if_pos hs]

theorem scan_badHead {s : List UInt8} (hs : headLen ≤ s.length)
    (hp : ¬Accepts head tail (charToNetPacket s)) :
    scan head tail (head :: s) = scan head tail s := by
  rw [scan, scanSkip, if_neg (by simp), if_neg (by omega), if_pos hp, ← scan]

theorem scan_wait {s : List UInt8} (hs : headLen ≤ s.length)
    (hp : Accepts head tail (charToNetPacket s))
    (ht : s.length ≤ headLen + (charToNetPacket s).datalen.toNat) :
    scan head tail (head :: s) = ([], head :: s) := by
  rw [scan, scanSkip, if_neg (by simp), if_neg (by omega), if_neg (not_not_intro hp),
    List.getElem?_eq_none ht]

theorem scan_badTail {s : List UInt8} {t : UInt8} (hs : headLen ≤ s.length)
    (hp : Accepts head tail (charToNetPacket s))
    (ht : s[headLen + (charToNetPacket s).datalen.toNat]? = some t) (hne : t ≠ tail) :
    scan head tail (head :: s) =
      (.reject (charToNetPacket s) :: (scan head tail s).1, (scan head tail s).2) := by
  rw [scan, scanSkip, if_neg (by simp), if_neg (by omega), if_neg (not_not_intro hp), ht]
  exact if_pos hne

theorem scan_frame {s : List UInt8} (hs : headLen ≤ s.length)
    (hp : Accepts head tail (charToNetPacket s))
    (ht : s[headLen + (charToNetPacket s).datalen.toNat]? = some tail) :
    scan head tail (head :: s) =
      (.frame (charToNetPacket s)
          ((s.drop headLen).take (charToNetPacket s).datalen.toNat) ::
          (scan head tail (s.drop (headLen + (charToNetPacket s).datalen.toNat + 1))).1,
        (scan head tail (s.drop (headLen + (charToNetPacket s).datalen.toNat + 1))).2) := by
  rw [scan, scanSkip, if_neg (by simp), if_neg (by omega), if_neg (not_not_intro hp), ht,
    ← scanSkip_eq]
  exact if_neg (by simp)

/-- Bytes that are not head bytes are stepped over. -/
theorem scan_noise {n : List UInt8} (hn : head ∉ n) (s : List UInt8) :
    scan head tail (n ++ s) = scan head tail s := by
  induction n with
  | nil => rfl
  | cons b n ih =>
    rw [List.mem_cons, not_or] at hn
    rw [List.cons_append, scan_of_ne (Ne.symm hn.1), ih hn.2]

/-! ## What has been decided -/

/-- `Advance s evs s'`: some of `s` has been decided, with the events `evs`,
and `s'` is left.  `n` is noise in front of the head byte that was looked
at. -/
inductive Advance (head tail : UInt8) :
    List UInt8 → List ScanEvent → List UInt8 → Prop
  | noise (n s : List UInt8) : head ∉ n → Advance head tail (n ++ s) [] s
  | badHead (n s : List UInt8) : head ∉ n → headLen ≤ s.length →
      ¬Accepts head tail (charToNetPacket s) →
      Advance head tail (n ++ head :: s) [] s
  | badTail (n s : List UInt8) (t : UInt8) : head ∉ n → headLen ≤ s.length →
      Accepts head tail (charToNetPacket s) →
      s[headLen + (charToNetPacket s).datalen.toNat]? = some t → t ≠ tail →
      Advance head tail (n ++ head :: s) [.reject (charToNetPacket s)] s
  | frame (n s : List UInt8) : head ∉ n → headLen ≤ s.length →
      Accepts head tail (charToNetPacket s) →
      s[headLen + (charToNetPacket s).datalen.toNat]? = some tail →
      Advance head tail (n ++ head :: s)
        [.frame (charToNetPacket s)
          ((s.drop headLen).take (charToNetPacket s).datalen.toNat)]
        (s.drop (headLen + (charToNetPacket s).datalen.toNat + 1))

/-- Nothing has to be decided. -/
theorem Advance.refl (s : List UInt8) : Advance head tail s [] s :=
  .noise [] s (by simp)

/-- What has been decided is what the scanner decides first. -/
theorem Advance.scan {s s' : List UInt8} {evs : List ScanEvent}
    (h : Advance head tail s evs s') :
    scan head tail s = (evs ++ (scan head tail s').1, (scan head tail s').2) := by
  cases h with
  | noise n s hn => rw [scan_noise hn]; rfl
  | badHead n s hn hs hp => rw [scan_noise hn, scan_badHead hs hp]; rfl
  | badTail n s t hn hs hp ht hne => rw [scan_noise hn, scan_badTail hs hp ht hne]; rfl
  | frame n s hn hs hp ht => rw [scan_noise hn, scan_frame hs hp ht]; rfl

/-- Deciding an event uses up bytes. -/
theorem Advance.length_lt {s s' : List UInt8} {evs : List ScanEvent}
    (h : Advance head tail s evs s') (hne : evs ≠ []) : s'.length < s.length := by
  cases h with
  | noise n s hn => exact absurd rfl hne
  | badHead n s hn hs hp => exact absurd rfl hne
  | badTail n s t hn hs hp ht hbad =>
    rw [List.length_append, List.length_cons]
    omega
  | frame n s hn hs hp ht =>
    rw [List.length_drop, List.length_append, List.length_cons]
    omega

/-- An event takes a head byte, a header and a tail byte. -/
theorem Advance.events_length {s s' : List UInt8} {evs : List ScanEvent}
    (h : Advance head tail s evs s') (hne : evs ≠ []) : headLen + 2 ≤ s.length := by
  cases h with
  | noise n s hn => exact absurd rfl hne
  | badHead n s hn hs hp => exact absurd rfl hne
  | badTail n s t hn hs hp ht hbad =>
    have := (List.getElem?_eq_some_iff.mp ht).1
    rw [List.length_append, List.length_cons]
    omega
  | frame n s hn hs hp ht =>
    have := (List.getElem?_eq_some_iff.mp ht).1
    rw [List.length_append, List.length_cons]
    omega

/-! ## The scanner is incremental -/

/-- The rest of a scan is empty, or it starts at a head byte whose frame
cannot be decided yet. -/
theorem scan_rest_cases (head tail : UInt8) (a : List UInt8) :
    (scan head tail a).2 = [] ∨ ∃ s, (scan head tail a).2 = head :: s ∧
      (s.length < headLen ∨ headLen ≤ s.length ∧
        Accepts head tail (charToNetPacket s) ∧
        s.length ≤ headLen + (charToNetPacket s).datalen.toNat) := by
  induction hlen : a.length using Nat.strongRecOn generalizing a with
  | ind l ih =>
    cases a with
    | nil => exact Or.inl rfl
    | cons b s =>
      rw [List.length_cons] at hlen
      by_cases hb : b = head
      · subst hb
        by_cases hs : s.length < headLen
        · rw [scan_short hs]
          exact Or.inr ⟨s, rfl, Or.inl hs⟩
        · rw [not_lt] at hs
          by_cases hp : Accepts b tail (charToNetPacket s)
          · cases ht : s[headLen + (charToNetPacket s).datalen.toNat]? with
            | none =>
              have hle := List.getElem?_eq_none_iff.mp ht
              rw [scan_wait hs hp hle]
              exact Or.inr ⟨s, rfl, Or.inr ⟨hs, hp, hle⟩⟩
            | some t =>
              by_cases hne : t = tail
              · subst hne
                rw [scan_frame hs hp ht]
                exact ih _ (by rw [List.length_drop]; omega) _ rfl
              · rw [scan_badTail hs hp ht hne]
                exact ih _ (by omega) _ rfl
          · rw [scan_badHead hs hp]
            exact ih _ (by omega) _ rfl
      · rw [scan_of_ne hb]
        exact ih _ (by omega) _ rfl

/-- A header that is present does not change when bytes are added. -/
theorem charToNetPacket_append {s : List UInt8} (hs : headLen ≤ s.length)
    (b : List UInt8) : charToNetPacket (s ++ b) = charToNetPacket s := by
  rw [← charToNetPacket_take (s ++ b) (by rw [List.length_append]; omega),
    ← charToNetPacket_take s hs, List.take_append_of_le_length hs]

/-- What has been decided stays decided when bytes are added. -/
theorem Advance.append {s s' : List UInt8} {evs : List ScanEvent}
    (h : Advance head tail s evs s') (b : List UInt8) :
    Advance head tail (s ++ b) evs (s' ++ b) := by
  cases h with
  | noise n _ hn =>
    rw [List.append_assoc]
    exact .noise n (s' ++ b) hn
  | badHead n _ hn hs hp =>
    rw [List.append_assoc, List.cons_append]
    exact .badHead n (s' ++ b) hn (by rw [List.length_append]; omega)
      (by rwa [charToNetPacket_append hs])
  | badTail n _ t hn hs hp ht hne =>
    have hlt := (List.getElem?_eq_some_iff.mp ht).1
    have hadv := Advance.badTail n (s' ++ b) t hn (by rw [List.length_append]; omega)
      (by rwa [charToNetPacket_append hs])
      (by rwa [charToNetPacket_append hs, List.getElem?_append_left hlt]) hne
    rw [charToNetPacket_append hs] at hadv
    rwa [List.append_assoc, List.cons_append]
  | frame n s hn hs hp ht =>
    have hlt := (List.getElem?_eq_some_iff.mp ht).1
    have hadv := Advance.frame n (s ++ b) hn (by rw [List.length_append]; omega)
      (by rwa [charToNetPacket_append hs])
      (by rwa [charToNetPacket_append hs, List.getElem?_append_left hlt])
    rw [charToNetPacket_append hs, List.drop_append_of_le_length hs,
      List.take_append_of_le_length (by rw [List.length_drop]; omega),
      List.drop_append_of_le_length (by omega)] at hadv
    rwa [List.append_assoc, List.cons_append]

/-- A byte string is undecided as a whole, or something of it can be
decided. -/
theorem scan_cases (head tail b : UInt8) (s : List UInt8) :
    scan head tail (b :: s) = ([], b :: s) ∨
      ∃ evs s', Advance head tail (b :: s) evs s' ∧ s'.length < (b :: s).length := by
  by_cases hb : b = head
  · subst hb
    by_cases hs : s.length < headLen
    · exact Or.inl (scan_short hs)
    · rw [not_lt] at hs
      by_cases hp : Accepts b tail (charToNetPacket s)
      · cases ht : s[headLen + (charToNetPacket s).datalen.toNat]? with
        | none => exact Or.inl (scan_wait hs hp (List.getElem?_eq_none_iff.mp ht))
        | some t =>
          right
          by_cases hne : t = tail
          · subst hne
            refine ⟨_, _, .frame [] s (by simp) hs hp ht, ?_⟩
            rw [List.length_drop, List.length_cons]
            omega
          · exact ⟨_, _, .badTail [] s t (by simp) hs hp ht hne, by simp⟩
      · exact Or.inr ⟨_, _, .badHead [] s (by simp) hs hp, by simp⟩
  · exact Or.inr ⟨_, _, .noise [b] s (by simpa using Ne.symm hb), by simp⟩

/-- `scan` is incremental. -/
theorem scan_append (a b : List UInt8) :
    scan head tail (a ++ b) =
      ((scan head tail a).1 ++ (scan head tail ((scan head tail a).2 ++ b)).1,
        (scan head tail ((scan head tail a).2 ++ b)).2) := by
  induction hlen : a.length using Nat.strongRecOn generalizing a with
  | ind l ih =>
    cases a with
    | nil => rfl
    | cons c s =>
      rcases scan_cases head tail c s with hstop | ⟨evs, s', hadv, hlt⟩
      · rw [hstop]
        rfl
      · have hs' := ih s'.length (by omega) s' rfl
        rw [hadv.scan, (hadv.append b).scan, hs', List.append_assoc]

/-! ## The headers that the scanner accepts -/

/-- The header at the start of an undecided rest. -/
def pendingHead : List UInt8 → List NetPacket
  | [] => []
  | _ :: s => if headLen ≤ s.length then [charToNetPacket s] else []

/-- The headers that `scan` accepts, in order.  The last one may still
wait for its payload or its tail byte. -/
def scanHeads (head tail : UInt8) (s : List UInt8) : List NetPacket :=
  (scan head tail s).1.map ScanEvent.head ++ pendingHead (scan head tail s).2

/-- No accepted header declares `2 ^ 31 - 1` bytes or more. -/
def Sane (head tail : UInt8) (s : List UInt8) : Prop :=
  ∀ p ∈ scanHeads head tail s, p.datalen.toNat < 2 ^ 31 - 1

instance (head tail : UInt8) (s : List UInt8) : Decidable (Sane head tail s) :=
  inferInstanceAs (Decidable (∀ p ∈ scanHeads head tail s, _))

theorem Advance.scanHeads {s s' : List UInt8} {evs : List ScanEvent}
    (h : Advance head tail s evs s') :
    scanHeads head tail s =
      evs.map ScanEvent.head ++ OCServer.scanHeads head tail s' := by
  rw [OCServer.scanHeads, h.scan, OCServer.scanHeads, List.map_append, List.append_assoc]

/-- What is left of a sane stream is sane. -/
theorem Advance.sane {s s' : List UInt8} {evs : List ScanEvent}
    (h : Advance head tail s evs s') (hs : Sane head tail s) : Sane head tail s' := by
  intro p hp
  apply hs
  rw [h.scanHeads]
  exact List.mem_append_right _ hp

/-- A header that passes the test behind a head byte is accepted. -/
theorem mem_scanHeads {n s : List UInt8} (hn : head ∉ n) (hs : headLen ≤ s.length)
    (hp : Accepts head tail (charToNetPacket s)) :
    charToNetPacket s ∈ scanHeads head tail (n ++ head :: s) := by
  rw [scanHeads, scan_noise hn]
  cases ht : s[headLen + (charToNetPacket s).datalen.toNat]? with
  | none =>
    rw [scan_wait hs hp (List.getElem?_eq_none_iff.mp ht)]
    simp [pendingHead, hs]
  | some t =>
    by_cases hne : t = tail
    · subst hne
      rw [scan_frame hs hp ht]
      simp [ScanEvent.head]
    · rw [scan_badTail hs hp ht hne]
      simp [ScanEvent.head]

/-- A prefix of a sane stream is sane. -/
theorem sane_left {a b : List UInt8} (h : Sane head tail (a ++ b)) :
    Sane head tail a := by
  intro p hp
  rw [scanHeads, List.mem_append] at hp
  apply h
  rw [scanHeads, scan_append, List.map_append, List.append_assoc, ← scanHeads]
  rcases hp with hp | hp
  · exact List.mem_append_left _ hp
  · apply List.mem_append_right
    rcases scan_rest_cases head tail a with
      hrest | ⟨s, hrest, hs | ⟨hs, hacc, _⟩⟩
    · rw [hrest] at hp
      cases hp
    · rw [hrest, pendingHead, if_neg (by omega)] at hp
      cases hp
    · rw [hrest, pendingHead, if_pos hs, List.mem_singleton] at hp
      subst hp
      have hmem := mem_scanHeads (n := []) (s := s ++ b) (by simp)
        (by rw [List.length_append]; omega) (by rwa [charToNetPacket_append hs])
      rw [charToNetPacket_append hs] at hmem
      rw [hrest]
      exact hmem

/-! ## Several decisions -/

/-- A chain of decisions. -/
inductive Advances (head tail : UInt8) :
    List UInt8 → List ScanEvent → List UInt8 → Prop
  | refl (s : List UInt8) : Advances head tail s [] s
  | step {s t u : List UInt8} {e e' : List ScanEvent} : Advance head tail s e t →
      Advances head tail t e' u → Advances head tail s (e ++ e') u

namespace Advances

theorem trans {s t u : List UInt8} {e e' : List ScanEvent}
    (h : Advances head tail s e t) (h' : Advances head tail t e' u) :
    Advances head tail s (e ++ e') u := by
  induction h with
  | refl s => exact h'
  | step hadv _ ih =>
    rw [List.append_assoc]
    exact .step hadv (ih h')

theorem append {s t : List UInt8} {e : List ScanEvent} (h : Advances head tail s e t)
    (b : List UInt8) : Advances head tail (s ++ b) e (t ++ b) := by
  induction h with
  | refl s => exact .refl _
  | step hadv _ ih => exact .step (hadv.append b) ih

theorem scan {s t : List UInt8} {e : List ScanEvent} (h : Advances head tail s e t) :
    scan head tail s = (e ++ (scan head tail t).1, (scan head tail t).2) := by
  induction h with
  | refl s => rfl
  | step hadv _ ih => rw [hadv.scan, ih, List.append_assoc]

theorem sane {s t : List UInt8} {e : List ScanEvent} (h : Advances head tail s e t)
    (hs : Sane head tail s) : Sane head tail t := by
  induction h with
  | refl s => exact hs
  | step hadv _ ih => exact ih (hadv.sane hs)

end Advances

/-- The decisions of the scanner. -/
def decider (head tail : UInt8) : Decider UInt8 ScanEvent where
  rel := Advances head tail
  refl := .refl
  trans := Advances.trans
  append := Advances.append

/-- Fewer bytes than a header, a head byte and a tail byte hold no event. -/
theorem scan_events_of_short {s : List UInt8} (h : s.length < headLen + 2) :
    (scan head tail s).1 = [] := by
  induction hlen : s.length using Nat.strongRecOn generalizing s with
  | ind l ih =>
    cases s with
    | nil => rfl
    | cons b s =>
      rcases scan_cases head tail b s with hstop | ⟨e, s', hadv, hlt⟩
      · rw [hstop]
      · rw [hadv.scan, ih s'.length (by omega) (by omega) rfl, List.append_nil]
        by_contra hne
        have := hadv.events_length hne
        omega

end

end OCServer
