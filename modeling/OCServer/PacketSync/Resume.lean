import Mathlib.Data.List.Infix
import OCServer.PacketSync.Bounds

/-!
# What a framer hands over

A framer that is kept for another stream still holds what it has not
decided.  `recvdata_returned` says what a call that returned has done, also
on a stream that is not sane: the step that accepts a large header never
leads to a return.

`MidFrame s` says that a frame may still come out of the end of `s`.  When
it does not, the scanner decides the bytes that follow as if they came
first (`scan_after`), and when it does, some bytes that hold no frame of
their own complete one (`MidFrame.completes`).
-/

namespace OCServer

open MachineInt Loop PacketSync

namespace Recv

/-- A framer without room for the payload never returns. -/
theorem Stuck.not_done {r : Recv} (h : Stuck r) :
    ∀ (n : Nat) (r' : Recv), iterate Recv.step n r = .ok r' → r'.pc ≠ .done := by
  have htake : r.step = .ok { r with pc := .tailTest } := by
    unfold step
    rw [h.pc_eq]
    simp only [takePayload, h.need_eq, Nat.not_lt_zero, if_false]
    rfl
  have htail : ∃ e, step { r with pc := .tailTest } = .error e := by
    refine ⟨.outOfBounds, ?_⟩
    have hget : r.ps.threadPacketdata.get r.ps.theNexPacket.datalen.toNat =
        .error .outOfBounds := Block.get_fault (by rw [h.len_eq]; exact Nat.zero_le _)
    unfold step
    simp only [hget]
    rfl
  obtain ⟨e, htail⟩ := htail
  intro n r' hrun
  cases n with
  | zero =>
    cases hrun
    rw [h.pc_eq]
    exact fun hpc => by cases hpc
  | succ n =>
    rw [iterate_succ_ok n htake] at hrun
    cases n with
    | zero =>
      cases hrun
      exact fun hpc => by cases hpc
    | succ n =>
      rw [iterate_succ_error n htail] at hrun
      cases hrun

/-- A loop that has ended has gone through good steps only. -/
theorem going_of_returned {r₀ : Recv} :
    ∀ (n : Nat) (r r' : Recv) (evs : List ScanEvent), Going r₀ r evs →
      iterate Recv.step n r = .ok r' → r'.pc = .done → ∃ evs', Going r₀ r' evs' := by
  intro n
  induction n with
  | zero =>
    intro r r' evs hgoing hrun _
    cases hrun
    exact ⟨evs, hgoing⟩
  | succ n ih =>
    intro r r' evs hgoing hrun hdone
    by_cases hpc : r.pc = .done
    · rw [iterate_fixed (step_done hpc)] at hrun
      cases hrun
      exact ⟨evs, hgoing⟩
    · by_cases hsmall : SmallHead r
      · obtain ⟨r₁, evs₁, hstep, hsteps⟩ := step_ok hgoing.inv hpc hsmall
        rw [iterate_succ_ok n hstep] at hrun
        exact ih r₁ r' _ (hgoing.step hsteps) hrun hdone
      · unfold SmallHead at hsmall
        simp only [not_forall, not_lt] at hsmall
        obtain ⟨p, hp, hlarge⟩ := hsmall
        rcases step_large hgoing.inv hp hlarge with herr | ⟨r₁, hstep, hstuck⟩
        · rw [iterate_succ_error n herr] at hrun
          cases hrun
        · rw [iterate_succ_ok n hstep] at hrun
          exact absurd hdone (hstuck.not_done n r' hrun)

end Recv

namespace PacketSync

/-- A call of `recvdata` that returned, on any bytes. -/
theorem recvdata_returned {ps ps' : PacketSync} {data : Chunk} {out : List Delivery}
    (hinv : Inv ps) (h : ps.recvdata data = .ok (ps', out)) :
    ∃ evs, out = deliveries ps.packetCb evs ∧ Inv ps' ∧ SameConfig ps ps' ∧
      Advances ps.head ps.tail (ps.pending ++ data.bytes) evs ps'.pending := by
  unfold recvdata at h
  cases hrun : iterate Recv.step (ps.fuel data) (Recv.enter ps data) with
  | error e =>
    rw [hrun] at h
    cases h
  | ok r =>
    rw [hrun, ok_bind] at h
    by_cases hdone : r.pc = .done
    · rw [if_pos hdone] at h
      cases h
      obtain ⟨evs, hgoing⟩ :=
        Recv.going_of_returned _ _ r [] (.refl (hinv.enter data)) hrun hdone
      have hrest : r.rest = [] := by
        apply List.drop_eq_nil_of_le
        rw [(hgoing.inv.drained hdone).1]
      have hadv := hgoing.advances
      rw [Recv.stream, Recv.stream, hrest, List.append_nil] at hadv
      exact ⟨evs, hgoing.out_eq, .of_done hgoing.inv hdone, hgoing.config, hadv⟩
    · rw [if_neg hdone] at h
      cases h

/-- Any number of calls that returned. -/
theorem recvAll_returned {ps ps' : PacketSync} {chunks : List Chunk} {out : List Delivery}
    (hinv : Inv ps) (h : ps.recvAll chunks = .ok (ps', out)) :
    ∃ evs, out = deliveries ps.packetCb evs ∧ Inv ps' ∧ SameConfig ps ps' ∧
      Advances ps.head ps.tail (ps.pending ++ concat chunks) evs ps'.pending := by
  obtain ⟨evs, hout, ⟨hinv', hcfg⟩, hadv⟩ :=
    Incremental.feedAll_returned (decider ps.head ps.tail) (deliveries ps.packetCb)
      Chunk.bytes recvdata (fun st => Inv st ∧ SameConfig ps st) pending
      (deliveries_nil _) (deliveries_append _)
      (by
        rintro st c st' out ⟨hst, hcfg⟩ hfeed
        obtain ⟨evs, hout, hst', hcfg', hadv⟩ := recvdata_returned hst hfeed
        rw [hcfg.cb_eq] at hout
        rw [hcfg.head_eq, hcfg.tail_eq] at hadv
        exact ⟨evs, hout, ⟨hst', hcfg.trans hcfg'⟩, hadv⟩)
      chunks ps ps' out ⟨hinv, SameConfig.refl ps⟩ h
  exact ⟨evs, hout, hinv', hcfg, hadv⟩

end PacketSync

/-! ## The end of a stream -/

/-- What follows a head byte may still be a frame. -/
def Viable (head tail : UInt8) (s : List UInt8) : Prop :=
  (∀ b ∈ s[1]?, b = head) ∧ (∀ b ∈ s[2]?, b = tail) ∧
    (headLen ≤ s.length → s.length ≤ headLen + (charToNetPacket s).datalen.toNat)

instance (head tail : UInt8) (s : List UInt8) : Decidable (Viable head tail s) :=
  inferInstanceAs (Decidable (_ ∧ _ ∧ (_ → _)))

/-- A frame may start here. -/
def Opens (head tail : UInt8) : List UInt8 → Prop
  | [] => False
  | b :: s => b = head ∧ Viable head tail s

instance (head tail : UInt8) : (s : List UInt8) → Decidable (Opens head tail s)
  | [] => inferInstanceAs (Decidable False)
  | b :: s => inferInstanceAs (Decidable (b = head ∧ Viable head tail s))

/-- A frame may start somewhere in `s`. -/
def SomeOpens (head tail : UInt8) (s : List UInt8) : Prop :=
  ∃ t ∈ s.tails, Opens head tail t

instance (head tail : UInt8) (s : List UInt8) : Decidable (SomeOpens head tail s) :=
  inferInstanceAs (Decidable (∃ t ∈ s.tails, Opens head tail t))

/-- `s` ends where a frame may have started. -/
def MidFrame (head tail : UInt8) (s : List UInt8) : Prop :=
  SomeOpens head tail (scan head tail s).2

instance (head tail : UInt8) (s : List UInt8) : Decidable (MidFrame head tail s) :=
  inferInstanceAs (Decidable (SomeOpens head tail _))

section

variable {head tail : UInt8}

theorem someOpens_cons {b : UInt8} {s : List UInt8} :
    SomeOpens head tail (b :: s) ↔ Opens head tail (b :: s) ∨ SomeOpens head tail s := by
  unfold SomeOpens
  rw [List.tails_cons]
  simp

theorem not_midFrame_nil : ¬MidFrame head tail [] := by
  rintro ⟨t, ht, hopens⟩
  obtain rfl : t = [] := List.mem_singleton.mp ht
  exact hopens

/-- The header test looks at two bytes. -/
theorem accepts_iff {s : List UInt8} (hs : headLen ≤ s.length) :
    Accepts head tail (charToNetPacket s) ↔ s[1]? = some head ∧ s[2]? = some tail := by
  match s, hs with
  | c0 :: c1 :: c2 :: c3 :: c4 :: c5 :: c6 :: c7 :: _, _ =>
    simp [Accepts, charToNetPacket]

/-- A head byte that no frame can start at is rejected, as soon as there
are enough bytes. -/
theorem not_accepts_of_not_viable {s b : List UInt8} (hs : s.length < headLen)
    (hlong : headLen ≤ (s ++ b).length) (h : ¬Viable head tail s) :
    ¬Accepts head tail (charToNetPacket (s ++ b)) := by
  intro hacc
  obtain ⟨h1, h2⟩ := (accepts_iff hlong).mp hacc
  apply h
  refine ⟨fun c hc => ?_, fun c hc => ?_, fun hle => absurd hle (by omega)⟩
  · have hlt := (List.getElem?_eq_some_iff.mp hc).1
    rw [List.getElem?_append_left hlt, Option.mem_def.mp hc] at h1
    exact Option.some.inj h1
  · have hlt := (List.getElem?_eq_some_iff.mp hc).1
    rw [List.getElem?_append_left hlt, Option.mem_def.mp hc] at h2
    exact Option.some.inj h2

/-- The rest of a scan is not longer than what was scanned. -/
theorem scan_rest_length (s : List UInt8) : (scan head tail s).2.length ≤ s.length := by
  induction hlen : s.length using Nat.strongRecOn generalizing s with
  | ind l ih =>
    cases s with
    | nil => exact Nat.zero_le _
    | cons b s =>
      rcases scan_cases head tail b s with hstop | ⟨e, s', hadv, hlt⟩
      · rw [hstop, hlen]
      · rw [hadv.scan]
        have hle := ih s'.length (by omega) s' rfl
        show (scan head tail s').2.length ≤ l
        omega

/-- Too few bytes for a head byte and a header hold no header. -/
theorem scanHeads_of_short {s : List UInt8} (h : s.length ≤ headLen) :
    scanHeads head tail s = [] := by
  unfold scanHeads
  rw [scan_events_of_short (by omega), List.map_nil, List.nil_append]
  have hle : (scan head tail s).2.length ≤ s.length := scan_rest_length s
  cases hrest : (scan head tail s).2 with
  | nil => rfl
  | cons b t =>
    rw [hrest, List.length_cons] at hle
    exact if_neg (by omega)

/-- Few bytes in which no frame can start do not change what follows. -/
theorem scan_dead {r : List UInt8} (hr : r.length ≤ headLen) (h : ¬SomeOpens head tail r)
    (b : List UInt8) :
    (scan head tail (r ++ b)).1 = (scan head tail b).1 ∧
      scanHeads head tail (r ++ b) = scanHeads head tail b := by
  induction r with
  | nil => exact ⟨rfl, rfl⟩
  | cons x r ih =>
    rw [someOpens_cons, not_or] at h
    rw [List.length_cons] at hr
    obtain ⟨hevents, hheads⟩ := ih (by omega) h.2
    by_cases hx : x = head
    · subst hx
      have hviable : ¬Viable x tail r := fun hv => h.1 ⟨rfl, hv⟩
      by_cases hlong : headLen ≤ (r ++ b).length
      · have hscan := scan_badHead hlong
          (not_accepts_of_not_viable (by omega) hlong hviable)
        rw [← List.cons_append] at hscan
        unfold scanHeads at hheads ⊢
        rw [hscan]
        exact ⟨hevents, hheads⟩
      · rw [List.length_append] at hlong
        have hshort : (x :: r ++ b).length ≤ headLen := by
          rw [List.length_append, List.length_cons]
          omega
        rw [scan_events_of_short (by omega), scan_events_of_short (s := b) (by omega),
          scanHeads_of_short hshort, scanHeads_of_short (s := b) (by omega)]
        exact ⟨rfl, rfl⟩
    · have hscan : scan head tail (x :: r ++ b) = scan head tail (r ++ b) := scan_of_ne hx (r ++ b)
      unfold scanHeads at hheads ⊢
      rw [hscan]
      exact ⟨hevents, hheads⟩

/-- The rest of a scan is short, or it starts with a frame that waits for
its payload. -/
theorem scan_rest_opens (a : List UInt8) :
    (scan head tail a).2.length ≤ headLen ∨ Opens head tail (scan head tail a).2 := by
  rcases scan_rest_cases head tail a with hrest | ⟨s, hrest, hs | ⟨hs, hacc, hwait⟩⟩
  · rw [hrest]
    exact Or.inl (Nat.zero_le _)
  · rw [hrest, List.length_cons]
    exact Or.inl (by omega)
  · obtain ⟨h1, h2⟩ := (accepts_iff hs).mp hacc
    rw [hrest]
    refine Or.inr ⟨rfl, fun c hc => ?_, fun c hc => ?_, fun _ => hwait⟩
    · rw [h1] at hc
      exact (Option.some.inj hc).symm
    · rw [h2] at hc
      exact (Option.some.inj hc).symm

theorem someOpens_of_opens {s : List UInt8} (h : Opens head tail s) :
    SomeOpens head tail s := by
  cases s with
  | nil => exact absurd h id
  | cons b s => exact someOpens_cons.mpr (Or.inl h)

/-- Where a stream does not end inside a frame, what follows is scanned as
if it came first. -/
theorem scan_after {a : List UInt8} (h : ¬MidFrame head tail a) (b : List UInt8) :
    (scan head tail (a ++ b)).1 = (scan head tail a).1 ++ (scan head tail b).1 ∧
      scanHeads head tail (a ++ b) =
        (scan head tail a).1.map ScanEvent.head ++ scanHeads head tail b := by
  have hshort : (scan head tail a).2.length ≤ headLen :=
    (scan_rest_opens a).resolve_right fun hopens => h (someOpens_of_opens hopens)
  obtain ⟨hevents, hheads⟩ := scan_dead hshort h b
  unfold scanHeads at hheads ⊢
  rw [scan_append, hevents]
  refine ⟨rfl, ?_⟩
  rw [List.map_append, List.append_assoc, ← hheads, hevents]

/-! ## A frame across the border -/

/-- Bytes that hold no frame and no header. -/
def Blank (head tail : UInt8) (b : List UInt8) : Prop :=
  (scan head tail b).1 = [] ∧ scanHeads head tail b = []

theorem blank_of_not_mem {b : List UInt8} (h : head ∉ b) : Blank head tail b := by
  have hscan : scan head tail (b ++ []) = scan head tail [] := scan_noise h []
  rw [List.append_nil, scan_nil] at hscan
  unfold Blank scanHeads
  rw [hscan]
  exact ⟨rfl, rfl⟩

/-- `b` completes a frame that starts in front of it. -/
def Completes (head tail : UInt8) (s b : List UInt8) : Prop :=
  ∃ p data evs, (scan head tail (s ++ b)).1 = .frame p data :: evs

/-- The payload and the tail byte that a header still waits for. -/
theorem completes_of_header {s : List UInt8} (hs : headLen ≤ s.length)
    (hacc : Accepts head tail (charToNetPacket s))
    (hwait : s.length ≤ headLen + (charToNetPacket s).datalen.toNat) (fill : UInt8) :
    Completes head tail (head :: s) (List.replicate
      (headLen + (charToNetPacket s).datalen.toNat - s.length) fill ++ [tail]) := by
  set n := headLen + (charToNetPacket s).datalen.toNat - s.length with hn
  have hlong : headLen ≤ (s ++ (List.replicate n fill ++ [tail])).length := by
    rw [List.length_append]
    omega
  have hheader := charToNetPacket_append hs (List.replicate n fill ++ [tail])
  have htail : (s ++ (List.replicate n fill ++ [tail]))[headLen +
      (charToNetPacket (s ++ (List.replicate n fill ++ [tail]))).datalen.toNat]? =
        some tail := by
    rw [hheader, ← List.append_assoc, List.getElem?_append_right (by
      rw [List.length_append, List.length_replicate]
      omega), List.length_append, List.length_replicate,
      show headLen + (charToNetPacket s).datalen.toNat - (s.length + n) = 0 by omega]
    rfl
  unfold Completes
  rw [List.cons_append, scan_frame hlong (by rwa [hheader]) htail]
  exact ⟨_, _, _, rfl⟩

/-- What is missing of a header, with an empty payload where the length is
missing as well. -/
def headerEnd (head tail : UInt8) (s : List UInt8) : List UInt8 :=
  [0, head, tail, 0, 0, 0, 0, 0].drop s.length

theorem headerEnd_length {s : List UInt8} (hs : s.length < headLen) :
    (s ++ headerEnd head tail s).length = headLen := by
  have hL : headLen = 8 := rfl
  rw [headerEnd, List.length_append, List.length_drop]
  simp only [List.length_cons, List.length_nil]
  omega

theorem accepts_headerEnd {s : List UInt8} (hs : s.length < headLen)
    (h : Viable head tail s) :
    Accepts head tail (charToNetPacket (s ++ headerEnd head tail s)) := by
  rw [accepts_iff (Nat.le_of_eq (headerEnd_length hs).symm)]
  obtain ⟨h1, h2, _⟩ := h
  unfold headerEnd
  constructor
  · by_cases hlt : 1 < s.length
    · rw [List.getElem?_append_left hlt, List.getElem?_eq_getElem hlt]
      exact congrArg some (h1 _ (List.getElem?_eq_getElem hlt))
    · rw [List.getElem?_append_right (by omega), List.getElem?_drop,
        show s.length + (1 - s.length) = 1 by omega]
      rfl
  · by_cases hlt : 2 < s.length
    · rw [List.getElem?_append_left hlt, List.getElem?_eq_getElem hlt]
      exact congrArg some (h2 _ (List.getElem?_eq_getElem hlt))
    · rw [List.getElem?_append_right (by omega), List.getElem?_drop,
        show s.length + (2 - s.length) = 2 by omega]
      rfl

/-- The end of a header and an empty payload are blank. -/
theorem blank_headerEnd (hzero : head ≠ 0) (hne : head ≠ tail) {s : List UInt8}
    (hs : s.length < headLen) :
    Blank head tail (headerEnd head tail s ++ (List.replicate (headLen +
      (charToNetPacket (s ++ headerEnd head tail s)).datalen.toNat - headLen) 0 ++ [tail])) := by
  by_cases htwo : 2 ≤ s.length
  · -- the head byte of the header is in front
    apply blank_of_not_mem
    intro hmem
    rw [List.mem_append, List.mem_append, List.mem_replicate, List.mem_singleton] at hmem
    rcases hmem with hmem | ⟨_, h0⟩ | ht
    · have hdrop : headerEnd head tail s = [tail, 0, 0, 0, 0, 0].drop (s.length - 2) := by
        unfold headerEnd
        rw [show s.length = 2 + (s.length - 2) by omega, ← List.drop_drop,
          Nat.add_sub_cancel_left]
        rfl
      rw [hdrop] at hmem
      have := List.mem_of_mem_drop hmem
      simp only [List.mem_cons, hne, hzero, List.not_mem_nil, or_false] at this
    · exact hzero h0
    · exact hne ht
  · cases s with
    | nil =>
      have hscan : scan head tail [0, head, tail, 0, 0, 0, 0, 0, tail] = _ :=
        scan_of_ne (Ne.symm hzero) [head, tail, 0, 0, 0, 0, 0, tail]
      show (scan head tail [0, head, tail, 0, 0, 0, 0, 0, tail]).1 = [] ∧
        scanHeads head tail [0, head, tail, 0, 0, 0, 0, 0, tail] = []
      unfold scanHeads
      rw [hscan]
      exact ⟨scan_events_of_short (show 8 < headLen + 2 by decide),
        scanHeads_of_short (Nat.le_refl 8)⟩
    | cons c s =>
      have hnil : s = [] := by
        rw [List.length_cons] at htwo
        exact List.length_eq_zero_iff.mp (by omega)
      subst hnil
      show (scan head tail [head, tail, 0, 0, 0, 0, 0, tail]).1 = [] ∧
        scanHeads head tail [head, tail, 0, 0, 0, 0, 0, tail] = []
      exact ⟨scan_events_of_short (show 8 < headLen + 2 by decide),
        scanHeads_of_short (Nat.le_refl 8)⟩

/-- Blank bytes complete a frame that may have started. -/
theorem completes_of_opens (hzero : head ≠ 0) (hne : head ≠ tail) {s : List UInt8}
    (h : Opens head tail s) : ∃ b, Blank head tail b ∧ Completes head tail s b := by
  cases s with
  | nil => exact absurd h id
  | cons c s =>
    obtain ⟨rfl, hviable⟩ := h
    have hL : headLen = 8 := rfl
    by_cases hs : headLen ≤ s.length
    · have hacc : Accepts c tail (charToNetPacket s) := by
        rw [accepts_iff hs]
        rw [List.getElem?_eq_getElem (show 1 < s.length by omega),
          List.getElem?_eq_getElem (show 2 < s.length by omega)]
        exact ⟨congrArg some (hviable.1 _ (List.getElem?_eq_getElem _)),
          congrArg some (hviable.2.1 _ (List.getElem?_eq_getElem _))⟩
      refine ⟨_, blank_of_not_mem ?_, completes_of_header hs hacc (hviable.2.2 hs) 0⟩
      rw [List.mem_append, List.mem_replicate, List.mem_singleton]
      intro h
      rcases h with ⟨_, h0⟩ | ht
      · exact hzero h0
      · exact hne ht
    · rw [not_le] at hs
      refine ⟨_, blank_headerEnd hzero hne hs, ?_⟩
      have hlen : (s ++ headerEnd c tail s).length = headLen := headerEnd_length hs
      have hdone := completes_of_header (Nat.le_of_eq hlen.symm)
        (accepts_headerEnd hs hviable) (by rw [hlen]; omega) 0
      rw [hlen] at hdone
      unfold Completes at hdone ⊢
      rw [List.cons_append, List.append_assoc] at hdone
      rwa [List.cons_append]

/-- Bytes in which a frame may start, and that are few or start with it. -/
theorem completes_of_someOpens (hzero : head ≠ 0) (hne : head ≠ tail) {r : List UInt8}
    (hr : r.length ≤ headLen ∨ Opens head tail r) (h : SomeOpens head tail r) :
    ∃ b, Blank head tail b ∧ Completes head tail r b := by
  induction r with
  | nil =>
    obtain ⟨t, ht, hopens⟩ := h
    rw [List.mem_singleton.mp ht] at hopens
    exact absurd hopens id
  | cons x r ih =>
    by_cases hopens : Opens head tail (x :: r)
    · exact completes_of_opens hzero hne hopens
    · have hlen := hr.resolve_right hopens
      rw [List.length_cons] at hlen
      obtain ⟨b, hblank, p, data, evs, hscan⟩ :=
        ih (Or.inl (by omega)) ((someOpens_cons.mp h).resolve_left hopens)
      refine ⟨b, hblank, p, data, evs, ?_⟩
      rw [List.cons_append]
      by_cases hx : x = head
      · subst hx
        have hlong : headLen ≤ (r ++ b).length := by
          by_contra hshort
          rw [scan_events_of_short (by omega)] at hscan
          cases hscan
        rw [scan_badHead hlong (not_accepts_of_not_viable (by omega) hlong
          fun hv => hopens ⟨rfl, hv⟩), hscan]
      · rw [scan_of_ne hx, hscan]

/-- Where a stream ends inside a frame, some bytes without a frame of their
own complete one. -/
theorem MidFrame.completes (hzero : head ≠ 0) (hne : head ≠ tail) {a : List UInt8}
    (h : MidFrame head tail a) :
    ∃ b p data evs, Blank head tail b ∧
      (scan head tail (a ++ b)).1 = (scan head tail a).1 ++ .frame p data :: evs := by
  obtain ⟨b, hblank, p, data, evs, hscan⟩ := 
    completes_of_someOpens hzero hne (scan_rest_opens a) h
  refine ⟨b, p, data, evs, hblank, ?_⟩
  rw [scan_append, hscan]

end

end OCServer
