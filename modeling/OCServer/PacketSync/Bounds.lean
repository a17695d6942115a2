import OCServer.PacketSync.Run

/-!
# The bounds of the framer's buffers

`Reaches ps chunks r` says that `recvdata`, fed with `chunks` one after the
other, gets to the state `r`.  `Safe r` says that the counters of `r` are
inside their buffers and that the next step makes no access outside.

The header of a frame declares its length in 32 bits, and the framer casts
that length to `int`.  `safe_iff_smallHead` says exactly when a run is
safe: when no step accepts a header that declares `2 ^ 31 - 1` bytes or
more.  `acceptHead_large` is what goes wrong otherwise.
-/

namespace OCServer

open MachineInt Loop PacketSync

namespace Recv

/-- The counters are inside their buffers. -/
structure Bounds (r : Recv) : Prop where
  true_le : r.ps.truepacketlen ≤ r.ps.threadReaddata.len
  head_le : r.ps.parsetype = .head → r.ps.headpos + 1 + headLen ≤ r.ps.truepacketlen
  got_le : r.ps.parsetype = .head → r.ps.getdatalen ≤ r.ps.theNexPacket.datalen.toNat + 1
  room : r.ps.parsetype = .head →
    r.ps.theNexPacket.datalen.toNat + 1 ≤ r.ps.threadPacketdata.len

/-- The counters are inside their buffers, and every access of the next
step is. -/
structure Safe (r : Recv) : Prop where
  bounds : Bounds r
  next : ∃ r', r.step = .ok r'

/-- The states that `recvdata` goes through while it is fed with the
chunks. -/
inductive Reaches (ps : PacketSync) : List Chunk → Recv → Prop
  | first (c : Chunk) : Reaches ps [c] (enter ps c)
  | step {chunks : List Chunk} {r r' : Recv} : Reaches ps chunks r → r.step = .ok r' →
      Reaches ps chunks r'
  | next {chunks : List Chunk} {r : Recv} (c : Chunk) : Reaches ps chunks r →
      r.pc = .done → Reaches ps (chunks ++ [c]) (enter r.ps c)

/-- The invariant of the machine keeps the counters inside the buffers. -/
theorem Inv.bounds {r : Recv} (h : Inv r) : Bounds r where
  true_le := Nat.le_trans h.shape.true_le r.ps.threadReaddata.init_le
  head_le hp := by
    obtain ⟨n, hd, body, hframe⟩ := h.frame hp
    have htrue := hframe.true_eq h.shape
    rw [hframe.headpos_eq]
    omega
  got_le hp := by
    obtain ⟨n, hd, body, hframe⟩ := h.frame hp
    exact hframe.got_le
  room hp := by
    obtain ⟨n, hd, body, hframe⟩ := h.frame hp
    exact hframe.room

/-- A state whose next header is small is safe. -/
theorem Inv.safe {r : Recv} (h : Inv r) (hsmall : SmallHead r) : Safe r where
  bounds := h.bounds
  next := by
    by_cases hpc : r.pc = .done
    · exact ⟨r, step_done hpc⟩
    · obtain ⟨r', _, hstep, _⟩ := step_ok h hpc hsmall
      exact ⟨r', hstep⟩

/-- A step that accepts no large header keeps the invariant. -/
theorem Inv.step {r r' : Recv} (h : Inv r) (hsmall : SmallHead r) (hstep : r.step = .ok r') :
    Inv r' := by
  by_cases hpc : r.pc = .done
  · rw [step_done hpc] at hstep
    cases hstep
    exact h
  · obtain ⟨r'', _, hstep', hsteps⟩ := step_ok h hpc hsmall
    rw [hstep'] at hstep
    cases hstep
    exact hsteps.inv

/-! ## A large header -/

/-- The packet buffer is shrunk to nothing, and `datalen + 1` is zero. -/
structure Stuck (r : Recv) : Prop where
  pc_eq : r.pc = .payload
  head_eq : r.ps.parsetype = .head
  need_eq : r.ps.need = 0
  len_eq : r.ps.threadPacketdata.len = 0

theorem Stuck.not_bounds {r : Recv} (h : Stuck r) : ¬Bounds r := by
  intro hb
  have hroom := hb.room h.head_eq
  rw [h.len_eq] at hroom
  omega

/-- A header that declares `2 ^ 31 - 1` bytes or more: the `int` that bounds
the first copy is negative, or the packet buffer is shrunk to nothing. -/
theorem acceptHead_large {r : Recv} {n hd body : List UInt8} (hs : Shape r.ps)
    (h : Headed r.ps n hd body) (hlarge : 2 ^ 31 - 1 ≤ r.ps.theNexPacket.datalen.toNat) :
    r.acceptHead = .error .outOfBounds ∨ ∃ r', r.acceptHead = .ok r' ∧ Stuck r' := by
  have hL : headLen = 8 := rfl
  have hlt := hs.true_lt
  have htrue := h.true_eq hs
  have hbuf := h.buffered_eq hs
  have hread := hs.read_hi
  have hpacket := hs.packet_hi
  have h32 := r.ps.theNexPacket.datalen.toNat_lt
  have hneed : r.ps.need = (r.ps.theNexPacket.datalen.toNat + 1) % 2 ^ 32 := by
    rw [need, UInt32.toNat_add]
    rfl
  have hbufint : toInt r.ps.buffered = body.length := by
    rw [hbuf]
    exact toInt_eq (by omega)
  rw [acceptHead]
  by_cases hmax : r.ps.theNexPacket.datalen.toNat = 2 ^ 32 - 1
  · -- `datalen + 1` wraps to zero
    right
    have hzero : r.ps.need = 0 := by
      rw [hneed, hmax]
      decide
    have hg : intToSize (min (toInt r.ps.buffered) (toInt r.ps.need)) = 0 := by
      have hmin : min (body.length : Int) ((0 : Nat) : Int) = (0 : Nat) :=
        Int.min_eq_right (Int.ofNat_le.mpr (Nat.zero_le _))
      rw [hbufint, hzero, toInt_eq (by omega), hmin, intToSize_natCast (by omega)]
    have hgrow : r.ps.threadPacketdata.len < szAdd r.ps.theNexPacket.datalen.toNat 1 := by
      rw [szAdd_eq (by omega)]
      omega
    rw [hg, if_neg (Nat.lt_irrefl 0), if_pos hgrow, hzero]
    exact ⟨_, rfl, rfl, rfl, hzero, rfl⟩
  · -- `datalen + 1` is negative as an `int`
    left
    have hneed' : r.ps.need = r.ps.theNexPacket.datalen.toNat + 1 := by
      rw [hneed]
      omega
    clear hneed
    have hneg : toInt r.ps.need = (r.ps.need : Int) - 2 ^ 32 :=
      toInt_neg (by omega) (by omega)
    have hmin : min (toInt r.ps.buffered) (toInt r.ps.need) = (r.ps.need : Int) - 2 ^ 32 := by
      rw [hbufint, hneg]
      exact Int.min_eq_right (by omega)
    have hg := intToSize_neg (i := (r.ps.need : Int) - 2 ^ 32) (by omega) (by omega)
    have hoff : szAdd (szAdd r.ps.headpos 1) headLen = n.length + 1 + headLen := by
      rw [h.headpos_eq, szAdd_eq (a := n.length) (by omega), szAdd_eq (by omega)]
    rw [hmin, if_pos (by omega), hoff, Block.read_fault (by omega)]
    rfl

/-- The first head byte of a list is unique. -/
theorem split_unique {c : UInt8} {n n' s s' : List UInt8} (hn : c ∉ n) (hn' : c ∉ n')
    (h : n ++ c :: s = n' ++ c :: s') : n = n' ∧ s = s' := by
  have hdrop := congrArg (List.dropWhile (· ≠ c)) h
  rw [dropWhile_head hn, dropWhile_head hn'] at hdrop
  exact ⟨List.append_cancel_right (hdrop ▸ h), (List.cons.inj hdrop).2⟩

/-- A step that accepts a large header leaves the buffers. -/
theorem step_large {r : Recv} {p : NetPacket} (hinv : Inv r) (hp : r.nextHead = some p)
    (hlarge : 2 ^ 31 - 1 ≤ p.datalen.toNat) :
    r.step = .error .outOfBounds ∨ ∃ r', r.step = .ok r' ∧ Stuck r' := by
  obtain ⟨hpc, hmore, hnothing, n, s, hsplit, hn, hlong, hheader, hacc⟩ := nextHead_cases hp
  obtain ⟨b, t, i, hfill, hblen, hinit, _, _, _, hwindow, _, _⟩ :=
    fill_ok hinv.shape hinv.iret_le
  have hparse : r.step = r.parseNothing := by
    rw [step, hpc]
    simp only [if_pos hmore, hnothing]
  rw [hparse, parseNothing, hfill, ok_bind]
  set r₁ : Recv := { r with
    ps := { r.ps with threadReaddata := b, truepacketlen := t }, iret := i } with hr₁
  have hshape : Shape r₁.ps := hinv.shape.of_len hblen rfl hinit
  have hsplit₁ : r₁.ps.readBytes = n ++ r₁.ps.head :: s := hwindow.trans hsplit
  rcases Block.memchr_take (c := r₁.ps.head) hshape.true_le with
    ⟨_, hnotin⟩ | ⟨n', s', hsome, hn', hsplit'⟩
  · change r₁.ps.head ∉ r₁.ps.readBytes at hnotin
    rw [hsplit₁] at hnotin
    exact absurd (List.mem_append_right _ (List.mem_cons_self)) hnotin
  · obtain ⟨rfl, rfl⟩ := split_unique hn' hn (hsplit'.symm.trans hsplit₁)
    rw [findHead_accept hshape hsome hsplit₁ hlong (by rw [hheader]; exact hacc), hheader]
    have hheaded : Headed
        { r₁.ps with headpos := n'.length, theNexPacket := p }
        n' (s'.take headLen) (s'.drop headLen) :=
      { read_eq := by rw [List.take_append_drop]; exact hsplit₁
        headpos_eq := rfl
        noise := hn'
        hd_length := by rw [List.length_take]; omega
        packet_eq := (charToNetPacket_take s' hlong).trans hheader
        accepts := hacc }
    exact acceptHead_large (r := { r₁ with
      ps := { r₁.ps with headpos := n'.length, theNexPacket := p } })
      (hshape.of_len rfl rfl hshape.true_le) hheaded hlarge

/-- When the next step does not leave the buffers, its header is small. -/
theorem smallHead_of_step {r : Recv} (hinv : Inv r)
    (hnext : ∃ r', r.step = .ok r' ∧ Bounds r') : SmallHead r := by
  obtain ⟨r', hstep, hb⟩ := hnext
  intro p hp
  by_contra hlarge
  rcases step_large hinv hp (by omega) with herr | ⟨r'', hstep', hstuck⟩
  · rw [herr] at hstep
    cases hstep
  · rw [hstep'] at hstep
    cases hstep
    exact hstuck.not_bounds hb

/-! ## Whole runs -/

/-- Along a run whose headers are small the invariant holds. -/
theorem Reaches.inv {ps : PacketSync} (hps : PacketSync.Inv ps) {chunks cs : List Chunk}
    {r : Recv} (h : Reaches ps cs r) (hcs : cs <+: chunks)
    (hsmall : ∀ cs r, cs <+: chunks → Reaches ps cs r → SmallHead r) : Inv r := by
  induction h with
  | first c => exact hps.enter c
  | step hr hstep ih => exact (ih hcs).step (hsmall _ _ hcs hr) hstep
  | next c hr hdone ih =>
    have hinv := ih ((List.prefix_append _ _).trans hcs)
    exact (PacketSync.Inv.of_done hinv hdone).enter c

/-- Along a safe run the invariant holds. -/
theorem Reaches.inv_of_safe {ps : PacketSync} (hps : PacketSync.Inv ps)
    {chunks cs : List Chunk} {r : Recv} (h : Reaches ps cs r) (hcs : cs <+: chunks)
    (hsafe : ∀ cs r, cs <+: chunks → Reaches ps cs r → Safe r) : Inv r := by
  induction h with
  | first c => exact hps.enter c
  | step hr hstep ih =>
    have hsmall := smallHead_of_step (ih hcs)
      ⟨_, hstep, (hsafe _ _ hcs (.step hr hstep)).bounds⟩
    exact (ih hcs).step hsmall hstep
  | next c hr hdone ih =>
    have hinv := ih ((List.prefix_append _ _).trans hcs)
    exact (PacketSync.Inv.of_done hinv hdone).enter c

/-- For every list of chunks: every state that a fresh framer reaches while
it reads them is safe, if and only if no step accepts a header that
declares `2 ^ 31 - 1` bytes or more. -/
theorem safe_iff_smallHead (uninit : NetPacket) (head tail : UInt8) (userdata : Nat)
    (chunks : List Chunk) :
    (∀ cs r, cs <+: chunks → Reaches (fresh uninit head tail userdata) cs r → Safe r) ↔
      ∀ cs r, cs <+: chunks → Reaches (fresh uninit head tail userdata) cs r →
        SmallHead r := by
  have hps := inv_fresh uninit head tail userdata
  constructor
  · intro hsafe cs r hcs hr
    obtain ⟨r', hstep⟩ := (hsafe cs r hcs hr).next
    exact smallHead_of_step (hr.inv_of_safe hps hcs hsafe)
      ⟨r', hstep, (hsafe cs r' hcs (.step hr hstep)).bounds⟩
  · intro hsmall cs r hcs hr
    exact (hr.inv hps hcs hsmall).safe (hsmall cs r hcs hr)

/-- A chunk that starts a frame of `2 ^ 31 - 1` bytes. -/
def largeFrame : Chunk where
  bytes := [0x0C, 0x01, 0x0C, 0xEA, 0x09, 0x7F, 0xFF, 0xFF, 0xFF]
  size_lt := by decide

/-- The framer does not stay inside its buffers on every input. -/
theorem not_always_safe :
    ¬∀ cs r, Reaches (fresh (charToNetPacket []) 0x0C 0xEA 0) cs r → Safe r := by
  intro hsafe
  have hinv := (inv_fresh (charToNetPacket []) 0x0C 0xEA 0).enter largeFrame
  have hhead : (enter (fresh (charToNetPacket []) 0x0C 0xEA 0) largeFrame).nextHead =
      some { version := 1, header := 0x0C, tail := 0xEA, type := 9, datalen := 0x7FFFFFFF } := by
    decide
  obtain ⟨r', hstep⟩ := (hsafe _ _ (.first largeFrame)).next
  rcases step_large hinv hhead (by simp) with herr | ⟨r'', hstep', hstuck⟩
  · rw [herr] at hstep
    cases hstep
  · exact hstuck.not_bounds (hsafe _ _ (.step (.first largeFrame) hstep')).bounds

/-! ## What the bytes say -/

/-- What a state of a run on a sane stream keeps: the invariant, and a
stream that is still sane with the bytes to come. -/
theorem Reaches.sane {ps : PacketSync} (hps : PacketSync.Inv ps) {cs : List Chunk}
    {r : Recv} (h : Reaches ps cs r) (hsane : Sane ps.head ps.tail (ps.pending ++ concat cs)) :
    Inv r ∧ SameConfig ps r.ps ∧
      ∃ evs, Advances ps.head ps.tail (ps.pending ++ concat cs) evs r.stream := by
  induction h with
  | first c =>
    refine ⟨hps.enter c, SameConfig.refl ps, [], ?_⟩
    have hc : concat [c] = c.bytes := List.append_nil _
    rw [hc]
    exact .refl _
  | @step cs r r' hr hstep ih =>
    obtain ⟨hinv, hcfg, evs, hadv⟩ := ih hsane
    by_cases hpc : r.pc = .done
    · rw [step_done hpc] at hstep
      cases hstep
      exact ⟨hinv, hcfg, evs, hadv⟩
    · have hsmall : SmallHead r := by
        apply smallHead_of_sane
        rw [hcfg.head_eq, hcfg.tail_eq]
        exact hadv.sane hsane
      obtain ⟨r'', evs', hstep', hsteps⟩ := step_ok hinv hpc hsmall
      rw [hstep'] at hstep
      cases hstep
      have hone := hsteps.advance
      rw [hcfg.head_eq, hcfg.tail_eq] at hone
      exact ⟨hsteps.inv, hcfg.trans hsteps.config, _, hadv.trans (.step hone (.refl _))⟩
  | @next cs r c hr hdone ih =>
    have hconcat : concat (cs ++ [c]) = concat cs ++ c.bytes := by
      rw [concat, concat, List.map_append, List.flatten_append]
      exact congrArg _ (List.append_nil _)
    rw [hconcat, ← List.append_assoc] at hsane ⊢
    obtain ⟨hinv, hcfg, evs, hadv⟩ := ih (sane_left hsane)
    have hrest : r.rest = [] := by
      apply List.drop_eq_nil_of_le
      rw [(hinv.drained hdone).1]
    rw [stream, hrest, List.append_nil] at hadv
    exact ⟨(PacketSync.Inv.of_done hinv hdone).enter c, hcfg, evs, hadv.append c.bytes⟩

/-- On a sane byte string every state is safe. -/
theorem safe_of_sane (uninit : NetPacket) (head tail : UInt8) (userdata : Nat)
    {chunks : List Chunk} {r : Recv} (hsane : Sane head tail (concat chunks))
    (h : Reaches (fresh uninit head tail userdata) chunks r) : Safe r := by
  obtain ⟨hinv, hcfg, evs, hadv⟩ := h.sane (inv_fresh uninit head tail userdata) hsane
  apply hinv.safe
  apply smallHead_of_sane
  rw [hcfg.head_eq, hcfg.tail_eq]
  exact hadv.sane hsane

end Recv

end OCServer
