import OCServer.PacketSync.Resume
import OCServer.UvNet.Own

/-!
# A context that is used again

`on_new_connection` hands out contexts that have been used before, and does
not reset their framer.  `Alone s c` says that the connection that has just
got the context `c` is not affected: its packets are those that a newly
constructed framer delivers for its bytes.

`left s c` are the undecided bytes in the framer of `c`, and `run_left` says
that they and the bytes that arrive decide what is delivered, whatever else
the server does.  From this `alone_iff_left` says when a connection is
alone: when what is left in its framer does not end inside a frame.

A context that has had a connection has been deleted by its close callback,
and the others have never got a byte (`Unread`).  So `alone_iff` says which
runs hand out nothing but contexts that are as good as new: those in which
no accept takes a context that has been released.
-/

namespace OCServer

open MachineInt Machine PacketSync

namespace Uvnet

/-- The bytes that an event hands to the framer of `c`. -/
def bytesOf (c : Nat) : NetEvent → List UInt8
  | .recv client data => if client = c then data.bytes else []
  | _ => []

/-- The bytes that some events hand to the framer of `c`. -/
def heard (c : Nat) (es : List NetEvent) : List UInt8 := es.flatMap (bytesOf c)

/-- The chunks that some events hand to the framer of `c`. -/
def chunksOf (c : Nat) (es : List NetEvent) : List Chunk :=
  es.filterMap fun
    | .recv client data => if client = c then some data else none
    | _ => none

/-- The packets of the connection that has the context `c`. -/
def packetsOf (c : Nat) (out : List Delivery) : List Delivery :=
  out.filter fun d => d.userdata = c

/-- The connection that has just got `c` gets the packets of a newly
constructed framer: if the bytes that arrive are sane, and as long as `c` is
not handed out again, whatever the server does. -/
def Alone (s : Uvnet) (c : Nat) : Prop :=
  (∀ chunks uninit, Sane 0x0C 0xEA (concat chunks) →
    ∃ s' ps out, run s (chunks.map (.recv c)) = .ok (s', out) ∧
      (fresh uninit 0x0C 0xEA c).recvAll chunks = .ok (ps, out)) ∧
  ∀ es s' out uninit ps out', run s es = .ok (s', out) →
    Along step (fun t e => t.handsOut e ≠ some c) s es →
    (fresh uninit 0x0C 0xEA c).recvAll (chunksOf c es) = .ok (ps, out') →
    packetsOf c out = out'

/-- The framer is as its constructor leaves it. -/
structure Initial (ps : PacketSync) : Prop where
  truepacketlen_eq : ps.truepacketlen = 0
  headpos_eq : ps.headpos = 2 ^ 64 - 1
  parsetype_eq : ps.parsetype = .nothing
  getdatalen_eq : ps.getdatalen = 0

/-- The accept `e` uses no released context, and the context `c` that it
hands out is as good as new. -/
def HandsOutNew (s : Uvnet) (e : NetEvent) (c : Nat) : Prop :=
  s.step e ≠ .error .usedAfterRelease ∧
    ∀ s' out, s.step e = .ok (s', out) → Initial (s'.ctx c).packet ∧ Alone s' c

/-! ## The framers of the server -/

/-- Every framer keeps its invariant and has the head and tail bytes of the
server, and the callback of a connection gets the context. -/
structure Framed (s : Uvnet) : Prop where
  inv : ∀ c, c < s.mallocs → Inv (s.ctx c).packet
  head_eq : ∀ c, c < s.mallocs → (s.ctx c).packet.head = 0x0C
  tail_eq : ∀ c, c < s.mallocs → (s.ctx c).packet.tail = 0xEA
  cb_eq : ∀ c, (s.ctx c).tcphandle = .reading → (s.ctx c).packet.packetCb = some c

/-- The undecided bytes in the framer of `c`. -/
def left (s : Uvnet) (c : Nat) : List UInt8 :=
  if c < s.mallocs then (s.ctx c).packet.pending else []

theorem left_start (needTls : Bool) (mem : Nat → ClientConnS) (c : Nat) :
    (start needTls mem).left c = [] := if_neg (Nat.not_lt_zero c)

theorem framed_start (needTls : Bool) (mem : Nat → ClientConnS) : Framed (start needTls mem) where
  inv c hc := absurd hc (Nat.not_lt_zero c)
  head_eq c hc := absurd hc (Nat.not_lt_zero c)
  tail_eq c hc := absurd hc (Nat.not_lt_zero c)
  cb_eq c hc := by cases hc

/-- What the callback is does not matter to the invariant of the framer. -/
theorem inv_setPacketCB {ps : PacketSync} (userdata : Nat) :
    Inv (ps.setPacketCB userdata) ↔ Inv ps := by
  constructor
  · intro h
    refine ⟨⟨h.shape.read_lo, h.shape.read_hi, h.shape.true_le, h.shape.packet_hi⟩, fun hp => ?_,
      h.settled⟩
    obtain ⟨n, hd, body, hframe, hlt⟩ := h.frame hp
    exact ⟨n, hd, body, { hframe with }, hlt⟩
  · intro h
    refine ⟨⟨h.shape.read_lo, h.shape.read_hi, h.shape.true_le, h.shape.packet_hi⟩, fun hp => ?_,
      h.settled⟩
    obtain ⟨n, hd, body, hframe, hlt⟩ := h.frame hp
    exact ⟨n, hd, body, { hframe with }, hlt⟩

/-- The same framer, perhaps with another callback. -/
def SameFramer (ps ps' : PacketSync) : Prop :=
  ps' = ps ∨ ∃ c, ps' = ps.setPacketCB c

section

variable {ps ps' ps'' : PacketSync}

theorem SameFramer.refl (ps : PacketSync) : SameFramer ps ps := Or.inl rfl

theorem SameFramer.trans (h : SameFramer ps ps') (h' : SameFramer ps' ps'') :
    SameFramer ps ps'' := by
  rcases h' with rfl | ⟨c, rfl⟩
  · exact h
  · rcases h with rfl | ⟨_, rfl⟩
    · exact Or.inr ⟨c, rfl⟩
    · exact Or.inr ⟨c, rfl⟩

theorem SameFramer.pending_eq (h : SameFramer ps ps') : ps'.pending = ps.pending := by
  rcases h with rfl | ⟨c, rfl⟩ <;> rfl

theorem SameFramer.inv (h : SameFramer ps ps') (hinv : Inv ps) : Inv ps' := by
  rcases h with rfl | ⟨c, rfl⟩
  · exact hinv
  · exact (inv_setPacketCB c).mpr hinv

theorem SameFramer.initial (h : SameFramer ps ps') (hps : Initial ps) : Initial ps' := by
  rcases h with rfl | ⟨c, rfl⟩
  · exact hps
  · exact ⟨hps.truepacketlen_eq, hps.headpos_eq, hps.parsetype_eq, hps.getdatalen_eq⟩

theorem SameFramer.config (h : SameFramer ps ps') : ps'.head = ps.head ∧ ps'.tail = ps.tail := by
  rcases h with rfl | ⟨c, rfl⟩ <;> exact ⟨rfl, rfl⟩

end

/-- What a step that feeds no framer does to them. -/
structure Idle (s s' : Uvnet) : Prop where
  mallocs_le : s.mallocs ≤ s'.mallocs
  same : ∀ c, c < s.mallocs → SameFramer (s.ctx c).packet (s'.ctx c).packet
  fresh : ∀ c, s.mallocs ≤ c → c < s'.mallocs →
    ∃ uninit, SameFramer (PacketSync.new uninit) (s'.ctx c).packet
  cb_eq : ∀ c, (s'.ctx c).tcphandle = .reading → (s'.ctx c).packet.packetCb = some c ∨
    (s.ctx c).tcphandle = .reading ∧ (s'.ctx c).packet = (s.ctx c).packet

section

variable {s s' t : Uvnet} {c : Nat}

theorem Idle.trans (h : Idle s t) (h' : Idle t s') : Idle s s' where
  mallocs_le := Nat.le_trans h.mallocs_le h'.mallocs_le
  same c hc := (h.same c hc).trans (h'.same c (Nat.lt_of_lt_of_le hc h.mallocs_le))
  fresh c hc hc' := by
    by_cases hlt : c < t.mallocs
    · obtain ⟨uninit, hsame⟩ := h.fresh c hc hlt
      exact ⟨uninit, hsame.trans (h'.same c hlt)⟩
    · exact h'.fresh c (Nat.le_of_not_lt hlt) hc'
  cb_eq c hc := by
    rcases h'.cb_eq c hc with hcb | ⟨ht, hps⟩
    · exact Or.inl hcb
    · rw [hps]
      rcases h.cb_eq c ht with hcb | ⟨hs, hps'⟩
      · exact Or.inl hcb
      · exact Or.inr ⟨hs, hps'⟩

/-- A step that changes no framer and starts no handle. -/
theorem Idle.of_eq (hm : s'.mallocs = s.mallocs)
    (hctx : ∀ c, (s'.ctx c).packet = (s.ctx c).packet ∧
      ((s'.ctx c).tcphandle = .reading → (s.ctx c).tcphandle = .reading)) : Idle s s' where
  mallocs_le := Nat.le_of_eq hm.symm
  same c _ := Or.inl (hctx c).1
  fresh _ hc hc' := absurd (hm ▸ hc') (Nat.not_lt_of_le hc)
  cb_eq c hc := Or.inr ⟨(hctx c).2 hc, (hctx c).1⟩

theorem idle_take {uninit : NetPacket} (h : Pool s)
    (ht : s.takeClientCtx uninit = .ok (c, t)) : Idle s t := by
  cases takeClientCtx_cases ht with
  | pooled c rest hlist => exact .of_eq rfl fun _ => ⟨rfl, id⟩
  | allocated hlist =>
    have hother : ∀ x, x ≠ s.mallocs →
        Function.update s.ctx s.mallocs (s.newClientCtx uninit) x = s.ctx x :=
      fun x hx => Function.update_of_ne hx _ _
    have hself : Function.update s.ctx s.mallocs (s.newClientCtx uninit) s.mallocs =
        s.newClientCtx uninit := Function.update_self _ _ _
    constructor
    case mallocs_le => exact Nat.le_succ _
    case same =>
      intro x hx
      simp only [hother x (Nat.ne_of_lt hx)]
      exact .refl _
    case fresh =>
      intro x hx hx'
      have hx' : x < s.mallocs + 1 := hx'
      obtain rfl : x = s.mallocs := by omega
      simp only [hself]
      exact ⟨uninit, .refl _⟩
    case cb_eq =>
      intro x hx
      by_cases hxc : x = s.mallocs
      · subst hxc
        simp only [hself] at hx
        have hlt := h.busy_lt s.mallocs (by
          intro hclosed
          rw [show (s.newClientCtx uninit).tcphandle = (s.ctx s.mallocs).tcphandle from rfl,
            hclosed] at hx
          cases hx)
        exact absurd hlt (Nat.lt_irrefl _)
      · simp only [hother x hxc] at hx ⊢
        exact Or.inr ⟨hx, trivial⟩

theorem idle_opened {handle : TcpHandle} {ps : PacketSync}
    (hps : ps = (s.ctx c).packet ∨ ps = (s.ctx c).packet.setPacketCB c)
    (hcb : handle = .reading → ps.packetCb = some c) : Idle s (s.opened c handle ps) := by
  have hother : ∀ x, x ≠ c → (s.opened c handle ps).ctx x = s.ctx x :=
    fun x hx => Function.update_of_ne hx _ _
  constructor
  case mallocs_le => exact Nat.le_refl _
  case same =>
    intro x _
    by_cases hxc : x = c
    · subst hxc
      rw [opened_ctx_self]
      rcases hps with rfl | rfl
      · exact .refl _
      · exact Or.inr ⟨x, rfl⟩
    · rw [hother x hxc]
      exact .refl _
  case fresh => exact fun x hx hx' => absurd hx' (Nat.not_lt_of_le hx)
  case cb_eq =>
    intro x hx
    by_cases hxc : x = c
    · subst hxc
      rw [opened_ctx_self] at hx ⊢
      exact Or.inl (hcb hx)
    · rw [hother x hxc] at hx ⊢
      exact Or.inr ⟨hx, rfl⟩

theorem idle_mapInsert (clientid c : Nat) : Idle s (s.mapInsert clientid c) := by
  unfold mapInsert
  split <;> exact .of_eq rfl fun _ => ⟨rfl, id⟩

/-- A handle that is closed or closing. -/
theorem idle_modify {handle : TcpHandle} (hread : handle ≠ .reading) :
    Idle s (s.modify c fun conn => { conn with tcphandle := handle }) := by
  refine .of_eq rfl fun x => ?_
  by_cases hxc : x = c
  · subst hxc
    rw [modify_ctx_self]
    exact ⟨rfl, fun hx => absurd hx hread⟩
  · unfold modify
    simp only [Function.update_of_ne hxc]
    exact ⟨trivial, id⟩

/-- A step that is no `recv` feeds no framer. -/
theorem idle_step {e : NetEvent} {out : List Delivery} (h : Pool s)
    (hstep : s.step e = .ok (s', out)) (hrecv : ∀ c data, e ≠ .recv c data) :
    Idle s s' ∧ out = [] := by
  have hclosed : ∀ c, Idle s (s.handleClosed c) := fun c => idle_modify (by simp)
  cases step_cases hstep with
  | newConnection haccepted =>
    refine ⟨?_, rfl⟩
    cases haccepted with
    | none => exact .of_eq rfl fun _ => ⟨rfl, id⟩
    | pushed c t htake => exact (idle_take h htake).trans (.of_eq rfl fun _ => ⟨rfl, id⟩)
    | refused c t ps htake hid hbad hps =>
      exact (idle_take h htake).trans (idle_opened hps fun hne => by cases hne)
    | connected c t htake hid =>
      exact (idle_take h htake).trans
        ((idle_opened (Or.inr rfl) fun _ => rfl).trans (idle_mapInsert _ c))
  | recv => exact absurd rfl (hrecv _ _)
  | readError hc => exact ⟨idle_modify (by simp), rfl⟩
  | @recycled c hc =>
    refine ⟨(hclosed c).trans ?_, rfl⟩
    unfold recycleTcpHandle
    split <;> exact .of_eq rfl fun _ => ⟨rfl, id⟩
  | @disconnected c hc =>
    have hcases := h.afterClientClose_cases hc
    generalize (s.handleClosed c).afterClientClose c = s' at hcases ⊢
    refine ⟨(hclosed c).trans ?_, rfl⟩
    cases hcases with
    | pushed => exact .of_eq rfl fun _ => ⟨rfl, id⟩
    | freed => exact .of_eq rfl fun _ => ⟨rfl, id⟩

theorem Framed.idle (h : Framed s) (hidle : Idle s s') : Framed s' := by
  have hsame : ∀ c, c < s'.mallocs → ∃ ps, SameFramer ps (s'.ctx c).packet ∧ Inv ps ∧
      ps.head = 0x0C ∧ ps.tail = 0xEA := by
    intro c hc
    by_cases hlt : c < s.mallocs
    · exact ⟨_, hidle.same c hlt, h.inv c hlt, h.head_eq c hlt, h.tail_eq c hlt⟩
    · obtain ⟨uninit, hsame⟩ := hidle.fresh c (Nat.le_of_not_lt hlt) hc
      exact ⟨_, hsame, (inv_setPacketCB 0).mp (inv_fresh uninit 0x0C 0xEA 0), rfl, rfl⟩
  constructor
  case inv =>
    intro c hc
    obtain ⟨ps, hps, hinv, _⟩ := hsame c hc
    exact hps.inv hinv
  case head_eq =>
    intro c hc
    obtain ⟨ps, hps, _, hhead, _⟩ := hsame c hc
    exact hps.config.1.trans hhead
  case tail_eq =>
    intro c hc
    obtain ⟨ps, hps, _, _, htail⟩ := hsame c hc
    exact hps.config.2.trans htail
  case cb_eq =>
    intro c hc
    rcases hidle.cb_eq c hc with hcb | ⟨hread, hps⟩
    · exact hcb
    · rw [hps]
      exact h.cb_eq c hread

theorem Idle.left_eq (h : Idle s s') (c : Nat) : s'.left c = s.left c := by
  unfold left
  by_cases hlt : c < s.mallocs
  · rw [if_pos hlt, if_pos (Nat.lt_of_lt_of_le hlt h.mallocs_le)]
    exact (h.same c hlt).pending_eq
  · rw [if_neg hlt]
    by_cases hlt' : c < s'.mallocs
    · obtain ⟨uninit, hsame⟩ := h.fresh c (Nat.le_of_not_lt hlt) hlt'
      rw [if_pos hlt', hsame.pending_eq]
      rfl
    · rw [if_neg hlt']

/-! ## What the framers decide -/

theorem packetsOf_deliveries (c x : Nat) (evs : List ScanEvent) :
    packetsOf c (deliveries (some x) evs) = if x = c then deliveries (some c) evs else [] := by
  unfold packetsOf deliveries
  by_cases hxc : x = c
  · subst hxc
    rw [if_pos rfl, List.filter_eq_self]
    intro d hd
    obtain ⟨f, _, rfl⟩ := List.mem_map.mp hd
    simp
  · rw [if_neg hxc, List.filter_eq_nil_iff]
    intro d hd
    obtain ⟨f, _, rfl⟩ := List.mem_map.mp hd
    simpa using hxc

/-- A framer that is fed decides its bytes. -/
theorem Framed.recv {data : Chunk} {ps : PacketSync} {out : List Delivery} (h : Framed s)
    (hpool : Pool s) (hc : (s.ctx c).tcphandle = .reading)
    (hrecv : (s.ctx c).packet.recvdata data = .ok (ps, out)) :
    Framed (s.modify c fun conn => { conn with packet := ps }) ∧
      ∃ evs, out = deliveries (some c) evs ∧
        Advances 0x0C 0xEA (s.left c ++ data.bytes) evs
          ((s.modify c fun conn => { conn with packet := ps }).left c) := by
  have hlt : c < s.mallocs := hpool.busy_lt c (by rw [hc]; exact fun hne => by cases hne)
  obtain ⟨evs, hout, hinv, hcfg, hadv⟩ := recvdata_returned (h.inv c hlt) hrecv
  rw [h.cb_eq c hc] at hout
  rw [h.head_eq c hlt, h.tail_eq c hlt] at hadv
  have hself := modify_ctx_self (s := s) c fun conn => { conn with packet := ps }
  have hother : ∀ x, x ≠ c →
      (s.modify c fun conn => { conn with packet := ps }).ctx x = s.ctx x :=
    fun x hx => Function.update_of_ne hx _ _
  refine ⟨?_, evs, hout, ?_⟩
  · constructor
    case inv =>
      intro x hx
      by_cases hxc : x = c
      · subst hxc
        rw [hself]
        exact hinv
      · rw [hother x hxc]
        exact h.inv x hx
    case head_eq =>
      intro x hx
      by_cases hxc : x = c
      · subst hxc
        rw [hself]
        exact hcfg.head_eq.trans (h.head_eq x hx)
      · rw [hother x hxc]
        exact h.head_eq x hx
    case tail_eq =>
      intro x hx
      by_cases hxc : x = c
      · subst hxc
        rw [hself]
        exact hcfg.tail_eq.trans (h.tail_eq x hx)
      · rw [hother x hxc]
        exact h.tail_eq x hx
    case cb_eq =>
      intro x hx
      by_cases hxc : x = c
      · subst hxc
        rw [hself]
        exact hcfg.cb_eq.trans (h.cb_eq x hc)
      · rw [hother x hxc] at hx ⊢
        exact h.cb_eq x hx
  · have hleft : (s.modify c fun conn => { conn with packet := ps }).left c = ps.pending := by
      show (if c < s.mallocs then _ else []) = _
      rw [if_pos hlt, hself]
    rw [hleft, left, if_pos hlt]
    exact hadv

/-- What one step decides. -/
theorem Framed.step {e : NetEvent} {out : List Delivery} (h : Framed s) (hpool : Pool s)
    (hstep : s.step e = .ok (s', out)) :
    Framed s' ∧ ∀ c, ∃ evs, packetsOf c out = deliveries (some c) evs ∧
      Advances 0x0C 0xEA (s.left c ++ bytesOf c e) evs (s'.left c) := by
  by_cases hfeeds : ∃ c data, e = .recv c data
  · obtain ⟨c, data, rfl⟩ := hfeeds
    cases step_cases hstep with
    | recv hc hrecv =>
      obtain ⟨hframed, evs, hout, hadv⟩ := h.recv hpool hc hrecv
      refine ⟨hframed, fun x => ?_⟩
      rw [hout, packetsOf_deliveries]
      have hbytes : bytesOf x (.recv c data) = if c = x then data.bytes else [] := rfl
      rw [hbytes]
      by_cases hxc : c = x
      · subst hxc
        rw [if_pos rfl, if_pos rfl]
        exact ⟨evs, rfl, hadv⟩
      · rw [if_neg hxc, if_neg hxc, List.append_nil]
        refine ⟨[], (deliveries_nil _).symm, ?_⟩
        have hleft : ∀ f, (s.modify c f).left x = s.left x := by
          intro f
          unfold left modify
          simp only [Function.update_of_ne (Ne.symm hxc)]
        rw [hleft]
        exact .refl _
  · obtain ⟨hidle, rfl⟩ := idle_step hpool hstep fun c data heq => hfeeds ⟨c, data, heq⟩
    refine ⟨h.idle hidle, fun x => ⟨[], (deliveries_nil _).symm, ?_⟩⟩
    have hbytes : bytesOf x e = [] := by
      cases e with
      | recv c data => exact absurd ⟨c, data, rfl⟩ hfeeds
      | newConnection => rfl
      | readError => rfl
      | closed => rfl
    rw [hbytes, List.append_nil, hidle.left_eq]
    exact .refl _

/-- What a run decides: for each context, the bytes that were left in its
framer and the bytes that arrive. -/
theorem run_left {es : List NetEvent} {out : List Delivery} (h : Framed s) (hpool : Pool s)
    (hrun : run s es = .ok (s', out)) :
    Framed s' ∧ Pool s' ∧ ∀ c, ∃ evs, packetsOf c out = deliveries (some c) evs ∧
      Advances 0x0C 0xEA (s.left c ++ heard c es) evs (s'.left c) := by
  refine invariant (fun es t out => Framed t ∧ Pool t ∧
      ∀ c, ∃ evs, packetsOf c out = deliveries (some c) evs ∧
        Advances 0x0C 0xEA (s.left c ++ heard c es) evs (t.left c))
    ⟨h, hpool, fun c => ⟨[], (deliveries_nil _).symm, ?_⟩⟩ ?_ es s' out hrun
  · rw [heard, List.flatMap_nil, List.append_nil]
    exact .refl _
  · rintro es e t t' out o ⟨hframed, hpool, hdecided⟩ hstep
    obtain ⟨hframed', hone⟩ := hframed.step hpool hstep
    refine ⟨hframed', hpool.step hstep, fun c => ?_⟩
    obtain ⟨evs, hout, hadv⟩ := hdecided c
    obtain ⟨evs', ho, hadv'⟩ := hone c
    refine ⟨evs ++ evs', ?_, ?_⟩
    · rw [deliveries_append, ← hout, ← ho]
      exact List.filter_append _ _
    · rw [heard, List.flatMap_append, List.flatMap_singleton, ← List.append_assoc]
      exact (hadv.append _).trans hadv'

/-- What is left in a framer is undecided. -/
theorem Framed.quiet (h : Framed s) (c : Nat) : (scan 0x0C 0xEA (s.left c)).1 = [] := by
  unfold left
  by_cases hlt : c < s.mallocs
  · rw [if_pos hlt]
    have hquiet := (h.inv c hlt).quiet
    rwa [h.head_eq c hlt, h.tail_eq c hlt] at hquiet
  · rw [if_neg hlt]
    rfl

theorem concat_chunksOf (c : Nat) (es : List NetEvent) : concat (chunksOf c es) = heard c es := by
  induction es with
  | nil => rfl
  | cons e es ih =>
    unfold concat heard at ih ⊢
    rw [List.flatMap_cons, ← ih]
    cases e with
    | recv client data =>
      by_cases hc : client = c
      · simp [chunksOf, bytesOf, hc]
      · simp [chunksOf, bytesOf, hc]
    | newConnection => simp [chunksOf, bytesOf]
    | readError => simp [chunksOf, bytesOf]
    | closed => simp [chunksOf, bytesOf]

/-- A chunk that the framer takes. -/
theorem step_recv {data : Chunk} {ps : PacketSync} {out : List Delivery} (hintact : s.Intact)
    (hc : (s.ctx c).tcphandle = .reading) (h : (s.ctx c).packet.recvdata data = .ok (ps, out)) :
    s.step (.recv c data) = .ok (s.modify c fun conn => { conn with packet := ps }, out) := by
  simp only [Uvnet.step, if_pos hintact, callback, hc, if_true, Uvnet.recvdata, h]

/-- A connection that only reads. -/
theorem run_recv {ps : PacketSync} {chunks : List Chunk} {out : List Delivery}
    (hintact : s.Intact) (hc : (s.ctx c).tcphandle = .reading)
    (h : (s.ctx c).packet.recvAll chunks = .ok (ps, out)) :
    ∃ s', run s (chunks.map (.recv c)) = .ok (s', out) := by
  induction chunks generalizing s out with
  | nil =>
    cases h
    exact ⟨s, rfl⟩
  | cons data chunks ih =>
    obtain ⟨ps', o, o', hone, hrest, rfl⟩ := Incremental.feedAll_cons_inv h
    have hself := modify_ctx_self (s := s) c fun conn => { conn with packet := ps' }
    have hintact' : (s.modify c fun conn => { conn with packet := ps' }).Intact := hintact
    generalize hmodify : (s.modify c fun conn => { conn with packet := ps' }) = t
      at hself hintact'
    have hps : (t.ctx c).packet = ps' := congrArg ClientConnS.packet hself
    rw [← hps] at hrest
    obtain ⟨s', hrun⟩ := ih hintact' ((congrArg ClientConnS.tcphandle hself).trans hc) hrest
    have hstep := step_recv hintact hc hone
    rw [hmodify] at hstep
    exact ⟨s', Incremental.feedAll_cons hstep hrun⟩

/-! ## Handing out a context -/

/-- A step that hands out `c`. -/
theorem handsOut_step {e : NetEvent} {out : List Delivery} (hpool : Pool s)
    (hstep : s.step e = .ok (s', out)) (hout : s.handsOut e = some c) :
    (s'.ctx c).tcphandle = .reading ∧ s'.released = s.released ∧ Idle s s' := by
  have hidle := idle_step hpool hstep (by
    intro c data heq
    rcases heq with rfl
    cases hout)
  rw [← and_assoc]
  refine ⟨?_, hidle.1⟩
  cases step_cases hstep with
  | @newConnection answers uninit _ haccepted =>
    simp only [handsOut] at hout
    split at hout
    · next hok =>
      obtain ⟨hstatus, hinit, haccept, hread⟩ := hok
      cases haccepted with
      | none hneg => omega
      | pushed _ _ _ hne => exact absurd hinit hne
      | refused _ _ _ _ _ hbad =>
        exact absurd (hbad.resolve_left fun h => h haccept) fun h => h hread
      | connected c' t htake hid =>
        obtain rfl : c' = c :=
          (takeClientCtx_cases htake).eq_next.trans (Option.some.inj hout)
        rw [mapInsert_ctx, opened_ctx_self, mapInsert_released]
        refine ⟨rfl, ?_⟩
        cases takeClientCtx_cases htake with
        | pooled => rfl
        | allocated => rfl
    · cases hout
  | recv => cases hout
  | readError => cases hout
  | recycled => cases hout
  | disconnected => cases hout

/-- What is left of `c` says whether its next connection is alone. -/
theorem alone_iff_left (h : Framed s) (hpool : Pool s) (hintact : s.Intact)
    (hc : (s.ctx c).tcphandle = .reading) : Alone s c ↔ ¬MidFrame 0x0C 0xEA (s.left c) := by
  have hlt : c < s.mallocs := hpool.busy_lt c (by rw [hc]; exact fun hne => by cases hne)
  have hquiet := h.quiet c
  -- what a run decides about `c`
  have hdecides : ∀ {es s' out}, run s es = .ok (s', out) →
      packetsOf c out = deliveries (some c) (scan 0x0C 0xEA (s.left c ++ heard c es)).1 := by
    intro es s' out hrun
    obtain ⟨hframed', _, hdecided⟩ := run_left h hpool hrun
    obtain ⟨evs, hout, hadv⟩ := hdecided c
    rw [hout, hadv.scan, hframed'.quiet c, List.append_nil]
  constructor
  · rintro ⟨hsane, _⟩ hmid
    obtain ⟨b, p, data, evs, hblank, hscan⟩ := hmid.completes (by decide) (by decide)
    rw [hquiet, List.nil_append] at hscan
    -- the bytes of `b`, one by one
    let chunks : List Chunk := b.map fun x => ⟨[x], Nat.one_lt_two_pow (by decide)⟩
    have hconcat : concat chunks = b := by
      unfold concat
      rw [List.map_map]
      show (b.map fun x => [x]).flatten = b
      rw [← List.flatMap_def, List.flatMap_singleton']
    have hheard : heard c (chunks.map (.recv c)) = b := by
      rw [← concat_chunksOf, ← hconcat]
      congr 1
      unfold chunksOf
      rw [List.filterMap_map]
      simp
    obtain ⟨s', ps, out, hrun, hfresh⟩ := hsane chunks (charToNetPacket []) (by
      rw [hconcat]
      intro q hq
      rw [hblank.2] at hq
      cases hq)
    obtain ⟨ps', hfresh'⟩ := recvAll_fresh (charToNetPacket []) 0x0C 0xEA c chunks (by
      rw [hconcat]
      intro q hq
      rw [hblank.2] at hq
      cases hq)
    rw [hfresh'] at hfresh
    cases hfresh
    have hpackets := hdecides hrun
    rw [hheard, hscan, hconcat, scanned, hblank.1] at hpackets
    cases hpackets
  · intro hmid
    have hafter := scan_after hmid
    constructor
    · intro chunks uninit hsane
      have hleft : s.left c = (s.ctx c).packet.pending := if_pos hlt
      have hsane' : Sane (s.ctx c).packet.head (s.ctx c).packet.tail
          ((s.ctx c).packet.pending ++ concat chunks) := by
        rw [h.head_eq c hlt, h.tail_eq c hlt, ← hleft]
        intro q hq
        rw [(hafter _).2, hquiet] at hq
        exact hsane q hq
      obtain ⟨ps, evs, hrun, _, _, _⟩ := recvAll_decides chunks (h.inv c hlt) hsane'
      obtain ⟨ps', hfresh⟩ := recvAll_fresh uninit 0x0C 0xEA c chunks hsane
      obtain ⟨s', hrun'⟩ := run_recv hintact hc hrun
      refine ⟨s', ps', _, ?_, hfresh⟩
      rw [hrun']
      have hpackets := hdecides hrun'
      rw [h.cb_eq c hc, packetsOf_deliveries, if_pos rfl, (hafter _).1, hquiet,
        List.nil_append] at hpackets
      rw [h.cb_eq c hc, hpackets, scanned]
      congr 3
      rw [← concat_chunksOf]
      congr 2
      unfold chunksOf
      rw [List.filterMap_map]
      simp
    · intro es s' out uninit ps out' hrun _ hfresh
      obtain ⟨evs, hout, hinv, hcfg, hadv⟩ :=
        recvAll_returned (inv_fresh uninit 0x0C 0xEA c) hfresh
      have hquiet' := hinv.quiet
      rw [hcfg.head_eq, hcfg.tail_eq] at hquiet'
      have hscan := congrArg Prod.fst hadv.scan
      rw [hquiet', pending_fresh, List.nil_append, concat_chunksOf] at hscan
      rw [hdecides hrun, (hafter _).1, hquiet, List.nil_append, hout]
      exact congrArg (deliveries (some c)) (hscan.trans (List.append_nil evs))

/-! ## Contexts that have no connection -/

theorem mallocs_le_step {e : NetEvent} {out : List Delivery} (hpool : Pool s)
    (hstep : s.step e = .ok (s', out)) : s.mallocs ≤ s'.mallocs := by
  by_cases hfeeds : ∃ x data, e = .recv x data
  · obtain ⟨x, data, rfl⟩ := hfeeds
    cases step_cases hstep with
    | recv => exact Nat.le_refl _
  · exact (idle_step hpool hstep fun x data heq => hfeeds ⟨x, data, heq⟩).1.mallocs_le

/-- No context is released that has not been allocated, and a context that
has no connection and has not been released has the framer of a new one. -/
structure Unread (s : Uvnet) : Prop where
  released_lt : ∀ c ∈ s.released, c < s.mallocs
  initial : ∀ c, c < s.mallocs → ¬(s.ctx c).Connected → c ∉ s.released →
    ∃ uninit, SameFramer (PacketSync.new uninit) (s.ctx c).packet

theorem unread_start (needTls : Bool) (mem : Nat → ClientConnS) : Unread (start needTls mem) where
  released_lt _ hc := absurd hc List.not_mem_nil
  initial _ hc := absurd hc (Nat.not_lt_zero _)

theorem initial_new (uninit : NetPacket) : Initial (PacketSync.new uninit) := ⟨rfl, rfl, rfl, rfl⟩

/-- A connection may change its framer, and when it ends its context is
released; any other step leaves the framers as they are. -/
theorem Unread.step {e : NetEvent} {out : List Delivery} (h : Unread s) (hpool : Pool s)
    (hstep : s.step e = .ok (s', out)) : Unread s' := by
  have hreleases := hpool.releases hstep
  have hmallocs := mallocs_le_step hpool hstep
  constructor
  case released_lt =>
    intro c hc
    rcases hreleases.mem hc with hc | hbusy
    · exact Nat.lt_of_lt_of_le (h.released_lt c hc) hmallocs
    · exact Nat.lt_of_lt_of_le (hpool.busy_lt c hbusy) hmallocs
  case initial =>
    intro c hlt hconn hrel
    have hold : ¬(s.ctx c).Connected := fun hc =>
      (hpool.connected_step hc hstep).elim hconn hrel
    have hrel' : c ∉ s.released := fun hc => hrel (hreleases.grows.subset hc)
    by_cases hfeeds : ∃ x data, e = .recv x data
    · obtain ⟨x, data, rfl⟩ := hfeeds
      cases step_cases hstep with
      | recv hx =>
        have hne : c ≠ x := fun heq => hold (heq ▸ Or.inl hx)
        have hother : ∀ f, (s.modify x f).ctx c = s.ctx c := fun _ => Function.update_of_ne hne _ _
        rw [hother]
        exact h.initial c hlt hold hrel'
    · obtain ⟨hidle, -⟩ := idle_step hpool hstep fun x data heq => hfeeds ⟨x, data, heq⟩
      by_cases hlt' : c < s.mallocs
      · obtain ⟨uninit, hsame⟩ := h.initial c hlt' hold hrel'
        exact ⟨uninit, hsame.trans (hidle.same c hlt')⟩
      · exact hidle.fresh c (Nat.le_of_not_lt hlt') hlt

/-- The accept that takes a released context. -/
theorem callback_released {e : NetEvent} (hlt : c < s.mallocs) (hc : c ∈ s.released)
    (hout : s.handsOut e = some c) : s.callback e = .error .usedAfterRelease := by
  cases e with
  | newConnection answers uninit =>
    simp only [handsOut] at hout
    split at hout
    case isFalse => cases hout
    next hok =>
    obtain rfl : s.nextClientCtx = c := Option.some.inj hout
    have htake : s.takeClientCtx uninit = .error .usedAfterRelease := by
      unfold nextClientCtx at hlt hc
      unfold takeClientCtx
      cases hlist : s.clientList with
      | nil =>
        rw [hlist] at hlt
        exact absurd hlt (Nat.lt_irrefl _)
      | cons x rest =>
        rw [hlist] at hc
        exact if_pos hc
    simp only [callback, onNewConnection, if_neg (Int.not_lt.mpr hok.1), htake]
    rfl
  | recv => cases hout
  | readError => cases hout
  | closed => cases hout

/-- The context that an accept hands out has no connection. -/
theorem Pool.next_not_connected (h : Pool s) : ¬(s.ctx s.nextClientCtx).Connected := by
  unfold nextClientCtx
  cases hlist : s.clientList with
  | nil =>
    intro hc
    exact Nat.lt_irrefl _ (h.busy_lt s.mallocs fun hne => not_connected_of_closed hne hc)
  | cons x rest => exact not_connected_of_closed (h.free_closed x (hlist ▸ List.mem_cons_self))

theorem eq_next_of_handsOut {e : NetEvent} (hout : s.handsOut e = some c) :
    c = s.nextClientCtx := by
  cases e with
  | newConnection answers uninit =>
    simp only [handsOut] at hout
    split at hout
    · exact (Option.some.inj hout).symm
    · cases hout
  | recv => cases hout
  | readError => cases hout
  | closed => cases hout

/-- The accept that takes a context that has not been released. -/
theorem step_ne_usedAfterRelease {e : NetEvent} (hintact : s.Intact) (hc : c ∉ s.released)
    (hout : s.handsOut e = some c) : s.step e ≠ .error .usedAfterRelease := by
  have hnext := eq_next_of_handsOut hout
  cases e with
  | newConnection answers uninit =>
    simp only [handsOut] at hout
    split at hout
    case isFalse => cases hout
    next hok =>
    obtain ⟨hstatus, hinit, haccept, hread⟩ := hok
    obtain ⟨⟨x, t⟩, htake⟩ : ∃ r, s.takeClientCtx uninit = .ok r := by
      unfold nextClientCtx at hnext
      unfold takeClientCtx
      cases hlist : s.clientList with
      | nil => exact ⟨_, rfl⟩
      | cons x rest =>
        rw [hlist] at hnext
        rcases hnext with rfl
        exact ⟨_, if_neg hc⟩
    have hnew : s.onNewConnection answers uninit ≠ .error .usedAfterRelease := by
      unfold onNewConnection getAvailaClientID
      rw [if_neg (Int.not_lt.mpr hstatus), htake]
      by_cases hid : t.sId + 1 < 2 ^ 31
      · simp only [Bind.bind, Except.bind, hinit, haccept, hread, ne_eq, not_true, if_false,
          if_pos hid]
        exact fun heq => by cases heq
      · simp only [Bind.bind, Except.bind, hinit, ne_eq, not_true, if_false, if_neg hid]
        exact fun heq => by cases heq
    rw [Uvnet.step, if_pos hintact, callback]
    cases hrun : s.onNewConnection answers uninit with
    | error stop => exact fun heq => hnew (hrun.trans (congrArg _ (Except.error.inj heq)))
    | ok t => exact fun heq => by cases heq
  | recv => cases hout
  | readError => cases hout
  | closed => cases hout

/-- What an accept hands out is as good as new, unless it has been
released. -/
theorem handsOutNew_iff {e : NetEvent} (h : Framed s) (hpool : Pool s) (hunread : Unread s)
    (hout : s.handsOut e = some c) : HandsOutNew s e c ↔ s.Intact ∧ c ∉ s.released := by
  constructor
  · rintro ⟨hlive, -⟩
    by_contra hbad
    apply hlive
    unfold Uvnet.step
    by_cases hintact : s.Intact
    · have hc : c ∈ s.released := not_not.mp fun hc => hbad ⟨hintact, hc⟩
      rw [if_pos hintact]
      exact callback_released (hunread.released_lt c hc) hc hout
    · rw [if_neg hintact]
  · rintro ⟨hintact, hc⟩
    refine ⟨fun herror => step_ne_usedAfterRelease hintact hc hout herror, ?_⟩
    intro s' out hstep
    obtain ⟨hread, hreleased, hidle⟩ := handsOut_step hpool hstep hout
    have hpool' := hpool.step hstep
    have hlt' : c < s'.mallocs := hpool'.busy_lt c (by
      rw [hread]
      exact fun hne => by cases hne)
    -- no byte has got to its framer
    have hnew : ∃ uninit, SameFramer (PacketSync.new uninit) (s'.ctx c).packet := by
      by_cases hlt : c < s.mallocs
      · have hconn := hpool.next_not_connected
        rw [← eq_next_of_handsOut hout] at hconn
        obtain ⟨uninit, hsame⟩ := hunread.initial c hlt hconn hc
        exact ⟨uninit, hsame.trans (hidle.same c hlt)⟩
      · exact hidle.fresh c (Nat.le_of_not_lt hlt) hlt'
    obtain ⟨uninit, hsame⟩ := hnew
    refine ⟨hsame.initial (initial_new uninit), ?_⟩
    have hleft : s'.left c = [] := (if_pos hlt').trans hsame.pending_eq
    have hintact' : s'.Intact := by
      unfold Intact
      rwa [hreleased]
    rw [alone_iff_left (h.idle hidle) hpool' hintact' hread, hleft]
    exact not_midFrame_nil

end

/-- For every sequence of callbacks: every accept that gets a context uses no
released one, and hands out a framer in its initial state that delivers what
a newly constructed one would, if and only if no accept takes a context that
has been released, and none is made after a second release. -/
theorem alone_iff (needTls : Bool) (mem : Nat → ClientConnS) (es : List NetEvent) :
    (∀ pre e post s out c, es = pre ++ e :: post →
      run (start needTls mem) pre = .ok (s, out) → s.handsOut e = some c →
      HandsOutNew s e c) ↔
    Along step (fun s e => ∀ c, s.handsOut e = some c → s.Intact ∧ c ∉ s.released)
      (start needTls mem) es := by
  have hkept : ∀ {pre s out}, run (start needTls mem) pre = .ok (s, out) →
      Framed s ∧ Pool s ∧ Unread s := by
    intro pre s out hrun
    refine invariant (fun _ s _ => Framed s ∧ Pool s ∧ Unread s)
      ⟨framed_start needTls mem, pool_start needTls mem, unread_start needTls mem⟩ ?_ pre s out hrun
    rintro _ e t t' _ o ⟨hframed, hpool, hunread⟩ hstep
    exact ⟨(hframed.step hpool hstep).1, hpool.step hstep, hunread.step hpool hstep⟩
  constructor
  · intro hnew pre e post hes s out hrun c hout
    obtain ⟨hframed, hpool, hunread⟩ := hkept hrun
    exact (handsOutNew_iff hframed hpool hunread hout).mp
      (hnew pre e post s out c hes hrun hout)
  · intro halong pre e post s out c hes hrun hout
    obtain ⟨hframed, hpool, hunread⟩ := hkept hrun
    exact (handsOutNew_iff hframed hpool hunread hout).mpr
      (halong pre e post hes s out hrun c hout)

/-- The first byte of a frame. -/
def headByte : Chunk where
  bytes := [0x0C]
  size_lt := by decide

/-- A client that sends a head byte and goes, and the client after it, whose
context has been deleted. -/
theorem not_always_alone :
    ¬∀ pre e s out c, run (start false fun _ => blankCtx) pre = .ok (s, out) →
      s.handsOut e = some c → HandsOutNew s e c := by
  intro halone
  let accept : NetEvent := .newConnection ⟨0, 0, 0, 0⟩ (charToNetPacket [])
  obtain ⟨s, hopen, hc, hpacket, hnext⟩ : ∃ s,
      run (start false fun _ => blankCtx) [accept] = .ok (s, []) ∧
        (s.ctx 0).tcphandle = .reading ∧
        (s.ctx 0).packet = fresh (charToNetPacket []) 0x0C 0xEA 0 ∧
        s.Intact ∧
        ∀ ps, ∃ t, run (s.modify 0 fun conn => { conn with packet := ps })
            [.readError 0, .closed 0] = .ok (t, []) ∧
          t.step accept = .error .usedAfterRelease ∧ t.handsOut accept = some 0 :=
    ⟨_, rfl, rfl, rfl, List.nodup_nil, fun ps => ⟨_, rfl, rfl, rfl⟩⟩
  -- the framer keeps the byte
  obtain ⟨ps, hps⟩ := recvAll_fresh (charToNetPacket []) 0x0C 0xEA 0 [headByte] (by decide)
  obtain ⟨ps, o, _, hone, _, _⟩ := Incremental.feedAll_cons_inv hps
  rw [← hpacket] at hone
  obtain ⟨hintact, hnext⟩ := hnext
  obtain ⟨t, hclose, hstep, hout⟩ := hnext ps
  have hrun := run_trans hopen (run_trans (run_one (step_recv hintact hc hone)) hclose)
  exact (halone _ accept t _ 0 hrun hout).1 hstep

end Uvnet

end OCServer
