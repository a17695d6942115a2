import OCServer.Dispatch.Lifetime
import OCServer.UvNet.Reuse

/-!
# The sender of a message

A `FromMsg` refers to a context, and it waits in the queue of another thread
while the network thread goes on.  `Server` is the whole server: libuv
drives the network thread, which hands each packet to `ParsePacket` before
its callback returns, and the dispatch thread runs at any time.

`Bound s m` says that the context of the message `m` still has the
connection that has sent it.  The receipt of a message is what the
statement remembers of that connection; no function of the server reads it.
Only a read error ends a connection, so `bound_of_along` asks for no more
than that no connection ends while a message of it waits.
-/

namespace OCServer

open MachineInt Machine PacketSync

/-- The id of the connection that a packet came from, and how often its
context had been released. -/
structure Receipt where
  clientid : Nat
  released : Nat
  deriving DecidableEq, Repr

/-- The server.  `todo` are the packets that the callback of libuv has not
handed to `ParsePacket` yet. -/
structure Server where
  net : Uvnet
  todo : List Delivery
  msgs : Messages
  receipt : Nat → Receipt

/-- The steps of the server: a callback of libuv, a call of `ParsePacket`, or
another step of the two threads. -/
inductive ServerEvent
  | net (e : NetEvent)
  | parsePacket (junk : Nat → UInt8)
  | msgs (e : MsgEvent)

/-- Why a step is not taken. -/
inductive ServerStop
  | notEnabled
  | usedAfterRelease
  | net (stop : Stop)
  | msgs (stop : MsgStop)

namespace Server

/-- The server after its construction. -/
def start (needTls : Bool) (mem : Nat → ClientConnS) (msg : Nat → GameProto.FromMsg) : Server where
  net := .start needTls mem
  todo := []
  msgs := .start msg
  receipt := fun _ => ⟨0, 0⟩

/-- The network thread is in no callback. -/
def Idle (s : Server) : Prop :=
  s.todo = [] ∧ s.msgs.posting = none ∧ s.msgs.msgq.posters () = .outside

instance (s : Server) : Decidable s.Idle := inferInstanceAs (Decidable (_ ∧ _ ∧ _))

/-- Neither thread has released anything twice. -/
def Intact (s : Server) : Prop := s.net.Intact ∧ s.msgs.Intact

instance (s : Server) : Decidable s.Intact := inferInstanceAs (Decidable (_ ∧ _))

section

variable [FloatOps]

/-- A step of the messages. -/
def onMsgs (jc : JCommChannel) (s : Server) (e : MsgEvent) :
    Except ServerStop (Server × List MsgOp) :=
  match s.msgs.step jc e with
  | .error stop => .error (.msgs stop)
  | .ok (msgs, ops) => .ok ({ s with msgs := msgs }, ops)

/-- What is known of the sender of a packet. -/
def receiptOf (s : Server) (client : Nat) : Receipt where
  clientid := (s.net.ctx client).clientid
  released := s.net.released.count client

/-- What a step of the server does. -/
def advance (jc : JCommChannel) (s : Server) :
    ServerEvent → Except ServerStop (Server × List MsgOp)
  | .net e =>
    if s.Idle then
      match s.net.step e with
      | .error stop => .error (.net stop)
      | .ok (net, out) => .ok ({ s with net := net, todo := out }, [])
    else .error .notEnabled
  | .parsePacket junk =>
    match s.todo with
    | [] => .error .notEnabled
    | d :: rest =>
      let receipt := Function.update s.receipt s.msgs.mallocs (s.receiptOf d.userdata)
      { s with todo := rest, receipt := receipt }.onMsgs jc
        (.parsePacket d.userdata d.packet d.data junk)
  | .msgs (.parsePacket ..) => .error .notEnabled
  | .msgs e => s.onMsgs jc e

/-- One step of the server: both threads belong to one process. -/
def step (jc : JCommChannel) (s : Server) (e : ServerEvent) :
    Except ServerStop (Server × List MsgOp) :=
  if s.Intact then s.advance jc e else .error .usedAfterRelease

/-- Any order of the steps of the server. -/
abbrev run (jc : JCommChannel) : Server → List ServerEvent →
    Except ServerStop (Server × List MsgOp) :=
  Incremental.feedAll (step jc)

end

/-- The context of the message still has the connection that has sent it:
it reads, it has the id that it had, and it has not been released. -/
structure Bound (s : Server) (m : Nat) : Prop where
  reading : (s.net.ctx (s.msgs.msg m).client).tcphandle = .reading
  id_eq : (s.net.ctx (s.msgs.msg m).client).clientid = (s.receipt m).clientid
  count_eq : s.net.released.count (s.msgs.msg m).client = (s.receipt m).released

/-! ## The invariant -/

/-- Every message that waits is bound, and every packet that is not parsed
yet comes from a connection. -/
structure Fits (s : Server) : Prop where
  pool : s.net.Pool
  framed : s.net.Framed
  held_lt : ∀ m, s.msgs.Held m → m < s.msgs.mallocs
  todo : ∀ d ∈ s.todo, (s.net.ctx d.userdata).tcphandle = .reading
  bound : ∀ m, s.msgs.Held m → Bound s m

theorem fits_start (needTls : Bool) (mem : Nat → ClientConnS) (msg : Nat → GameProto.FromMsg) :
    Fits (start needTls mem msg) where
  pool := Uvnet.pool_start needTls mem
  framed := Uvnet.framed_start needTls mem
  held_lt := (Messages.traced_start msg).held_lt
  todo d hd := absurd hd List.not_mem_nil
  bound m hm := by rcases hm with hm | hm <;> cases hm

section

variable {s s' : Server}

/-- A packet comes from the connection that is read. -/
theorem reading_of_mem {net net' : Uvnet} {e : NetEvent} {out : List Delivery}
    (hpool : net.Pool) (hframed : net.Framed) (hstep : net.step e = .ok (net', out)) :
    ∀ d ∈ out, (net'.ctx d.userdata).tcphandle = .reading := by
  intro d hd
  cases Uvnet.step_cases hstep with
  | @recv c data ps out hc hrecv =>
    obtain ⟨_, evs, rfl, _⟩ := hframed.recv hpool hc hrecv
    obtain ⟨f, _, rfl⟩ := List.mem_map.mp hd
    show ((net.modify c _).ctx c).tcphandle = .reading
    rw [Uvnet.modify_ctx_self]
    exact hc
  | newConnection => exact absurd hd List.not_mem_nil
  | readError => exact absurd hd List.not_mem_nil
  | recycled => exact absurd hd List.not_mem_nil
  | disconnected => exact absurd hd List.not_mem_nil

/-- A callback of libuv that ends no connection with a message that waits. -/
theorem Fits.net {net : Uvnet} {e : NetEvent} {out : List Delivery} (h : Fits s)
    (hidle : s.Idle) (hstep : s.net.step e = .ok (net, out))
    (hopen : ∀ m ∈ s.msgs.msgq.qfmsg, e ≠ .readError (s.msgs.msg m).client) :
    Fits { s with net := net, todo := out } := by
  constructor
  case pool => exact h.pool.step hstep
  case framed => exact (h.framed.step h.pool hstep).1
  case held_lt => exact h.held_lt
  case todo => exact reading_of_mem h.pool h.framed hstep
  case bound =>
    intro m hm
    have hbound := h.bound m hm
    have hwaits : m ∈ s.msgs.msgq.qfmsg := by
      rcases hm with hm | hm
      · rw [hidle.2.1] at hm
        cases hm
      · exact hm
    have hstays := h.pool.stays hbound.reading hstep (hopen m hwaits)
    exact ⟨hstays.reading, hstays.id_eq.trans hbound.id_eq,
      hstays.count_eq.trans hbound.count_eq⟩

/-- A step that changes neither the messages nor the connections. -/
theorem Fits.keep {msgs : Messages} (h : Fits s) (hmsg : msgs.msg = s.msgs.msg)
    (hmallocs : msgs.mallocs = s.msgs.mallocs) (hheld : ∀ m, msgs.Held m → s.msgs.Held m) :
    Fits { s with msgs := msgs } where
  pool := h.pool
  framed := h.framed
  held_lt m hm := hmallocs ▸ h.held_lt m (hheld m hm)
  todo := h.todo
  bound m hm := by
    have hbound := h.bound m (hheld m hm)
    constructor <;> rw [hmsg]
    · exact hbound.reading
    · exact hbound.id_eq
    · exact hbound.count_eq

variable [FloatOps]

theorem Fits.onMsgs {jc : JCommChannel} {e : MsgEvent} {ops : List MsgOp} (h : Fits s)
    (hparse : ∀ client packet buf junk, e ≠ .parsePacket client packet buf junk)
    (hstep : s.onMsgs jc e = .ok (s', ops)) : Fits s' := by
  unfold Server.onMsgs at hstep
  split at hstep
  · cases hstep
  next msgs ops' hmsgs =>
  cases hstep
  cases Messages.step_cases hmsgs with
  | posted => exact absurd rfl (hparse _ _ _ _)
  | dropped => exact absurd rfl (hparse _ _ _ _)
  | push m msgq hm hqfmsg =>
    refine h.keep rfl rfl ?_
    intro x hx
    rcases hx with hx | hx
    · cases hx
    · have hx : x ∈ msgq.qfmsg := hx
      rw [hqfmsg, List.mem_append, List.mem_singleton] at hx
      rcases hx with hx | rfl
      · exact Or.inr hx
      · exact Or.inl hm
  | queue qe msgq he hqfmsg =>
    refine h.keep rfl rfl ?_
    intro x hx
    rcases hx with hx | hx
    · exact Or.inl hx
    · exact Or.inr (hqfmsg ▸ hx)
  | take m rest msgq hcb hqfmsg hrest =>
    refine h.keep rfl rfl ?_
    intro x hx
    rcases hx with hx | hx
    · exact Or.inl hx
    · have hx : x ∈ msgq.qfmsg := hx
      rw [hrest] at hx
      exact Or.inr (hqfmsg ▸ List.mem_cons_of_mem m hx)

/-- A packet that is parsed gets a receipt. -/
theorem Fits.parsePacket {jc : JCommChannel} {d : Delivery} {rest : List Delivery}
    {junk : Nat → UInt8} {ops : List MsgOp} (h : Fits s) (htodo : s.todo = d :: rest)
    (hstep : { s with
        todo := rest
        receipt := Function.update s.receipt s.msgs.mallocs (s.receiptOf d.userdata) }.onMsgs jc
      (.parsePacket d.userdata d.packet d.data junk) = .ok (s', ops)) : Fits s' := by
  unfold Server.onMsgs at hstep
  split at hstep
  · cases hstep
  next msgs ops' hmsgs =>
  cases hstep
  have hreading : (s.net.ctx d.userdata).tcphandle = .reading :=
    h.todo d (htodo ▸ List.mem_cons_self)
  have hrest : ∀ d' ∈ rest, (s.net.ctx d'.userdata).tcphandle = .reading := fun d' hd =>
    h.todo d' (htodo ▸ List.mem_cons_of_mem d hd)
  -- the messages that waited before keep their receipts
  have hold : ∀ msg x, s.msgs.Held x →
      Function.update s.msgs.msg s.msgs.mallocs msg x = s.msgs.msg x ∧
      Function.update s.receipt s.msgs.mallocs (s.receiptOf d.userdata) x = s.receipt x := by
    intro msg x hx
    have hne := Nat.ne_of_lt (h.held_lt x hx)
    exact ⟨Function.update_of_ne hne _ _, Function.update_of_ne hne _ _⟩
  have hbound : ∀ msg x, s.msgs.Held x →
      (s.net.ctx (Function.update s.msgs.msg s.msgs.mallocs msg x).client).tcphandle = .reading ∧
      (s.net.ctx (Function.update s.msgs.msg s.msgs.mallocs msg x).client).clientid =
        (Function.update s.receipt s.msgs.mallocs (s.receiptOf d.userdata) x).clientid ∧
      s.net.released.count (Function.update s.msgs.msg s.msgs.mallocs msg x).client =
        (Function.update s.receipt s.msgs.mallocs (s.receiptOf d.userdata) x).released := by
    intro msg x hx
    rw [(hold msg x hx).1, (hold msg x hx).2]
    have hb := h.bound x hx
    exact ⟨hb.reading, hb.id_eq, hb.count_eq⟩
  cases Messages.step_cases hmsgs with
  | posted msg hidle hclient =>
    have hheld : ∀ x, Messages.Held
        ⟨s.msgs.mallocs + 1, Function.update s.msgs.msg s.msgs.mallocs msg, some s.msgs.mallocs,
          s.msgs.msgq, s.msgs.released⟩ x → x = s.msgs.mallocs ∨ s.msgs.Held x := by
      intro x hx
      rcases hx with hx | hx
      · exact Or.inl (Option.some.inj hx).symm
      · exact Or.inr (Or.inr hx)
    refine ⟨h.pool, h.framed, ?_, hrest, ?_⟩
    · intro x hx
      rcases hheld x hx with rfl | hx
      · exact Nat.lt_succ_self _
      · exact Nat.lt_succ_of_lt (h.held_lt x hx)
    · intro x hx
      rcases hheld x hx with rfl | hx
      · constructor <;> simp only [Function.update_self, hclient]
        · exact hreading
        · rfl
        · rfl
      · obtain ⟨hread, hid, hcount⟩ := hbound msg x hx
        exact ⟨hread, hid, hcount⟩
  | dropped msg hidle =>
    refine ⟨h.pool, h.framed, fun x hx => Nat.lt_succ_of_lt (h.held_lt x hx), hrest, ?_⟩
    intro x hx
    obtain ⟨hread, hid, hcount⟩ := hbound msg x hx
    exact ⟨hread, hid, hcount⟩
  | queue qe msgq he => cases he

theorem step_intact {jc : JCommChannel} {e : ServerEvent} {ops : List MsgOp}
    (h : s.step jc e = .ok (s', ops)) : s.Intact ∧ s.advance jc e = .ok (s', ops) := by
  unfold Server.step at h
  split at h
  · next hintact => exact ⟨hintact, h⟩
  · cases h

/-- Every step that ends no connection with a message that waits. -/
theorem Fits.step {jc : JCommChannel} {e : ServerEvent} {ops : List MsgOp} (h : Fits s)
    (hstep : s.step jc e = .ok (s', ops))
    (hopen : ∀ m ∈ s.msgs.msgq.qfmsg, e ≠ .net (.readError (s.msgs.msg m).client)) : Fits s' := by
  replace hstep := (step_intact hstep).2
  cases e with
  | net e =>
    simp only [advance] at hstep
    split at hstep
    · next hidle =>
      split at hstep
      · cases hstep
      · next net out hnet =>
        cases hstep
        exact h.net hidle hnet fun m hm heq => hopen m hm (congrArg _ heq)
    · cases hstep
  | parsePacket junk =>
    simp only [advance] at hstep
    split at hstep
    · cases hstep
    · next d rest htodo => exact h.parsePacket htodo hstep
  | msgs e =>
    cases e with
    | parsePacket => cases hstep
    | push => exact h.onMsgs (by simp) hstep
    | send => exact h.onMsgs (by simp) hstep
    | afterpostCb => exact h.onMsgs (by simp) hstep
    | checkQueue => exact h.onMsgs (by simp) hstep
    | take => exact h.onMsgs (by simp) hstep

/-- For every order of the steps of the server: if no connection ends while
a message of it is in the queue, then every message that `proc_msg` gets is
bound to its sender. -/
theorem bound_of_along (jc : JCommChannel) (needTls : Bool) (mem : Nat → ClientConnS)
    (msg : Nat → GameProto.FromMsg) (es : List ServerEvent)
    (h : Along (Server.step jc)
      (fun s e => ∀ m ∈ s.msgs.msgq.qfmsg, e ≠ .net (.readError (s.msgs.msg m).client))
      (start needTls mem msg) es) :
    ∀ pre post s ops, es = pre ++ .msgs .take :: post →
      run jc (start needTls mem msg) pre = .ok (s, ops) → s.msgs.msgq.callback = .body →
      ∀ m rest, s.msgs.msgq.qfmsg = m :: rest → Bound s m := by
  intro pre post s ops hes hrun _ m rest hqfmsg
  rw [hes] at h
  have hfits : Fits s := invariant_along (fun _ s _ => Fits s) (fits_start needTls mem msg)
    (fun _ _ _ _ _ _ hfits hopen hstep => hfits.step hstep hopen) pre s ops h.left hrun
  exact hfits.bound m (Or.inr (hqfmsg ▸ List.mem_cons_self))

/-! ## A client that goes -/

/-- The first accept. -/
def acceptOne : NetEvent := .newConnection ⟨0, 0, 0, 0⟩ (charToNetPacket [])

/-- A message with the command `hi` and no attributes. -/
def hiPayload : List UInt8 := [0x0C, 0x16, 2, 104, 105, 0x2C, 0x38, 0x0C]

/-- The frame of its packet. -/
def hiFrame : Chunk where
  bytes := [0x0C, 1, 0x0C, 0xEA, 5, 0, 0, 0, 8, 0x0C, 0x16, 2, 104, 105, 0x2C, 0x38, 0x0C, 0xEA]
  size_lt := by decide

/-- A callback of libuv. -/
theorem step_net {jc : JCommChannel} {net : Uvnet} {e : NetEvent} {out : List Delivery}
    (hintact : s.Intact) (hidle : s.Idle) (h : s.net.step e = .ok (net, out)) :
    s.step jc (.net e) = .ok ({ s with net := net, todo := out }, []) := by
  simp only [Server.step, if_pos hintact, advance, if_pos hidle, h]

/-- A call of `ParsePacket`. -/
theorem step_parsePacket {jc : JCommChannel} {d : Delivery} {rest : List Delivery}
    {junk : Nat → UInt8} {msgs : Messages} {ops : List MsgOp} (hintact : s.Intact)
    (htodo : s.todo = d :: rest)
    (h : s.msgs.step jc (.parsePacket d.userdata d.packet d.data junk) = .ok (msgs, ops)) :
    s.step jc (.parsePacket junk) =
      .ok (⟨s.net, rest, msgs,
        Function.update s.receipt s.msgs.mallocs (s.receiptOf d.userdata)⟩, ops) := by
  simp only [Server.step, if_pos hintact, advance, htodo, Server.onMsgs, h]

/-- The server with one connection and its first message, which is not
posted yet. -/
def oneMessage (net : Uvnet) (ps : PacketSync) (msg : Nat → GameProto.FromMsg)
    (receipt : Nat → Receipt) : Server where
  net := net.modify 0 fun conn => { conn with packet := ps }
  todo := []
  msgs := ⟨1, msg, some 0, .start, []⟩
  receipt := receipt

/-- The first connection is accepted, and a frame of it is parsed. -/
def oneEvents (frame : Chunk) : List ServerEvent :=
  [.net acceptOne, .net (.recv 0 frame), .parsePacket fun _ => 0]

theorem run_oneMessage (jc : JCommChannel) {net : Uvnet} {frame : Chunk} {d : Delivery}
    {h : GameProto.Header} {r : List UInt8}
    (hopen : (Uvnet.start false fun _ => Uvnet.blankCtx).step acceptOne = .ok (net, []))
    (hintact : net.Intact) (hc : (net.ctx 0).tcphandle = .reading)
    (hpacket : (net.ctx 0).packet = fresh (charToNetPacket []) 0x0C 0xEA 0)
    (hsane : Sane 0x0C 0xEA (concat [frame])) (hscan : scanned 0 0x0C 0xEA (concat [frame]) = [d])
    (hmsg : GameProto.messageAt (d.data.take d.packet.datalen.toNat) = .whole h r) :
    ∃ ps msg receipt, run jc (start false (fun _ => Uvnet.blankCtx) fun _ => JCommChannel.newMsg)
        (oneEvents frame) = .ok (oneMessage net ps msg receipt, [.alloc 0, .access 0]) ∧
      msg 0 = (Messages.newFromMsg d.userdata d.packet d.data).withHeader h := by
  obtain ⟨ps, hps⟩ := recvAll_fresh (charToNetPacket []) 0x0C 0xEA 0 [frame] hsane
  obtain ⟨ps, o, _, hone, hnil, hout⟩ := Incremental.feedAll_cons_inv hps
  cases hnil
  rw [List.append_nil, hscan] at hout
  subst hout
  rw [← hpacket] at hone
  have hrecv := Uvnet.step_recv hintact hc hone
  -- the packet is parsed
  have hparse : (Messages.start fun _ => JCommChannel.newMsg).step jc
      (.parsePacket d.userdata d.packet d.data fun _ => 0) = _ :=
    Messages.step_parsePacket d.userdata (fun _ => 0) List.nodup_nil ⟨rfl, rfl⟩ hmsg
  generalize (Messages.newFromMsg _ _ _).withHeader _ = msg at hparse ⊢
  have hfirst : (start false (fun _ => Uvnet.blankCtx) fun _ => JCommChannel.newMsg).step jc
      (.net acceptOne) = _ := step_net ⟨List.nodup_nil, List.nodup_nil⟩ ⟨rfl, rfl, rfl⟩ hopen
  have hsecond : Server.step jc ⟨net, [], .start fun _ => JCommChannel.newMsg, fun _ => ⟨0, 0⟩⟩
      (.net (.recv 0 frame)) = _ :=
    step_net ⟨hintact, List.nodup_nil⟩ ⟨rfl, rfl, rfl⟩ hrecv
  have hthird : Server.step jc ⟨net.modify 0 fun conn => { conn with packet := ps }, [d],
      .start fun _ => JCommChannel.newMsg, fun _ => ⟨0, 0⟩⟩ (.parsePacket fun _ => 0) = _ :=
    step_parsePacket ⟨hintact, List.nodup_nil⟩ rfl hparse
  have hrun := run_trans (run_one hfirst) (run_trans (run_one hsecond) (run_one hthird))
  refine ⟨ps, Function.update (fun _ => JCommChannel.newMsg) 0 msg, _, hrun, ?_⟩
  rw [Function.update_self]

theorem run_hiMessage (jc : JCommChannel) {net : Uvnet}
    (hopen : (Uvnet.start false fun _ => Uvnet.blankCtx).step acceptOne = .ok (net, []))
    (hintact : net.Intact) (hc : (net.ctx 0).tcphandle = .reading)
    (hpacket : (net.ctx 0).packet = fresh (charToNetPacket []) 0x0C 0xEA 0) :
    ∃ ps msg receipt, run jc (start false (fun _ => Uvnet.blankCtx) fun _ => JCommChannel.newMsg)
        (oneEvents hiFrame) = .ok (oneMessage net ps msg receipt, [.alloc 0, .access 0]) ∧
      msg 0 = (Messages.newFromMsg 0 ⟨1, 0x0C, 0xEA, 5, 8⟩ hiPayload).withHeader
        ⟨0, [104, 105], 0, []⟩ :=
  run_oneMessage (d := ⟨0, ⟨1, 0x0C, 0xEA, 5, 8⟩, hiPayload⟩) jc hopen hintact hc hpacket
    (by decide) (by decide) rfl

/-- The accept, and what may follow when the message has been parsed: it is
taken at once, or its client goes first. -/
theorem step_acceptOne : ∃ net,
    (Uvnet.start false fun _ => Uvnet.blankCtx).step acceptOne = .ok (net, []) ∧
      net.Intact ∧ (net.ctx 0).tcphandle = .reading ∧
      (net.ctx 0).packet = fresh (charToNetPacket []) 0x0C 0xEA 0 ∧
      ∀ ps msg receipt (jc : JCommChannel), (∃ s ops, run jc (oneMessage net ps msg receipt)
          [.msgs .push, .msgs .send, .msgs .afterpostCb, .msgs .checkQueue] = .ok (s, ops) ∧
        s.msgs.msgq.callback = .body ∧ s.msgs.msgq.qfmsg = [0] ∧ s.msgs.msg = msg ∧
        s.Intact ∧ transacts ops = []) ∧
      ∃ s ops, run jc (oneMessage net ps msg receipt)
          [.msgs .push, .msgs .send, .net (.readError 0), .net (.closed 0),
            .msgs .afterpostCb, .msgs .checkQueue] = .ok (s, ops) ∧
        s.msgs.msgq.callback = .body ∧ s.msgs.msgq.qfmsg = [0] ∧
        (s.net.ctx 0).tcphandle = .closed ∧ s.msgs.msg = msg :=
  ⟨_, rfl, List.nodup_nil, rfl, rfl, fun _ _ _ _ =>
    ⟨⟨_, _, rfl, rfl, rfl, rfl, ⟨List.nodup_nil, List.nodup_nil⟩, rfl⟩,
      _, _, rfl, rfl, rfl, rfl, rfl⟩⟩

end

/-- The message is taken while its connection is there. -/
theorem bound_of_along_one :
    ∃ s ops, @run ⟨fun v => v.setWidth 64, fun _ => [], fun _ => []⟩ (.start [])
        (start false (fun _ => Uvnet.blankCtx) fun _ => JCommChannel.newMsg)
        ([.net acceptOne, .net (.recv 0 hiFrame), .parsePacket fun _ => 0] ++
          [.msgs .push, .msgs .send, .msgs .afterpostCb, .msgs .checkQueue]) = .ok (s, ops) ∧
      Bound s 0 := by
  let F : FloatOps := ⟨fun v => v.setWidth 64, fun _ => [], fun _ => []⟩
  obtain ⟨net, hopen, hintact, hc, hpacket, hnext⟩ := step_acceptOne
  obtain ⟨ps, msg, receipt, hfst, -⟩ := run_hiMessage (.start []) hopen hintact hc hpacket
  obtain ⟨⟨s, ops, hsnd, hcb, hqfmsg, -⟩, _⟩ := hnext ps msg receipt (.start [])
  have hrun := run_trans hfst hsnd
  refine ⟨s, _, hrun, bound_of_along (.start []) false (fun _ => Uvnet.blankCtx)
    (fun _ => JCommChannel.newMsg) (_ ++ [.msgs .take]) ?_ _ [] s _ rfl hrun hcb 0 [] hqfmsg⟩
  intro pre e post hes t out _ m _
  have he : e ∈ pre ++ e :: post := List.mem_append_right pre List.mem_cons_self
  rw [← hes] at he
  intro heq
  rcases heq with rfl
  simp [oneEvents, acceptOne] at he

/-- The client goes, and its connection is closed and its context deleted
when the message is taken. -/
theorem not_always_bound :
    ¬∀ es s ops, @run ⟨fun v => v.setWidth 64, fun _ => [], fun _ => []⟩ (.start [])
        (start false (fun _ => Uvnet.blankCtx) fun _ => JCommChannel.newMsg) es = .ok (s, ops) →
      s.msgs.msgq.callback = .body → ∀ m rest, s.msgs.msgq.qfmsg = m :: rest → Bound s m := by
  intro hbound
  let F : FloatOps := ⟨fun v => v.setWidth 64, fun _ => [], fun _ => []⟩
  obtain ⟨net, hopen, hintact, hc, hpacket, hnext⟩ := step_acceptOne
  obtain ⟨ps, msg, receipt, hfst, hmsg⟩ := run_hiMessage (.start []) hopen hintact hc hpacket
  have hclient : (msg 0).client = 0 := congrArg GameProto.FromMsg.client hmsg
  obtain ⟨_, s, ops, hsnd, hcb, hqfmsg, hclosed, rfl⟩ := hnext ps msg receipt (.start [])
  have hreading := (hbound _ s _ (run_trans hfst hsnd) hcb 0 [] hqfmsg).reading
  rw [hclient, hclosed] at hreading
  cases hreading

end Server

end OCServer
