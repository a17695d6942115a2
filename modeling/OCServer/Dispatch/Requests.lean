import OCServer.Dispatch.Sender
import OCServer.GameProto.Header

/-!
# From the network to the services

What the two threads of the server do with the packets, over whole runs.  Both `proc_msg` and
`afterpost_cb` delete a message, so a run handles at most one, and none of its steps follows.
`run_refines` says that it is the first message that `ParsePacket` has accepted, that its service
has been called once with its bytes, and that all the others wait in their order.

A `Request` is a packet with a message that comes back from its header.  `requests_served` is
about clients that send requests, and `comes_to_rest` says that without libuv the threads stop,
and that they do not stop before a request is served if one has arrived.
-/

namespace OCServer

open MachineInt Machine PacketSync GameProto

/-! ## One message -/

/-- The call for a message, if its service is there. -/
def JCommChannel.call (jc : JCommChannel) (msg : FromMsg) : List (Nat × List UInt8) :=
  (jc.getService msg.serviceCmd).toList.map fun srv => (srv, msg.netBuffer)

section

variable [FloatOps]

/-- The message of a packet, unless `ParsePacket` drops it. -/
def Delivery.message (d : Delivery) (junk : Nat → UInt8) : Option FromMsg :=
  match bufFromMsg d.packet d.data (Messages.newFromMsg d.userdata d.packet d.data) junk with
  | .ok (true, msg) => some msg
  | _ => none

/-- The messages of some packets, with what the variables hold that are not set. -/
def messages (ds : List Delivery) (junks : List (Nat → UInt8)) : List FromMsg :=
  (ds.zip junks).filterMap fun p => p.1.message p.2

end

/-! ## What waits -/

namespace Messages

/-- The messages in the queue and the one that is about to be posted, in their order. -/
def waiting (s : Messages) : List FromMsg := (s.msgq.qfmsg ++ s.posting.toList).map s.msg

theorem transacts_append (ops ops' : List MsgOp) :
    transacts (ops ++ ops') = transacts ops ++ transacts ops' := List.filterMap_append

theorem transacts_handle (jc : JCommChannel) (s : Messages) (m : Nat) :
    transacts (s.handle jc m) = jc.call (s.msg m) := by
  unfold handle
  rw [transacts_append, JCommChannel.transacts_procMsg]
  exact List.append_nil _

section

variable [FloatOps] {jc : JCommChannel} {s s' : Messages} {ops : List MsgOp}

/-- A packet that is parsed: its message waits behind the others. -/
theorem waiting_parsePacket {client : Nat} {packet : NetPacket} {buf : List UInt8}
    {junk : Nat → UInt8} (hlt : ∀ m, s.Held m → m < s.mallocs)
    (h : s.step jc (.parsePacket client packet buf junk) = .ok (s', ops)) :
    s'.waiting = s.waiting ++ (Delivery.message ⟨client, packet, buf⟩ junk).toList ∧
      transacts ops = [] := by
  replace h := (step_intact h).2
  simp only [advance] at h
  split at h
  case isFalse => cases h
  next hidle =>
  have hold : ∀ msg, s.msgq.qfmsg.map (Function.update s.msg s.mallocs msg) =
      s.msgq.qfmsg.map s.msg := fun msg => List.map_congr_left fun m hm =>
    Function.update_of_ne (Nat.ne_of_lt (hlt m (Or.inr hm))) _ _
  unfold Delivery.message
  unfold parsePacket at h
  simp only at h
  split at h
  · cases h
  · next packOk msg hbuf =>
    rw [hbuf]
    split at h
    · next hok =>
      cases h
      subst hok
      refine ⟨?_, rfl⟩
      show (s.msgq.qfmsg ++ [s.mallocs]).map (Function.update s.msg s.mallocs msg) =
        (s.msgq.qfmsg ++ s.posting.toList).map s.msg ++ [msg]
      rw [hidle.1, List.map_append, hold, List.map_singleton, Function.update_self]
      simp
    · next hok =>
      cases h
      rw [Bool.not_eq_true] at hok
      subst hok
      refine ⟨?_, rfl⟩
      show (s.msgq.qfmsg ++ s.posting.toList).map _ =
        (s.msgq.qfmsg ++ s.posting.toList).map s.msg ++ []
      rw [hidle.1]
      simp [hold]

/-- Any other step may take the first message that waits, and calls its service. -/
theorem waiting_step {e : MsgEvent} (h : s.step jc e = .ok (s', ops))
    (he : ∀ client packet buf junk, e ≠ .parsePacket client packet buf junk) :
    ∃ done : Option FromMsg, s.waiting = done.toList ++ s'.waiting ∧
      transacts ops = done.toList.flatMap jc.call ∧ (done = none ↔ e ≠ .take) := by
  cases step_cases h with
  | posted => exact absurd rfl (he _ _ _ _)
  | dropped => exact absurd rfl (he _ _ _ _)
  | push m msgq hm hqfmsg =>
    refine ⟨none, ?_, rfl, iff_of_true rfl fun heq => by cases heq⟩
    unfold waiting
    rw [hm, hqfmsg]
    simp
  | queue qe msgq hqe hqfmsg =>
    refine ⟨none, ?_, rfl, iff_of_true rfl fun heq => ?_⟩
    · unfold waiting
      rw [hqfmsg]
      rfl
    · subst heq
      cases hqe
  | take m rest msgq hcb hqfmsg hrest =>
    refine ⟨some (s.msg m), ?_, ?_, iff_of_false (fun heq => by cases heq) fun hne => hne rfl⟩
    · unfold waiting
      rw [hqfmsg, hrest]
      rfl
    · rw [transacts_handle]
      exact (List.append_nil _).symm

end

end Messages

/-! ## Runs -/

namespace Server

/-- The callbacks of libuv among some steps. -/
def callbacks (es : List ServerEvent) : List NetEvent :=
  es.filterMap fun
    | .net e => some e
    | _ => none

/-- What the variables hold that are not set, in one call of `ParsePacket` after the other. -/
def junks (es : List ServerEvent) : List (Nat → UInt8) :=
  es.filterMap fun
    | .parsePacket junk => some junk
    | _ => none

theorem callbacks_append (es es' : List ServerEvent) :
    callbacks (es ++ es') = callbacks es ++ callbacks es' := List.filterMap_append

theorem junks_append (es es' : List ServerEvent) : junks (es ++ es') = junks es ++ junks es' :=
  List.filterMap_append

section

variable [FloatOps] {jc : JCommChannel} {net : Uvnet} {es : List ServerEvent} {s s' : Server}
  {ops : List MsgOp}

/-- The messages of the packets that are parsed: one of them may be `handled`, and then the
process is at its end, and the others wait. -/
structure Follows (jc : JCommChannel) (net : Uvnet) (es : List ServerEvent) (s : Server)
    (ops : List MsgOp) (parsed : List Delivery) (handled : Option FromMsg) : Prop where
  run : Uvnet.run net (callbacks es) = .ok (s.net, parsed ++ s.todo)
  length_eq : parsed.length = (junks es).length
  messages_eq : messages parsed (junks es) = handled.toList ++ s.msgs.waiting
  calls : transacts ops = handled.toList.flatMap jc.call
  none_iff : handled = none ↔ s.msgs.Intact
  traced : s.msgs.Traced ops

theorem messages_concat {ds : List Delivery} {js : List (Nat → UInt8)}
    (h : ds.length = js.length) (d : Delivery) (junk : Nat → UInt8) :
    messages (ds ++ [d]) (js ++ [junk]) = messages ds js ++ (d.message junk).toList := by
  unfold messages
  rw [List.zip_append h, List.filterMap_append]
  congr 1

theorem follows_start (needTls : Bool) (mem : Nat → ClientConnS) (msg : Nat → FromMsg) :
    Follows jc (.start needTls mem) [] (start needTls mem msg) [] [] none where
  run := rfl
  length_eq := rfl
  messages_eq := rfl
  calls := rfl
  none_iff := iff_of_true rfl List.nodup_nil
  traced := Messages.traced_start msg

/-- A step of the threads that is no call of `ParsePacket`. -/
theorem Follows.onMsgs {e : MsgEvent} {parsed : List Delivery} {o : List MsgOp}
    (h : Follows jc net es s ops parsed none)
    (hparse : ∀ client packet buf junk, e ≠ .parsePacket client packet buf junk)
    (hstep : s.onMsgs jc e = .ok (s', o)) :
    ∃ done, Follows jc net (es ++ [.msgs e]) s' (ops ++ o) parsed done := by
  unfold Server.onMsgs at hstep
  split at hstep
  · cases hstep
  next msgs ops' hmsgs =>
  cases hstep
  obtain ⟨done, hwaiting, hcalls, hnone⟩ := Messages.waiting_step hmsgs hparse
  have hsame : callbacks (es ++ [.msgs e]) = callbacks es ∧ junks (es ++ [.msgs e]) = junks es :=
    ⟨(callbacks_append _ _).trans (List.append_nil _), (junks_append _ _).trans (List.append_nil _)⟩
  refine ⟨done, ?_, ?_, ?_, ?_, ?_, h.traced.step hmsgs⟩
  · rw [hsame.1]
    exact h.run
  · rw [hsame.2]
    exact h.length_eq
  · rw [hsame.2, h.messages_eq]
    exact hwaiting
  · rw [Messages.transacts_append, h.calls, hcalls]
    rfl
  · exact hnone.trans (h.traced.intact_step hmsgs).symm

/-- A call of `ParsePacket`. -/
theorem Follows.parsePacket {d : Delivery} {rest : List Delivery} {junk : Nat → UInt8}
    {receipt : Nat → Receipt} {parsed : List Delivery} {handled : Option FromMsg} {o : List MsgOp}
    (h : Follows jc net es s ops parsed handled) (htodo : s.todo = d :: rest)
    (hstep : { s with todo := rest, receipt := receipt }.onMsgs jc
      (.parsePacket d.userdata d.packet d.data junk) = .ok (s', o)) :
    Follows jc net (es ++ [.parsePacket junk]) s' (ops ++ o) (parsed ++ [d]) handled := by
  unfold Server.onMsgs at hstep
  split at hstep
  · cases hstep
  next msgs ops' hmsgs =>
  cases hstep
  obtain ⟨hwaiting, hcalls⟩ := Messages.waiting_parsePacket h.traced.held_lt hmsgs
  have hjunks : junks (es ++ [.parsePacket junk]) = junks es ++ [junk] := junks_append _ _
  have hcallbacks : callbacks (es ++ [.parsePacket junk]) = callbacks es :=
    (callbacks_append _ _).trans (List.append_nil _)
  constructor
  case run =>
    have hrun := h.run
    rw [htodo] at hrun
    rw [hcallbacks, List.append_assoc]
    exact hrun
  case length_eq => rw [hjunks, List.length_append, List.length_append, h.length_eq]; rfl
  case messages_eq =>
    rw [hjunks, messages_concat h.length_eq, h.messages_eq, hwaiting, List.append_assoc]
  case calls => rw [Messages.transacts_append, h.calls, hcalls, List.append_nil]
  case none_iff =>
    have hintact := (h.traced.intact_step hmsgs).mpr fun heq => by cases heq
    exact h.none_iff.trans (iff_of_true (Messages.step_intact hmsgs).1 hintact)
  case traced => exact h.traced.step hmsgs

/-- A callback of libuv. -/
theorem Follows.callback {net' : Uvnet} {e : NetEvent} {out : List Delivery}
    {parsed : List Delivery} {handled : Option FromMsg}
    (h : Follows jc net es s ops parsed handled) (hidle : s.Idle)
    (hnet : s.net.step e = .ok (net', out)) :
    Follows jc net (es ++ [.net e]) { s with net := net', todo := out } (ops ++ []) parsed
      handled := by
  have hjunks : junks (es ++ [.net e]) = junks es := (junks_append _ _).trans (List.append_nil _)
  have hrun := h.run
  rw [hidle.1, List.append_nil] at hrun
  rw [List.append_nil]
  constructor
  case run =>
    rw [callbacks_append]
    exact run_trans hrun (run_one hnet)
  case length_eq => exact h.length_eq.trans (congrArg List.length hjunks.symm)
  case messages_eq => exact (congrArg (messages parsed) hjunks).trans h.messages_eq
  case calls => exact h.calls
  case none_iff => exact h.none_iff
  case traced => exact h.traced

theorem Follows.step {e : ServerEvent} {parsed : List Delivery} {handled : Option FromMsg}
    {o : List MsgOp} (h : Follows jc net es s ops parsed handled)
    (hstep : s.step jc e = .ok (s', o)) :
    ∃ parsed' handled', Follows jc net (es ++ [e]) s' (ops ++ o) parsed' handled' := by
  obtain ⟨hintact, hstep⟩ := step_intact hstep
  cases e with
  | net e =>
    simp only [advance] at hstep
    split at hstep
    case isFalse => cases hstep
    next hidle =>
    split at hstep
    · cases hstep
    · next net' out hnet =>
      cases hstep
      exact ⟨parsed, handled, h.callback hidle hnet⟩
  | parsePacket junk =>
    simp only [advance] at hstep
    split at hstep
    · cases hstep
    · next d rest htodo => exact ⟨_, _, h.parsePacket htodo hstep⟩
  | msgs e =>
    have hmsgs : s.onMsgs jc e = .ok (s', o) ∧
        ∀ client packet buf junk, e ≠ .parsePacket client packet buf junk := by
      cases e with
      | parsePacket => cases hstep
      | push => exact ⟨hstep, fun _ _ _ _ heq => by cases heq⟩
      | send => exact ⟨hstep, fun _ _ _ _ heq => by cases heq⟩
      | afterpostCb => exact ⟨hstep, fun _ _ _ _ heq => by cases heq⟩
      | checkQueue => exact ⟨hstep, fun _ _ _ _ heq => by cases heq⟩
      | take => exact ⟨hstep, fun _ _ _ _ heq => by cases heq⟩
    -- the process goes on, so no message has been handled before
    obtain rfl : handled = none := h.none_iff.mpr hintact.2
    obtain ⟨done, hdone⟩ := h.onMsgs hmsgs.2 hmsgs.1
    exact ⟨_, _, hdone⟩

/-- By induction on the steps. -/
theorem follows_run {needTls : Bool} {mem : Nat → ClientConnS} {msg : Nat → FromMsg}
    (h : run jc (start needTls mem msg) es = .ok (s, ops)) :
    ∃ parsed handled, Follows jc (.start needTls mem) es s ops parsed handled := by
  refine invariant (fun es s ops => ∃ parsed handled,
    Follows jc (.start needTls mem) es s ops parsed handled)
    ⟨[], none, follows_start needTls mem msg⟩ ?_ es s ops h
  rintro es e t t' out o ⟨parsed, handled, hfollows⟩ hstep
  exact hfollows.step hstep

/-! ### A message that is handled -/

theorem step_take (jc : JCommChannel) {m : Nat} {rest : List Nat} (hintact : s.Intact)
    (hcb : s.msgs.msgq.callback = .body) (hqfmsg : s.msgs.msgq.qfmsg = m :: rest) :
    ∃ s', s.step jc (.msgs .take) = .ok (s', s.msgs.handle jc m) ∧
      s'.msgs.released = s.msgs.released ++ [m, m] := by
  obtain ⟨msgs, hmsgs, hreleased⟩ : ∃ msgs, s.msgs.step jc .take =
      .ok (msgs, s.msgs.handle jc m ++ []) ∧
      msgs.released = s.msgs.released ++ Messages.releases (s.msgs.handle jc m ++ []) := by
    simp only [Messages.step, if_pos hintact.2, Messages.advance, Messages.onQueue,
      EvDispatch.step, hcb, hqfmsg, if_true]
    exact ⟨_, rfl, rfl⟩
  rw [List.append_nil] at hmsgs hreleased
  rw [Messages.releases_handle] at hreleased
  refine ⟨{ s with msgs := msgs }, ?_, hreleased⟩
  simp only [Server.step, if_pos hintact, advance, onMsgs, hmsgs]

end

/-- A registry with the service `hi`. -/
def hiRegistry : JCommChannel := ((JCommChannel.start []).loadJavaSrv [104, 105] .object).2

/-- The message is posted, announced, looked at and handled. -/
def handledEvents : List ServerEvent :=
  [.msgs .push, .msgs .send, .msgs .afterpostCb, .msgs .checkQueue] ++ [.msgs .take]

/-- The first connection sends a frame with a message, and the message is handled. -/
theorem run_handled [FloatOps] (jc : JCommChannel) (frame : Chunk) {d : Delivery}
    {h : Header} {r : List UInt8} (hsane : Sane 0x0C 0xEA (concat [frame]))
    (hscan : scanned 0 0x0C 0xEA (concat [frame]) = [d])
    (hmsg : messageAt (d.data.take d.packet.datalen.toNat) = .whole h r) :
    ∃ s s' ops ops',
      run jc (start false (fun _ => Uvnet.blankCtx) fun _ => JCommChannel.newMsg)
        (oneEvents frame) = .ok (s, ops) ∧
      run jc s handledEvents = .ok (s', ops') ∧
      transacts (ops ++ ops') =
        jc.call ((Messages.newFromMsg d.userdata d.packet d.data).withHeader h) ∧
      s.net.Intact ∧ ¬s'.msgs.Intact := by
  obtain ⟨net, hopen, hintact, hc, hpacket, hnext⟩ := step_acceptOne
  obtain ⟨ps, msg, receipt, hfst, hfirst⟩ :=
    run_oneMessage jc hopen hintact hc hpacket hsane hscan hmsg
  obtain ⟨⟨t, o, hsnd, hcb, hqfmsg, rfl, htintact, hcalls⟩, -⟩ := hnext ps msg receipt jc
  obtain ⟨s', htake, hreleased⟩ := step_take jc htintact hcb hqfmsg
  refine ⟨_, s', _, _, hfst, run_trans hsnd (run_one htake), ?_, hintact, ?_⟩
  · rw [Messages.transacts_append, Messages.transacts_append, hcalls, Messages.transacts_handle,
      hfirst]
    rfl
  · unfold Messages.Intact
    rw [hreleased]
    intro hnodup
    have htwice := (List.nodup_append.mp hnodup).2.1
    simp at htwice

theorem run_hi : ∃ s s' ops ops',
    @run ⟨fun v => v.setWidth 64, fun _ => [], fun _ => []⟩ hiRegistry
      (start false (fun _ => Uvnet.blankCtx) fun _ => JCommChannel.newMsg) (oneEvents hiFrame) =
        .ok (s, ops) ∧
    @run ⟨fun v => v.setWidth 64, fun _ => [], fun _ => []⟩ hiRegistry s handledEvents =
      .ok (s', ops') ∧
    transacts (ops ++ ops') = [(0, hiPayload)] ∧ s.net.Intact ∧ ¬s'.msgs.Intact := by
  let F : FloatOps := ⟨fun v => v.setWidth 64, fun _ => [], fun _ => []⟩
  exact run_handled (d := ⟨0, ⟨1, 0x0C, 0xEA, 5, 8⟩, hiPayload⟩) (h := ⟨0, [104, 105], 0, []⟩)
    (r := []) hiRegistry hiFrame (by decide) (by decide) rfl

section

variable [FloatOps] {jc : JCommChannel} {es : List ServerEvent} {s : Server} {ops : List MsgOp}

/-- For every order of the steps of the two threads and every behaviour of libuv: the framers
have delivered some packets, and of the messages that `ParsePacket` has accepted at most the
first has been handled, by one call of its service with its bytes, if it has one.  All the others
wait, in their order, and the process goes on only if none has been handled. -/
theorem run_refines {needTls : Bool} {mem : Nat → ClientConnS} {msg : Nat → FromMsg}
    (h : run jc (start needTls mem msg) es = .ok (s, ops)) :
    ∃ (parsed : List Delivery) (handled : Option FromMsg),
      Uvnet.run (.start needTls mem) (callbacks es) = .ok (s.net, parsed ++ s.todo) ∧
      parsed.length = (junks es).length ∧
      messages parsed (junks es) = handled.toList ++ s.msgs.waiting ∧
      transacts ops = handled.toList.flatMap jc.call ∧ (handled = none ↔ s.msgs.Intact) := by
  obtain ⟨parsed, handled, hfollows⟩ := follows_run h
  exact ⟨parsed, handled, hfollows.run, hfollows.length_eq, hfollows.messages_eq, hfollows.calls,
    hfollows.none_iff⟩

end

theorem run_refines_hi :
    ∃ (s : Server) (ops : List MsgOp) (parsed : List Delivery) (handled : Option FromMsg),
      Uvnet.run (.start false fun _ => Uvnet.blankCtx) [acceptOne, .recv 0 hiFrame] =
        .ok (s.net, parsed ++ s.todo) ∧ parsed.length = 1 ∧
      @messages ⟨fun v => v.setWidth 64, fun _ => [], fun _ => []⟩ parsed [fun _ => 0] =
        handled.toList ++ s.msgs.waiting ∧
      transacts ops = handled.toList.flatMap hiRegistry.call ∧ (handled = none ↔ s.msgs.Intact) ∧
      transacts ops = [(0, hiPayload)] := by
  let F : FloatOps := ⟨fun v => v.setWidth 64, fun _ => [], fun _ => []⟩
  obtain ⟨s, s', ops, ops', hfst, hsnd, hcalls, -, -⟩ := run_hi
  obtain ⟨parsed, handled, hrun, hlen, hmessages, hhandled, hnone⟩ :=
    run_refines (run_trans hfst hsnd)
  exact ⟨s', ops ++ ops', parsed, handled, hrun, hlen, hmessages, hhandled, hnone, hcalls⟩

end Server

/-! ## Requests -/

/-- A packet whose payload is a message: a header that comes back, and whatever follows it. -/
structure Request where
  frame : Frame 0x0C 0xEA
  header : Header
  body : List UInt8
  data_eq : frame.data = headerBytes header ++ body
  cmd_le : header.cmd.length ≤ protoMaxStringLength
  attrib_ok : Ok .strMap header.attrib
  kept : KeptHeader header

namespace Request

/-- What a client sends. -/
def bytes (rs : List Request) : List UInt8 := Frame.encodeAll (rs.map frame)

/-- The requests whose last byte is among the first `n` bytes. -/
def complete : List Request → Nat → List Request := Merge.complete fun r => r.frame.size

/-- The packet of a request. -/
def delivery (c : Nat) (r : Request) : Delivery := r.frame.delivery c

/-- The call for a request, if its service is there. -/
def call (jc : JCommChannel) (r : Request) : List (Nat × List UInt8) :=
  (jc.getService r.header.cmd).toList.map fun srv => (srv, r.frame.data)

/-- The message of a request. -/
def message (c : Nat) (r : Request) : FromMsg :=
  (Messages.newFromMsg c r.frame.packet r.frame.data).withHeader r.header

theorem call_message (jc : JCommChannel) (c : Nat) (r : Request) :
    jc.call (r.message c) = r.call jc := by
  have hdata : r.frame.data.take r.frame.packet.datalen.toNat = r.frame.data :=
    List.take_of_length_le (Nat.le_of_eq r.frame.length_eq)
  show ((jc.getService r.header.cmd).toList.map fun srv =>
    (srv, r.frame.data.take r.frame.packet.datalen.toNat)) = _
  rw [hdata]
  rfl

variable [FloatOps]

/-- `bufFromMsg` accepts it. -/
theorem bufFromMsg_eq (c : Nat) (r : Request) (junk : Nat → UInt8) :
    bufFromMsg r.frame.packet r.frame.data
      (Messages.newFromMsg c r.frame.packet r.frame.data) junk = .ok (true, r.message c) := by
  have hlen : (headerBytes r.header).length < 2 ^ 32 := by
    have hdata := congrArg List.length r.data_eq
    have hsmall := r.frame.small
    rw [r.frame.length_eq, List.length_append] at hdata
    omega
  have hat : ByteSource.At (membuf (headerBytes r.header ++ r.body) junk)
      (headerBytes r.header ++ r.body) := ⟨rfl, Nat.zero_le _, rfl⟩
  obtain ⟨s', hrun, -⟩ := readHeader_reads r.cmd_le r.attrib_ok (attrib_length hlen) r.kept
    (membuf (headerBytes r.header ++ r.body) junk) r.body hat
  unfold bufFromMsg
  rw [List.take_of_length_le (Nat.le_of_eq r.frame.length_eq), r.data_eq, hrun]
  unfold message
  rw [r.data_eq]

theorem message_delivery (c : Nat) (r : Request) (junk : Nat → UInt8) :
    (r.delivery c).message junk = some (r.message c) := by
  unfold Delivery.message
  show (match bufFromMsg r.frame.packet r.frame.data
    (Messages.newFromMsg c r.frame.packet r.frame.data) junk with
    | .ok (true, msg) => some msg
    | _ => none) = _
  rw [bufFromMsg_eq]

/-- Each of them is accepted. -/
theorem messages_deliveries (ps : List (Nat × Request)) {junks : List (Nat → UInt8)}
    (h : ps.length = junks.length) :
    messages (ps.map fun p => p.2.delivery p.1) junks = ps.map fun p => p.2.message p.1 := by
  induction ps generalizing junks with
  | nil => rfl
  | cons p ps ih =>
    obtain ⟨junk, rest, rfl⟩ := List.exists_cons_of_length_eq_add_one h.symm
    have hrest := ih (Nat.succ.inj h)
    unfold messages at hrest ⊢
    rw [List.map_cons, List.zip_cons_cons, List.filterMap_cons, message_delivery, hrest]
    rfl

end Request

/-- The request of `hiFrame`. -/
def hiRequest : Request where
  frame := ⟨⟨1, 0x0C, 0xEA, 5, 8⟩, Server.hiPayload, by decide, rfl, by decide⟩
  header := ⟨0, [104, 105], 0, []⟩
  body := []
  data_eq := rfl
  cmd_le := by decide
  attrib_ok := ⟨by decide, nofun⟩
  kept := ⟨by decide, by decide, Or.inl (by decide), nofun⟩

namespace Server

/-- The first connection sends `hiRequest`. -/
def hiSent (c : Nat) : List Request := if c = 0 then [hiRequest] else []

theorem heard_hi (c : Nat) :
    Uvnet.heard c (callbacks (oneEvents hiFrame ++ handledEvents)) <+:
      Request.bytes (hiSent c) := by
  by_cases hc : c = 0
  · subst hc
    exact List.prefix_refl _
  · have hnone : Uvnet.heard c (callbacks (oneEvents hiFrame ++ handledEvents)) = [] := by
      simp [callbacks, oneEvents, handledEvents, Uvnet.heard, acceptOne, Uvnet.bytesOf, Ne.symm hc]
    rw [hnone]
    exact List.nil_prefix

section

variable [FloatOps] {jc : JCommChannel} {es : List ServerEvent} {s : Server} {ops : List MsgOp}
  {needTls : Bool} {mem : Nat → ClientConnS} {msg : Nat → FromMsg}

omit [FloatOps] in
/-- The packets of the connections that have the context `c` are the requests that are
complete. -/
theorem packetsOf_requests {net : Uvnet} {es : List NetEvent} {out : List Delivery}
    (hrun : Uvnet.run (.start needTls mem) es = .ok (net, out)) {c : Nat} {rs : List Request}
    (hrs : Uvnet.heard c es <+: Request.bytes rs) :
    Uvnet.packetsOf c out =
      (Request.complete rs (Uvnet.heard c es).length).map (Request.delivery c) := by
  obtain ⟨hframed, -, hdecided⟩ :=
    Uvnet.run_left (Uvnet.framed_start needTls mem) (Uvnet.pool_start needTls mem) hrun
  obtain ⟨evs, hout, hadv⟩ := hdecided c
  obtain ⟨missing, hmissing⟩ := hrs
  rw [Uvnet.left_start, List.nil_append] at hadv
  have hevs := congrArg Prod.fst hadv.scan
  change _ = evs ++ (scan 0x0C 0xEA (net.left c)).1 at hevs
  rw [hframed.quiet c, List.append_nil] at hevs
  rw [hout, ← hevs, Frame.scan_prefix _ hmissing, Frame.deliveries_event, Frame.complete,
    Merge.complete_map, List.map_map]
  rfl

/-- The threads have nothing to do. -/
structure AtRest (s : Server) : Prop where
  todo : s.todo = []
  posting : s.msgs.posting = none
  queue : s.msgs.msgq.qfmsg = []

omit [FloatOps] in
theorem AtRest.waiting (h : AtRest s) : s.msgs.waiting = [] := by
  unfold Messages.waiting
  rw [h.posting, h.queue]
  rfl

/-- The packets of a run as requests: the one that has been served, those that wait, and those
that are not parsed yet. -/
theorem exists_requests (sent : Nat → List Request)
    (hsent : ∀ c, Uvnet.heard c (callbacks es) <+: Request.bytes (sent c))
    (h : run jc (start needTls mem msg) es = .ok (s, ops)) :
    ∃ (served : Option (Nat × Request)) (waits todo : List (Nat × Request)),
      transacts ops = served.toList.flatMap (fun p => p.2.call jc) ∧
      (served = none ↔ s.msgs.Intact) ∧
      waits.map (fun p => p.2.message p.1) = s.msgs.waiting ∧
      todo.map (fun p => p.2.delivery p.1) = s.todo ∧
      ∀ c, Merge.part c (served.toList ++ waits ++ todo) =
        Request.complete (sent c) (Uvnet.heard c (callbacks es)).length := by
  obtain ⟨parsed, handled, hfollows⟩ := follows_run h
  obtain ⟨ps, hps, hparts⟩ := Merge.exists_merge Delivery.userdata Request.delivery
    (parsed ++ s.todo) _ fun c => packetsOf_requests hfollows.run (hsent c)
  obtain ⟨past, todo, rfl, hpast, htodo⟩ := List.map_eq_append_iff.mp hps.symm
  have hlen : past.length = (junks es).length := by
    rw [← hfollows.length_eq, ← hpast, List.length_map]
  have hmessages := hfollows.messages_eq
  rw [← hpast, Request.messages_deliveries past hlen] at hmessages
  obtain ⟨first, waits, rfl, hfirst, hwaits⟩ := List.map_eq_append_iff.mp hmessages
  obtain ⟨served, rfl, hserved⟩ := Merge.exists_of_map_toList _ hfirst
  refine ⟨served, waits, todo, ?_, ?_, hwaits, htodo, hparts⟩
  · rw [hfollows.calls, ← hfirst, List.flatMap_map]
    simp only [Request.call_message]
  · rw [hserved]
    exact hfollows.none_iff

/-- Clients that send requests, over any number of connections and whatever order the threads
go in: every request that has arrived has been served, waits for its service, or waits to be
parsed, once and in the order of its client.  At most one has been served, by one call of its
service, and the process goes on only if none has been. -/
theorem requests_served (sent : Nat → List Request)
    (hsent : ∀ c, Uvnet.heard c (callbacks es) <+: Request.bytes (sent c))
    (h : run jc (start needTls mem msg) es = .ok (s, ops)) :
    ∃ (served : Option (Nat × Request)) (waits todo : List (Nat × Request)),
      transacts ops = served.toList.flatMap (fun p => p.2.call jc) ∧
      (served = none ↔ s.msgs.Intact) ∧
      s.msgs.waiting = waits.map (fun p => p.2.message p.1) ∧
      s.todo = todo.map (fun p => p.2.delivery p.1) ∧
      ∀ c, Merge.part c served.toList ++ Merge.part c waits ++ Merge.part c todo =
        Request.complete (sent c) (Uvnet.heard c (callbacks es)).length := by
  obtain ⟨served, waits, todo, hcalls, hnone, hwaits, htodo, hparts⟩ :=
    exists_requests sent hsent h
  refine ⟨served, waits, todo, hcalls, hnone, hwaits.symm, htodo.symm, fun c => ?_⟩
  rw [← Merge.part_append, ← Merge.part_append, hparts]

end

theorem requests_served_hi :
    ∃ (s : Server) (ops : List MsgOp) (served : Option (Nat × Request))
      (waits todo : List (Nat × Request)),
      transacts ops = served.toList.flatMap (fun p => p.2.call hiRegistry) ∧
      (served = none ↔ s.msgs.Intact) ∧
      s.msgs.waiting = waits.map (fun p => p.2.message p.1) ∧
      s.todo = todo.map (fun p => p.2.delivery p.1) ∧
      (∀ c, Merge.part c served.toList ++ Merge.part c waits ++ Merge.part c todo =
        Request.complete (hiSent c)
          (Uvnet.heard c (callbacks (oneEvents hiFrame ++ handledEvents))).length) ∧
      transacts ops = [(0, hiPayload)] := by
  let F : FloatOps := ⟨fun v => v.setWidth 64, fun _ => [], fun _ => []⟩
  obtain ⟨s, s', ops, ops', hfst, hsnd, hcalls, -, -⟩ := run_hi
  obtain ⟨served, waits, todo, hserved, hnone, hwaits, htodo, hparts⟩ :=
    requests_served hiSent heard_hi (run_trans hfst hsnd)
  exact ⟨s', ops ++ ops', served, waits, todo, hserved, hnone, hwaits, htodo, hparts, hcalls⟩

end Server

/-! ## The threads on their own -/

namespace EvDispatch

variable {d d' : EvDispatch Unit Nat} {e : QueueEvent Unit Nat} {out : List Nat}

/-- How much there is to do. -/
def work (d : EvDispatch Unit Nat) : Nat :=
  2 * d.qfmsg.length + (if d.posters () = .pushed then 3 else 0) +
    (if d.async then 2 else 0) + if d.callback = .loopTest then 1 else 0

/-- A message that is pushed is to be announced and taken; every other step does a part of the
work. -/
theorem work_step (h : d.step e = .ok (d', out)) :
    (∃ m, e = .push () m ∧ d'.work = d.work + 5) ∨ d'.work < d.work := by
  unfold work
  cases step_cases h with
  | push i m hi =>
    refine Or.inl ⟨m, rfl, ?_⟩
    simp only [Function.update_self, hi, if_true, reduceCtorEq, if_false, List.length_append,
      List.length_singleton]
    omega
  | send i hi =>
    refine Or.inr ?_
    have hposters : d.posters () = .pushed := hi
    simp only [Function.update_self, hposters, if_true, reduceCtorEq, if_false]
    split_ifs <;> omega
  | afterpostCb hasync hcb =>
    refine Or.inr ?_
    simp only [hasync, hcb, if_true, reduceCtorEq, if_false, Bool.false_eq_true]
    omega
  | empty hcb hq =>
    refine Or.inr ?_
    simp only [hcb, if_true, reduceCtorEq, if_false]
    omega
  | nonempty hcb hq =>
    refine Or.inr ?_
    simp only [hcb, if_true, reduceCtorEq, if_false]
    omega
  | take m rest hcb hq =>
    refine Or.inr ?_
    simp only [hcb, hq, if_true, reduceCtorEq, if_false, List.length_cons]
    omega

end EvDispatch

namespace Messages

variable [FloatOps] {jc : JCommChannel} {s s' : Messages} {ops : List MsgOp}

/-- How much there is to do. -/
def work (s : Messages) : Nat := 6 * s.posting.toList.length + s.msgq.work

theorem work_step {e : MsgEvent} (h : s.step jc e = .ok (s', ops)) :
    s'.work < s.work ∨ (∃ client packet buf junk, e = .parsePacket client packet buf junk) ∧
      s'.work ≤ s.work + 6 := by
  unfold work
  cases step_cases h with
  | @posted client packet buf junk msg hposting =>
    refine Or.inr ⟨⟨client, packet, buf, junk, rfl⟩, ?_⟩
    simp only [hposting, Option.toList_some, Option.toList_none, List.length_singleton,
      List.length_nil]
    omega
  | @dropped client packet buf junk msg hposting =>
    exact Or.inr ⟨⟨client, packet, buf, junk, rfl⟩, Nat.le_add_right _ _⟩
  | push m msgq hm hqfmsg hq =>
    refine Or.inl ?_
    simp only [hm, Option.toList_some, Option.toList_none, List.length_singleton, List.length_nil]
    rcases EvDispatch.work_step hq with ⟨-, -, hwork⟩ | hwork
    · omega
    · omega
  | queue qe msgq hqe hqfmsg hq =>
    refine Or.inl (Nat.add_lt_add_left ?_ _)
    rcases EvDispatch.work_step hq with ⟨m, rfl, -⟩ | hwork
    · cases e <;> cases hqe
    · exact hwork
  | take m rest msgq hcb hqfmsg hrest hq =>
    refine Or.inl (Nat.add_lt_add_left ?_ _)
    rcases EvDispatch.work_step hq with ⟨m, hm, -⟩ | hwork
    · cases hm
    · exact hwork

/-- Some thread can go on when a message is not posted, not announced or not taken. -/
theorem can_step (jc : JCommChannel) (hintact : s.Intact) (hawake : s.msgq.Awake)
    (h : s.posting ≠ none ∨ s.msgq.posters () = .pushed ∨ s.msgq.qfmsg ≠ []) :
    ∃ e, (∀ client packet buf junk, e ≠ .parsePacket client packet buf junk) ∧
      ∃ r, s.step jc e = .ok r := by
  by_cases hpushed : s.msgq.posters () = .pushed
  · refine ⟨.send, fun _ _ _ _ heq => (by cases heq), ?_⟩
    simp only [Messages.step, if_pos hintact, advance, onQueue, EvDispatch.step, hpushed, if_true]
    exact ⟨_, rfl⟩
  have houtside : s.msgq.posters () = .outside := by
    cases hposters : s.msgq.posters () with
    | outside => rfl
    | pushed => exact absurd hposters hpushed
  cases hposting : s.posting with
  | some m =>
    refine ⟨.push, fun _ _ _ _ heq => (by cases heq), ?_⟩
    simp only [Messages.step, if_pos hintact, advance, hposting, onQueue, EvDispatch.step,
      houtside, if_true]
    exact ⟨_, rfl⟩
  | none =>
    have hqueue : s.msgq.qfmsg ≠ [] :=
      (h.resolve_left fun hne => hne hposting).resolve_left hpushed
    cases hcb : s.msgq.callback with
    | outside =>
      have hasync : s.msgq.async = true := by
        rcases hawake.awake hqueue with hasync | hinside | ⟨i, hi⟩
        · exact hasync
        · exact absurd hcb hinside
        · exact absurd hi hpushed
      refine ⟨.afterpostCb, fun _ _ _ _ heq => (by cases heq), ?_⟩
      simp only [Messages.step, if_pos hintact, advance, onQueue, EvDispatch.step, hasync, hcb,
        and_self, if_true]
      exact ⟨_, rfl⟩
    | loopTest =>
      refine ⟨.checkQueue, fun _ _ _ _ heq => (by cases heq), ?_⟩
      simp only [Messages.step, if_pos hintact, advance, onQueue, EvDispatch.step, hcb, if_true]
      exact ⟨_, rfl⟩
    | body =>
      obtain ⟨m, rest, hqfmsg⟩ := List.exists_cons_of_ne_nil hqueue
      refine ⟨.take, fun _ _ _ _ heq => (by cases heq), ?_⟩
      simp only [Messages.step, if_pos hintact, advance, onQueue, EvDispatch.step, hcb, hqfmsg,
        if_true]
      exact ⟨_, rfl⟩

end Messages

namespace Server

/-- The steps that libuv does not start. -/
def Own : ServerEvent → Prop
  | .net _ => False
  | _ => True

/-- How much there is to do. -/
def work (s : Server) : Nat := 7 * s.todo.length + s.msgs.work

section

variable [FloatOps] {jc : JCommChannel} {es es' : List ServerEvent} {s s' : Server}
  {ops ops' : List MsgOp} {needTls : Bool} {mem : Nat → ClientConnS} {msg : Nat → FromMsg}

theorem onMsgs_ok {e : MsgEvent} {o : List MsgOp} (h : s.onMsgs jc e = .ok (s', o)) :
    ∃ msgs, s.msgs.step jc e = .ok (msgs, o) ∧ s' = { s with msgs := msgs } := by
  unfold onMsgs at h
  split at h
  · cases h
  · next msgs ops' hmsgs =>
    cases h
    exact ⟨msgs, hmsgs, rfl⟩

theorem work_step {e : ServerEvent} {o : List MsgOp} (hown : Own e)
    (h : s.step jc e = .ok (s', o)) : s'.work < s.work := by
  unfold work
  replace h := (step_intact h).2
  cases e with
  | net => exact absurd hown id
  | parsePacket junk =>
    simp only [advance] at h
    split at h
    · cases h
    · next d rest htodo =>
      obtain ⟨msgs, hmsgs, rfl⟩ := onMsgs_ok h
      rw [htodo, List.length_cons]
      show 7 * rest.length + msgs.work < _
      rcases Messages.work_step hmsgs with hwork | ⟨-, hwork⟩
      · have hwork : msgs.work < s.msgs.work := hwork
        omega
      · have hwork : msgs.work ≤ s.msgs.work + 6 := hwork
        omega
  | msgs e =>
    have hmsgs : s.onMsgs jc e = .ok (s', o) ∧
        ¬∃ client packet buf junk, e = .parsePacket client packet buf junk := by
      cases e with
      | parsePacket => cases h
      | push => exact ⟨h, by rintro ⟨_, _, _, _, ⟨⟩⟩⟩
      | send => exact ⟨h, by rintro ⟨_, _, _, _, ⟨⟩⟩⟩
      | afterpostCb => exact ⟨h, by rintro ⟨_, _, _, _, ⟨⟩⟩⟩
      | checkQueue => exact ⟨h, by rintro ⟨_, _, _, _, ⟨⟩⟩⟩
      | take => exact ⟨h, by rintro ⟨_, _, _, _, ⟨⟩⟩⟩
    obtain ⟨msgs, hstep, rfl⟩ := onMsgs_ok hmsgs.1
    rcases Messages.work_step hstep with hwork | ⟨hparse, -⟩
    · exact Nat.add_lt_add_left hwork _
    · exact absurd hparse hmsgs.2

theorem work_run (hown : ∀ e ∈ es, Own e) (h : run jc s es = .ok (s', ops)) :
    es.length + s'.work ≤ s.work := by
  induction es generalizing s ops with
  | nil =>
    cases h
    exact Nat.le_of_eq (Nat.zero_add _)
  | cons e es ih =>
    obtain ⟨t, o, o', hstep, hrun, rfl⟩ := Incremental.feedAll_cons_inv h
    have hone := work_step (hown e List.mem_cons_self) hstep
    have hrest := ih (fun e' he => hown e' (List.mem_cons_of_mem e he)) hrun
    rw [List.length_cons]
    omega

/-- If the packets that are left can be parsed, some thread can go on until they are at rest. -/
theorem can_step (jc : JCommChannel) (htraced : s.msgs.Traced ops) (hintact : s.Intact)
    (hparse : ∀ d ∈ s.todo, ∃ junk r, bufFromMsg d.packet d.data
      (Messages.newFromMsg d.userdata d.packet d.data) junk = .ok r)
    (hrest : ¬s.AtRest) : ∃ e r, Own e ∧ s.step jc e = .ok r := by
  by_cases hmsgs : s.msgs.posting ≠ none ∨ s.msgs.msgq.posters () = .pushed ∨
      s.msgs.msgq.qfmsg ≠ []
  · obtain ⟨e, he, ⟨msgs, o⟩, hstep⟩ := Messages.can_step jc hintact.2 htraced.awake hmsgs
    have hon : s.onMsgs jc e = .ok ({ s with msgs := msgs }, o) := by
      unfold onMsgs
      rw [hstep]
    refine ⟨.msgs e, ({ s with msgs := msgs }, o), trivial, ?_⟩
    rw [Server.step, if_pos hintact]
    cases e with
    | parsePacket => exact absurd rfl (he _ _ _ _)
    | push => exact hon
    | send => exact hon
    | afterpostCb => exact hon
    | checkQueue => exact hon
    | take => exact hon
  · simp only [not_or, not_not] at hmsgs
    obtain ⟨hposting, hposters, hqueue⟩ := hmsgs
    have houtside : s.msgs.msgq.posters () = .outside := by
      cases hpc : s.msgs.msgq.posters () with
      | outside => rfl
      | pushed => exact absurd hpc hposters
    cases htodo : s.todo with
    | nil => exact absurd ⟨htodo, hposting, hqueue⟩ hrest
    | cons d rest =>
      obtain ⟨junk, ⟨packOk, msg⟩, hbuf⟩ := hparse d (htodo ▸ List.mem_cons_self)
      have hstep : ∃ r, s.msgs.step jc (.parsePacket d.userdata d.packet d.data junk) = .ok r := by
        simp only [Messages.step, if_pos hintact.2, Messages.advance, hposting, houtside, and_self,
          if_true, Messages.parsePacket, hbuf]
        split
        · exact ⟨_, rfl⟩
        · exact ⟨_, rfl⟩
      obtain ⟨⟨msgs, o⟩, hstep⟩ := hstep
      exact ⟨.parsePacket junk, _, trivial, step_parsePacket hintact htodo hstep⟩

omit [FloatOps] in
/-- The threads on their own make no callback of libuv. -/
theorem callbacks_own (es : List ServerEvent) (hown : ∀ e ∈ es', Own e) :
    callbacks (es ++ es') = callbacks es := by
  rw [callbacks_append, List.append_right_eq_self, callbacks, List.filterMap_eq_nil_iff]
  intro e he
  cases e with
  | net => exact absurd (hown _ he) id
  | parsePacket => rfl
  | msgs => rfl

/-- Clients that send requests: from every state that is reached the threads, on their own,
stop after at most `work` steps in whatever order.  If the network thread has not ended the
process, they do not stop before a request has been served, if one has arrived: the first one
of some client, and no other. -/
theorem comes_to_rest (sent : Nat → List Request)
    (hsent : ∀ c, Uvnet.heard c (callbacks es) <+: Request.bytes (sent c))
    (h : run jc (start needTls mem msg) es = .ok (s, ops)) (hnet : s.net.Intact)
    (hown : ∀ e ∈ es', Own e) (h' : run jc s es' = .ok (s', ops')) :
    es'.length ≤ s.work ∧ ((∀ e, Own e → ∀ r, s'.step jc e ≠ .ok r) →
      ∃ served : Option (Nat × Request),
        transacts (ops ++ ops') = served.toList.flatMap (fun p => p.2.call jc) ∧
        (∀ p ∈ served, (Request.complete (sent p.1)
          (Uvnet.heard p.1 (callbacks es)).length).head? = some p.2) ∧
        (served = none → ∀ c,
          Request.complete (sent c) (Uvnet.heard c (callbacks es)).length = [])) := by
  have hwork := work_run hown h'
  refine ⟨by omega, fun hstuck => ?_⟩
  have hrun := run_trans h h'
  have hcallbacks := callbacks_own es hown
  rw [← hcallbacks] at hsent
  obtain ⟨served, waits, todo, hcalls, hnone, hwaits, htodo, hparts⟩ :=
    exists_requests sent hsent hrun
  rw [hcallbacks] at hparts
  have hfirst : ∀ p ∈ served, (Request.complete (sent p.1)
      (Uvnet.heard p.1 (callbacks es)).length).head? = some p.2 := by
    simp only [List.append_assoc] at hparts
    exact Merge.head_part hparts
  refine ⟨served, hcalls, hfirst, ?_⟩
  rintro rfl
  obtain ⟨parsed, handled, hfollows⟩ := follows_run hrun
  obtain ⟨_, _, hbefore⟩ := follows_run h
  have hsame := hfollows.run
  rw [hcallbacks, hbefore.run] at hsame
  have hintact : s'.Intact := ⟨(Prod.mk.inj (Except.ok.inj hsame)).1 ▸ hnet, hnone.mp rfl⟩
  have hrest : s'.AtRest := by
    by_contra hrest
    obtain ⟨e, r, he, hstep⟩ := can_step jc hfollows.traced hintact (fun d hd => by
      rw [← htodo] at hd
      obtain ⟨p, -, rfl⟩ := List.mem_map.mp hd
      exact ⟨fun _ => 0, _, Request.bufFromMsg_eq p.1 p.2 _⟩) hrest
    exact hstuck e he r hstep
  rw [hrest.waiting, List.map_eq_nil_iff] at hwaits
  rw [hrest.todo, List.map_eq_nil_iff] at htodo
  intro c
  rw [← hparts c, hwaits, htodo]
  rfl

end

/-- The message is handled, and no step follows. -/
theorem comes_to_rest_hi :
    ∃ (s s' : Server) (ops ops' : List MsgOp), handledEvents.length ≤ s.work ∧
      (∃ served : Option (Nat × Request),
        transacts (ops ++ ops') = served.toList.flatMap (fun p => p.2.call hiRegistry) ∧
        (∀ p ∈ served, (Request.complete (hiSent p.1)
          (Uvnet.heard p.1 (callbacks (oneEvents hiFrame))).length).head? = some p.2) ∧
        (served = none → ∀ c, Request.complete (hiSent c)
          (Uvnet.heard c (callbacks (oneEvents hiFrame))).length = [])) ∧
      transacts (ops ++ ops') = [(0, hiPayload)] ∧ ¬s'.msgs.Intact := by
  let F : FloatOps := ⟨fun v => v.setWidth 64, fun _ => [], fun _ => []⟩
  obtain ⟨s, s', ops, ops', hfst, hsnd, hcalls, hnet, hdead⟩ := run_hi
  have hown : ∀ e ∈ handledEvents, Own e := by
    intro e he
    simp only [handledEvents, List.cons_append, List.nil_append, List.mem_cons, List.not_mem_nil,
      or_false] at he
    rcases he with rfl | rfl | rfl | rfl | rfl <;> trivial
  have hsent : ∀ c, Uvnet.heard c (callbacks (oneEvents hiFrame)) <+: Request.bytes (hiSent c) := by
    intro c
    rw [← callbacks_own (oneEvents hiFrame) hown]
    exact heard_hi c
  obtain ⟨hwork, hrest⟩ := comes_to_rest hiSent hsent hfst hnet hown hsnd
  refine ⟨s, s', ops, ops', hwork, hrest fun e _ r hstep => hdead (step_intact hstep).1.2, hcalls,
    hdead⟩

end Server

end OCServer
