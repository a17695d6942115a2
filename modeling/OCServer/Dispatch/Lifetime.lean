import OCServer.Dispatch.Queue
import OCServer.Dispatch.Service
import OCServer.GameProto.Message

/-!
# The life of a message

`ParsePacket` allocates a `FromMsg`, and it is released there or by the
dispatch thread.  `Messages` puts the two threads together: the network
thread parses a packet, pushes the message and sends, and the dispatch
thread runs `afterpost_cb`.  A message is known by the number of the `new`
that returned it.  What is done with a message comes out as a `MsgOp`.  A
release is recorded, and the process goes on only while no message has been
released twice.

`Orderly` says how often a message is released and that it is not used
afterwards.  Both branches of `proc_msg` release the message, and so does
`afterpost_cb` after the call: `orderly_iff`.
-/

namespace OCServer

open Machine GameProto

/-- Why a step is not taken: it is not the turn of that thread, a message has
been released twice, the queue says so, or an exception leaves
`ParsePacket`. -/
inductive MsgStop
  | notEnabled
  | usedAfterRelease
  | queue (stop : QueueStop)
  | uncaught (e : Cpp.CppExc)
  deriving DecidableEq

/-- The messages, and the queue that the network thread posts to.  `posting`
is the message that `ParsePacket` is about to post, and `released` are those
that have been deleted, in order. -/
structure Messages where
  mallocs : Nat
  msg : Nat → FromMsg
  posting : Option Nat
  msgq : EvDispatch Unit Nat
  released : List Nat

/-- The steps of the two threads: the first three are the network
thread's.  `junk` is what variables without a value hold. -/
inductive MsgEvent
  | parsePacket (client : Nat) (packet : NetPacket) (buf : List UInt8) (junk : Nat → UInt8)
  | push
  | send
  | afterpostCb
  | checkQueue
  | take

namespace Messages

/-- Before the first packet, over memory that holds `mem`. -/
def start (mem : Nat → FromMsg) : Messages where
  mallocs := 0
  msg := mem
  posting := none
  msgq := EvDispatch.start
  released := []

/-- No message has been released twice. -/
def Intact (s : Messages) : Prop := s.released.Nodup

instance (s : Messages) : Decidable s.Intact := inferInstanceAs (Decidable s.released.Nodup)

/-- The releases among some operations. -/
def releases (ops : List MsgOp) : List Nat :=
  ops.filterMap fun
    | .release m => some m
    | _ => none

/-- A step of the queue. -/
def onQueue (s : Messages) (e : QueueEvent Unit Nat) : Except MsgStop (Messages × List Nat) :=
  match s.msgq.step e with
  | .error stop => .error (.queue stop)
  | .ok (msgq, out) => .ok ({ s with msgq := msgq }, out)

/-- What the body of the loop of `afterpost_cb` does with a message. -/
def handle (jc : JCommChannel) (s : Messages) (m : Nat) : List MsgOp :=
  jc.procMsg m (s.msg m) ++ [.release m]

/-- The message that `ParsePacket` hands to `bufFromMsg`. -/
def newFromMsg (client : Nat) (packet : NetPacket) (buf : List UInt8) : FromMsg :=
  { client := client
    fromVersion := packet.version
    packetType := packet.type
    netBuffer := buf.take packet.datalen.toNat }

section

variable [FloatOps]

/-- `ParsePacket` up to `postMsg`. -/
def parsePacket (s : Messages) (client : Nat) (packet : NetPacket) (buf : List UInt8)
    (junk : Nat → UInt8) : Except MsgStop (Messages × List MsgOp) :=
  let m := s.mallocs
  match bufFromMsg packet buf (newFromMsg client packet buf) junk with
  | .error e => .error (.uncaught e)
  | .ok (packOk, msg) =>
    let s := { s with mallocs := m + 1, msg := Function.update s.msg m msg }
    if packOk then .ok ({ s with posting := some m }, [.alloc m, .access m])
    else .ok ({ s with released := s.released ++ [m] }, [.alloc m, .access m, .release m])

/-- What a step of a thread does, also to the messages.  The network thread
parses the next packet when `postMsg` has returned. -/
def advance (jc : JCommChannel) (s : Messages) : MsgEvent → Except MsgStop (Messages × List MsgOp)
  | .parsePacket client packet buf junk =>
    if s.posting = none ∧ s.msgq.posters () = .outside then
      s.parsePacket client packet buf junk
    else .error .notEnabled
  | .push =>
    match s.posting with
    | none => .error .notEnabled
    | some m => do
      let (s, _) ← { s with posting := none }.onQueue (.push () m)
      pure (s, [])
  | .send => do
    let (s, _) ← s.onQueue (.send ())
    pure (s, [])
  | .afterpostCb => do
    let (s, _) ← s.onQueue .afterpostCb
    pure (s, [])
  | .checkQueue => do
    let (s, _) ← s.onQueue .checkQueue
    pure (s, [])
  | .take => do
    let (s, out) ← s.onQueue .take
    let ops := out.flatMap fun m => s.handle jc m
    pure ({ s with released := s.released ++ releases ops }, ops)

/-- One step. -/
def step (jc : JCommChannel) (s : Messages) (e : MsgEvent) :
    Except MsgStop (Messages × List MsgOp) :=
  if s.Intact then s.advance jc e else .error .usedAfterRelease

/-- Any sequence of packets, in any order of the steps of the two threads. -/
abbrev run (jc : JCommChannel) : Messages → List MsgEvent →
    Except MsgStop (Messages × List MsgOp) :=
  Incremental.feedAll (step jc)

end

/-! ## What a step does -/

/-- A message that is about to be posted, or is in the queue. -/
def Held (s : Messages) (m : Nat) : Prop := s.posting = some m ∨ m ∈ s.msgq.qfmsg

/-- The steps that only change the flag of the queue and where its threads
are. -/
def onlyQueue : MsgEvent → Option (QueueEvent Unit Nat)
  | .send => some (.send ())
  | .afterpostCb => some .afterpostCb
  | .checkQueue => some .checkQueue
  | _ => none

/-- The steps that are taken. -/
inductive Stepped (jc : JCommChannel) (s : Messages) :
    MsgEvent → Messages → List MsgOp → Prop
  | posted {client packet buf junk} (msg : FromMsg) : s.posting = none → msg.client = client →
      Stepped jc s (.parsePacket client packet buf junk)
        { s with
          mallocs := s.mallocs + 1
          msg := Function.update s.msg s.mallocs msg
          posting := some s.mallocs }
        [.alloc s.mallocs, .access s.mallocs]
  | dropped {client packet buf junk} (msg : FromMsg) : s.posting = none →
      Stepped jc s (.parsePacket client packet buf junk)
        { s with
          mallocs := s.mallocs + 1
          msg := Function.update s.msg s.mallocs msg
          released := s.released ++ [s.mallocs] }
        [.alloc s.mallocs, .access s.mallocs, .release s.mallocs]
  | push (m : Nat) (msgq : EvDispatch Unit Nat) : s.posting = some m →
      msgq.qfmsg = s.msgq.qfmsg ++ [m] → s.msgq.step (.push () m) = .ok (msgq, []) →
      Stepped jc s .push { s with posting := none, msgq := msgq } []
  | queue {e} (qe : QueueEvent Unit Nat) (msgq : EvDispatch Unit Nat) : onlyQueue e = some qe →
      msgq.qfmsg = s.msgq.qfmsg → s.msgq.step qe = .ok (msgq, []) →
      Stepped jc s e { s with msgq := msgq } []
  | take (m : Nat) (rest : List Nat) (msgq : EvDispatch Unit Nat) : s.msgq.callback = .body →
      s.msgq.qfmsg = m :: rest → msgq.qfmsg = rest → s.msgq.step .take = .ok (msgq, [m]) →
      Stepped jc s .take { s with msgq := msgq, released := s.released ++ [m, m] }
        (s.handle jc m)

section

variable [FloatOps]

/-- `bufFromMsg` does not change the client of a message. -/
theorem bufFromMsg_client {packet : NetPacket} {buf : List UInt8} {msg msg' : FromMsg}
    {junk : Nat → UInt8} {packOk : Bool}
    (h : bufFromMsg packet buf msg junk = .ok (packOk, msg')) : msg'.client = msg.client := by
  unfold bufFromMsg at h
  split at h
  · cases h
    rfl
  · cases h
    rfl
  · cases h

omit [FloatOps] in
/-- A step of the queue that goes through. -/
theorem onQueue_ok {s s' : Messages} {e : QueueEvent Unit Nat} {out : List Nat}
    (h : s.onQueue e = .ok (s', out)) :
    ∃ msgq, s.msgq.step e = .ok (msgq, out) ∧ s' = { s with msgq := msgq } := by
  unfold onQueue at h
  split at h
  · cases h
  · next msgq out' hstep =>
    cases h
    exact ⟨msgq, hstep, rfl⟩

theorem step_intact {jc : JCommChannel} {s s' : Messages} {e : MsgEvent} {ops : List MsgOp}
    (h : s.step jc e = .ok (s', ops)) : s.Intact ∧ s.advance jc e = .ok (s', ops) := by
  unfold step at h
  split at h
  · next hintact => exact ⟨hintact, h⟩
  · cases h

omit [FloatOps] in
/-- Both `proc_msg` and `afterpost_cb` release the message. -/
theorem releases_handle (jc : JCommChannel) (s : Messages) (m : Nat) :
    releases (s.handle jc m) = [m, m] := by
  unfold handle JCommChannel.procMsg
  cases jc.getService (s.msg m).serviceCmd <;> rfl

theorem step_cases {jc : JCommChannel} {s s' : Messages} {e : MsgEvent} {ops : List MsgOp}
    (h : s.step jc e = .ok (s', ops)) : Stepped jc s e s' ops := by
  replace h := (step_intact h).2
  have hturn : ∀ qe : QueueEvent Unit Nat, onlyQueue e = some qe →
      (s.onQueue qe >>= fun p => pure (p.1, [])) = Except.ok (s', ops) → Stepped jc s e s' ops := by
    intro qe he hstep
    obtain ⟨⟨t, out⟩, hqueue, hpure⟩ := Incremental.bind_eq_ok hstep
    cases hpure
    obtain ⟨msgq, hq, rfl⟩ := onQueue_ok hqueue
    have hout : out = [] ∧ msgq.qfmsg = s.msgq.qfmsg := by
      cases EvDispatch.step_cases hq with
      | push => cases e <;> cases he
      | take => cases e <;> cases he
      | send => exact ⟨rfl, rfl⟩
      | afterpostCb => exact ⟨rfl, rfl⟩
      | empty => exact ⟨rfl, rfl⟩
      | nonempty => exact ⟨rfl, rfl⟩
    obtain ⟨rfl, hqfmsg⟩ := hout
    exact .queue qe msgq he hqfmsg hq
  cases e with
  | parsePacket client packet buf junk =>
    simp only [advance] at h
    split at h
    · next hidle =>
      unfold parsePacket at h
      simp only at h
      split at h
      · cases h
      · next packOk msg hbuf =>
        have hclient := bufFromMsg_client hbuf
        split at h
        · cases h
          exact .posted msg hidle.1 hclient
        · cases h
          exact .dropped msg hidle.1
    · cases h
  | push =>
    simp only [advance] at h
    split at h
    · cases h
    · next m hm =>
      obtain ⟨⟨t, out⟩, hqueue, hpure⟩ := Incremental.bind_eq_ok h
      cases hpure
      obtain ⟨msgq, hq, rfl⟩ := onQueue_ok hqueue
      have hq' := hq
      cases EvDispatch.step_cases hq with
      | push => exact .push m _ hm rfl hq'
  | send => exact hturn _ rfl h
  | afterpostCb => exact hturn _ rfl h
  | checkQueue => exact hturn _ rfl h
  | take =>
    simp only [advance] at h
    obtain ⟨⟨t, out⟩, hqueue, hpure⟩ := Incremental.bind_eq_ok h
    cases hpure
    obtain ⟨msgq, hq, rfl⟩ := onQueue_ok hqueue
    have hq' := hq
    cases EvDispatch.step_cases hq with
    | take m rest hcb hqfmsg =>
      rw [List.flatMap_singleton]
      have hstepped : Stepped jc s .take _ _ := .take m rest _ hcb hqfmsg rfl hq'
      rwa [← releases_handle jc] at hstepped

/-! ## What any run does -/

/-- What holds of the messages in any run, whatever has been done to them. -/
structure Traced (s : Messages) (ops : List MsgOp) : Prop where
  awake : s.msgq.Awake
  held_lt : ∀ m, Held s m → m < s.mallocs
  alloc_iff : ∀ m, .alloc m ∈ ops ↔ m < s.mallocs
  release_lt : ∀ m, .release m ∈ ops → m < s.mallocs
  released_eq : s.released = releases ops

omit [FloatOps] in
theorem traced_start (mem : Nat → FromMsg) : Traced (start mem) [] where
  awake := EvDispatch.awake_start
  held_lt m h := by
    rcases h with h | h <;> cases h
  alloc_iff m := ⟨nofun, fun h => absurd h (Nat.not_lt_zero m)⟩
  release_lt m h := nomatch h
  released_eq := rfl

omit [FloatOps] in
theorem releases_append (ops ops' : List MsgOp) :
    releases (ops ++ ops') = releases ops ++ releases ops' := List.filterMap_append

omit [FloatOps] in
theorem mem_releases {m : Nat} {ops : List MsgOp} : m ∈ releases ops ↔ .release m ∈ ops := by
  unfold releases
  rw [List.mem_filterMap]
  constructor
  · rintro ⟨op, hop, heq⟩
    cases op with
    | release x =>
      cases heq
      exact hop
    | alloc => cases heq
    | access => cases heq
    | execTransact => cases heq
  · exact fun hm => ⟨_, hm, rfl⟩

omit [FloatOps] in
theorem count_releases (m : Nat) (ops : List MsgOp) :
    (releases ops).count m = ops.count (.release m) := by
  induction ops with
  | nil => rfl
  | cons op ops ih =>
    unfold releases at ih ⊢
    cases op with
    | release x => simp [List.count_cons, ih]
    | alloc => simp [ih]
    | access => simp [ih]
    | execTransact => simp [ih]

omit [FloatOps] in
/-- The operations on a message that `afterpost_cb` takes. -/
theorem mem_handle {jc : JCommChannel} {s : Messages} {m x : Nat} :
    (.alloc x ∉ s.handle jc m) ∧ (.release x ∈ s.handle jc m ↔ x = m) := by
  unfold handle JCommChannel.procMsg
  cases jc.getService (s.msg m).serviceCmd <;> simp

omit [FloatOps] in
/-- It is released twice. -/
theorem count_handle (jc : JCommChannel) (s : Messages) (m : Nat) :
    (s.handle jc m).count (.release m) = 2 := by
  unfold handle JCommChannel.procMsg
  cases jc.getService (s.msg m).serviceCmd <;> simp

theorem Traced.step {jc : JCommChannel} {s s' : Messages} {e : MsgEvent} {ops o : List MsgOp}
    (h : Traced s ops) (hstep : s.step jc e = .ok (s', o)) : Traced s' (ops ++ o) := by
  cases step_cases hstep with
  | @posted client packet buf junk msg hidle hclient =>
    constructor
    case awake => exact h.awake
    case held_lt =>
      intro m hm
      rcases hm with hm | hm
      · cases hm
        exact Nat.lt_succ_self _
      · exact Nat.lt_succ_of_lt (h.held_lt m (Or.inr hm))
    case alloc_iff =>
      intro m
      simp [h.alloc_iff]
      omega
    case release_lt =>
      intro m hm
      simp at hm
      exact Nat.lt_succ_of_lt (h.release_lt m hm)
    case released_eq =>
      rw [releases_append, ← h.released_eq]
      exact (List.append_nil _).symm
  | @dropped client packet buf junk msg hidle =>
    constructor
    case awake => exact h.awake
    case held_lt => exact fun m hm => Nat.lt_succ_of_lt (h.held_lt m hm)
    case alloc_iff =>
      intro m
      simp [h.alloc_iff]
      omega
    case release_lt =>
      intro m hm
      simp at hm
      rcases hm with hm | rfl
      · exact Nat.lt_succ_of_lt (h.release_lt m hm)
      · exact Nat.lt_succ_self _
    case released_eq =>
      rw [releases_append, ← h.released_eq]
      rfl
  | push m msgq hm hqfmsg hq =>
    rw [List.append_nil]
    refine ⟨h.awake.step hq, ?_, h.alloc_iff, h.release_lt, h.released_eq⟩
    intro x hx
    rcases hx with hx | hx
    · cases hx
    · rw [hqfmsg, List.mem_append, List.mem_singleton] at hx
      rcases hx with hx | rfl
      · exact h.held_lt x (Or.inr hx)
      · exact h.held_lt x (Or.inl hm)
  | queue qe msgq he hqfmsg hq =>
    rw [List.append_nil]
    refine ⟨h.awake.step hq, ?_, h.alloc_iff, h.release_lt, h.released_eq⟩
    intro x hx
    rcases hx with hx | hx
    · exact h.held_lt x (Or.inl hx)
    · exact h.held_lt x (Or.inr (hqfmsg ▸ hx))
  | take m rest msgq hcb hqfmsg hrest hq =>
    have hheld : ∀ x, x ∈ m :: rest → x < s.mallocs := fun x hx =>
      h.held_lt x (Or.inr (hqfmsg ▸ hx))
    constructor
    case awake => exact h.awake.step hq
    case held_lt =>
      intro x hx
      rcases hx with hx | hx
      · exact h.held_lt x (Or.inl hx)
      · exact hheld x (List.mem_cons_of_mem m (hrest ▸ hx))
    case alloc_iff =>
      intro x
      rw [List.mem_append, or_iff_left mem_handle.1]
      exact h.alloc_iff x
    case release_lt =>
      intro x hx
      rw [List.mem_append, mem_handle.2] at hx
      rcases hx with hx | rfl
      · exact h.release_lt x hx
      · exact hheld x List.mem_cons_self
    case released_eq => rw [releases_append, ← h.released_eq, releases_handle]

/-- Only a message that is taken is released twice. -/
theorem Traced.intact_step {jc : JCommChannel} {s s' : Messages} {e : MsgEvent}
    {ops o : List MsgOp} (h : Traced s ops) (hstep : s.step jc e = .ok (s', o)) :
    s'.Intact ↔ e ≠ .take := by
  have hintact := (step_intact hstep).1
  unfold Intact at hintact ⊢
  cases step_cases hstep with
  | posted => exact iff_of_true hintact fun heq => by cases heq
  | dropped =>
    refine iff_of_true ?_ fun heq => by cases heq
    rw [List.nodup_append]
    refine ⟨hintact, by simp, fun a ha b hb hab => ?_⟩
    rw [List.mem_singleton] at hb
    rw [h.released_eq, hab, hb, mem_releases] at ha
    exact Nat.lt_irrefl _ (h.release_lt _ ha)
  | push => exact iff_of_true hintact fun heq => by cases heq
  | queue qe msgq he =>
    refine iff_of_true hintact fun heq => ?_
    subst heq
    cases he
  | take m =>
    refine iff_of_false (fun hnodup => ?_) fun hne => hne rfl
    have htwice := (List.nodup_append.mp hnodup).2.1
    simp at htwice

/-! ## The law -/

/-- No message is used after its release. -/
def Alive (ops : List MsgOp) : Prop :=
  ∀ pre m, pre ++ [.access m] <+: ops → .release m ∉ pre

/-- A message that waits has not been released, and any other has been
released once; none is used after its release. -/
structure Orderly (s : Messages) (ops : List MsgOp) : Prop where
  held : ∀ m, Held s m → .release m ∉ ops
  gone : ∀ m, .alloc m ∈ ops → ¬Held s m → ops.count (.release m) = 1
  alive : Alive ops

omit [FloatOps] in
theorem alive_nil : Alive [] := by
  intro pre m hpre
  have hne := List.prefix_nil.mp hpre
  simp at hne

omit [FloatOps] in
theorem alive_concat {ops : List MsgOp} {op : MsgOp} (h : Alive ops)
    (hop : ∀ m, op = .access m → .release m ∉ ops) : Alive (ops ++ [op]) := by
  intro pre m hpre
  rcases List.prefix_concat_iff.mp hpre with heq | hpre
  · obtain ⟨rfl, hop'⟩ := List.append_inj' heq rfl
    exact hop m (List.cons.inj hop').1.symm
  · exact h pre m hpre

/-- A step that takes no message from the queue. -/
theorem Orderly.step {jc : JCommChannel} {s s' : Messages} {e : MsgEvent} {ops o : List MsgOp}
    (h : Orderly s ops) (htraced : Traced s ops) (hstep : s.step jc e = .ok (s', o))
    (htake : e = .take → s.msgq.callback ≠ .body) : Orderly s' (ops ++ o) := by
  have hnew : .release s.mallocs ∉ ops := fun hm =>
    Nat.lt_irrefl _ (htraced.release_lt _ hm)
  have hfresh : ¬Held s s.mallocs := fun hm => Nat.lt_irrefl _ (htraced.held_lt _ hm)
  have hold : ∀ x, .alloc x ∈ ops → x ≠ s.mallocs := fun x hx =>
    Nat.ne_of_lt ((htraced.alloc_iff x).mp hx)
  have halive : Alive (ops ++ [.alloc s.mallocs] ++ [.access s.mallocs]) := by
    refine alive_concat (alive_concat h.alive nofun) fun m hm => ?_
    cases hm
    simpa using hnew
  cases step_cases hstep with
  | @posted client packet buf junk msg hidle hclient =>
    constructor
    case held =>
      intro x hx
      rcases hx with hx | hx
      · cases hx
        simpa using hnew
      · simpa using h.held x (Or.inr hx)
    case gone =>
      intro x hx hgone
      rw [List.mem_append] at hx
      rcases hx with hx | hx
      · have hwaits : ¬Held s x := by
          intro h
          rcases h with hx | hx
          · rw [hidle] at hx
            cases hx
          · exact hgone (Or.inr hx)
        simpa [List.count_append] using h.gone x hx hwaits
      · obtain rfl : x = s.mallocs := by simpa using hx
        exact absurd (Or.inl rfl) hgone
    case alive =>
      rw [List.append_cons]
      exact halive
  | @dropped client packet buf junk msg hidle =>
    constructor
    case held =>
      intro x hx
      have hne : x ≠ s.mallocs := fun heq => hfresh (heq ▸ hx)
      simpa [hne] using h.held x hx
    case gone =>
      intro x hx hgone
      rw [List.mem_append] at hx
      rcases hx with hx | hx
      · have hne := (hold x hx).symm
        simpa [List.count_append, List.count_cons, hne] using h.gone x hx hgone
      · obtain rfl : x = s.mallocs := by simpa using hx
        simp [List.count_append, List.count_eq_zero.mpr hnew]
    case alive =>
      rw [List.append_cons, List.append_cons]
      exact alive_concat halive nofun
  | push m msgq hm hqfmsg hq =>
    have hsame : ∀ x, Held { s with posting := none, msgq := msgq } x ↔ Held s x := by
      intro x
      simp [Held, hqfmsg, hm, or_comm, eq_comm]
    rw [List.append_nil]
    exact ⟨fun x hx => h.held x ((hsame x).mp hx),
      fun x hx hgone => h.gone x hx (mt (hsame x).mpr hgone), h.alive⟩
  | queue qe msgq he hqfmsg hq =>
    have hsame : ∀ x, Held { s with msgq := msgq } x ↔ Held s x := by
      intro x
      simp [Held, hqfmsg]
    rw [List.append_nil]
    exact ⟨fun x hx => h.held x ((hsame x).mp hx),
      fun x hx hgone => h.gone x hx (mt (hsame x).mpr hgone), h.alive⟩
  | take m rest msgq hcb hqfmsg hrest hq => exact absurd hcb (htake rfl)

omit [FloatOps] in
/-- An orderly process goes on. -/
theorem Orderly.intact {s : Messages} {ops : List MsgOp} (h : Orderly s ops)
    (htraced : Traced s ops) : s.Intact := by
  refine List.nodup_iff_count.mpr fun m => ?_
  rw [htraced.released_eq, count_releases]
  by_cases hm : .release m ∈ ops
  · have halloc := (htraced.alloc_iff m).mpr (htraced.release_lt m hm)
    exact Nat.le_of_eq (h.gone m halloc fun hheld => h.held m hheld hm)
  · rw [List.count_eq_zero.mpr hm]
    exact Nat.zero_le 1

/-- A message that is taken is released twice. -/
theorem Traced.not_orderly (jc : JCommChannel) {s : Messages} {ops : List MsgOp}
    (h : Traced s ops) (hintact : s.Intact) (hcb : s.msgq.callback = .body) :
    ∃ s' o, s.step jc .take = .ok (s', o) ∧ ¬Orderly s' (ops ++ o) := by
  cases hqfmsg : s.msgq.qfmsg with
  | nil => exact absurd hqfmsg (h.awake.front hcb)
  | cons m rest =>
    have hstep : s.step jc .take =
        .ok ({ s with
            msgq := { s.msgq with qfmsg := rest, callback := .loopTest }
            released := s.released ++ releases (s.handle jc m ++ []) },
          s.handle jc m ++ []) := by
      simp only [Messages.step, if_pos hintact, advance, onQueue, EvDispatch.step, hcb, hqfmsg,
        if_true]
      rfl
    rw [List.append_nil] at hstep
    refine ⟨_, _, hstep, fun horderly => ?_⟩
    have hreleased : .release m ∈ ops ++ s.handle jc m :=
      List.mem_append_right _ (mem_handle.2.mpr rfl)
    have hheld : Held s m := Or.inr (hqfmsg ▸ List.mem_cons_self)
    have halloc : .alloc m ∈ ops ++ s.handle jc m :=
      List.mem_append_left _ ((h.alloc_iff m).mpr (h.held_lt m hheld))
    have honce := horderly.gone m halloc fun hm => horderly.held m hm hreleased
    rw [List.count_append, count_handle] at honce
    omega

/-- For every sequence of packets and every order of the steps: every state
that is reached is `Orderly`, if and only if no message is taken from the
queue. -/
theorem orderly_iff (jc : JCommChannel) (mem : Nat → FromMsg) (es : List MsgEvent) :
    (∀ pre post s ops, es = pre ++ post → run jc (start mem) pre = .ok (s, ops) →
      Orderly s ops) ↔
    Along (step jc) (fun s e => e = .take → s.msgq.callback ≠ .body) (start mem) es := by
  have htraced : ∀ {es s ops}, run jc (start mem) es = .ok (s, ops) → Traced s ops :=
    fun {es s ops} hrun => invariant (fun _ s ops => Traced s ops) (traced_start mem)
      (fun _ _ _ _ _ _ h hstep => h.step hstep) es s ops hrun
  constructor
  · rintro horderly pre e post hes s ops hrun rfl hcb
    have hintact := (horderly pre (.take :: post) s ops hes hrun).intact (htraced hrun)
    obtain ⟨s', o, hstep, hnot⟩ := (htraced hrun).not_orderly jc hintact hcb
    refine hnot (horderly (pre ++ [.take]) post s' _ ?_ (run_trans hrun (run_one hstep)))
    rw [hes, List.append_assoc]
    rfl
  · intro halong pre post s ops hes hrun
    rw [hes] at halong
    refine (invariant_along (fun _ s ops => Traced s ops ∧ Orderly s ops)
      ⟨traced_start mem, ?_⟩ ?_ pre s ops halong.left hrun).2
    · exact ⟨fun _ _ => List.not_mem_nil, fun _ hm => absurd hm List.not_mem_nil, alive_nil⟩
    · rintro es e s s' ops o ⟨htraced, horderly⟩ htake hstep
      exact ⟨htraced.step hstep, horderly.step htraced hstep htake⟩

end

/-- A packet with all of the header is posted. -/
theorem step_parsePacket [FloatOps] {jc : JCommChannel} {s : Messages} (client : Nat)
    {packet : NetPacket} {buf r : List UInt8} {h : Header} (junk : Nat → UInt8)
    (hintact : s.Intact) (hidle : s.posting = none ∧ s.msgq.posters () = .outside)
    (hmsg : messageAt (buf.take packet.datalen.toNat) = .whole h r) :
    s.step jc (.parsePacket client packet buf junk) =
      .ok (⟨s.mallocs + 1,
          Function.update s.msg s.mallocs ((newFromMsg client packet buf).withHeader h),
          some s.mallocs, s.msgq, s.released⟩,
        [.alloc s.mallocs, .access s.mallocs]) := by
  simp only [step, if_pos hintact, advance, if_pos hidle, parsePacket, bufFromMsg_of_whole hmsg]
  rfl

/-- One message that is posted and processed. -/
theorem not_always_orderly :
    ¬∀ es s ops, @run ⟨fun v => v.setWidth 64, fun _ => [], fun _ => []⟩
      (JCommChannel.start []) (start fun _ => JCommChannel.newMsg) es = .ok (s, ops) →
      Orderly s ops := by
  intro horderly
  let F : FloatOps := ⟨fun v => v.setWidth 64, fun _ => [], fun _ => []⟩
  -- the command `hi` and no attributes
  have hmsg : messageAt [0x0C, 0x16, 2, 104, 105, 0x2C, 0x38, 0x0C] =
      .whole ⟨0, [104, 105], 0, []⟩ [] := rfl
  obtain ⟨msg, hposted⟩ : ∃ msg, (start fun _ => JCommChannel.newMsg).step (.start [])
      (.parsePacket 0 ⟨1, 4, 5, 0, 8⟩ [0x0C, 0x16, 2, 104, 105, 0x2C, 0x38, 0x0C] fun _ => 0) =
        .ok (⟨1, msg, some 0, EvDispatch.start, []⟩, [.alloc 0, .access 0]) :=
    ⟨_, step_parsePacket 0 (fun _ => 0) List.nodup_nil ⟨rfl, rfl⟩ hmsg⟩
  obtain ⟨s, hprocessed, hheld⟩ : ∃ s,
      run (.start []) ⟨1, msg, some 0, EvDispatch.start, []⟩
        [.push, .send, .afterpostCb, .checkQueue, .take] =
          .ok (s, [.access 0, .release 0, .release 0]) ∧ ¬Held s 0 :=
    ⟨_, rfl, by rintro (h | h) <;> cases h⟩
  have honce := (horderly _ s _ (run_trans (run_one hposted) hprocessed)).gone 0 (by decide) hheld
  revert honce
  decide

end Messages

end OCServer
