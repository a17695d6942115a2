import Mathlib.Data.List.Basic
import OCServer.Lib.BigEndian
import OCServer.Tls.Adapter

/-!
# A session under a shared key

`Ssl` is a parameter of the adapter.  `Session.ssl` is an OpenSSL in the small: records with
the header of TLS, a handshake of two flights, contents that are masked with a key of both
ends, `close_notify`, and a pair that takes 17 KiB at once.  It shows that what is
assumed of OpenSSL can be met by one that has records waiting and bytes to send.
-/

namespace OCServer.Tls

open BigEndian

/-! ## Records -/

/-- The type of a record, and what is behind its header. -/
structure Record where
  type : UInt8
  body : List UInt8
  deriving DecidableEq, Repr

namespace Record

def alert : UInt8 := 0x15
def handshake : UInt8 := 0x16
def application : UInt8 := 0x17

/-- Type, version, length and body. -/
def bytes (r : Record) : List UInt8 := [r.type, 3, 3] ++ beBytes 2 r.body.length ++ r.body

/-- The records that are complete. -/
def split : Nat → List UInt8 → List Record
  | fuel + 1, type :: _ :: _ :: hi :: lo :: rest =>
    let length := beVal [hi, lo]
    if length ≤ rest.length then
      ⟨type, rest.take length⟩ :: split fuel (rest.drop length)
    else []
  | _, _ => []

/-- A record that is complete stays as it is.  By induction on the records. -/
theorem split_append {n m : Nat} (h : n ≤ m) (bs more : List UInt8) :
    split n bs <+: split m (bs ++ more) := by
  induction n generalizing m bs with
  | zero => exact List.nil_prefix
  | succ n ih =>
    obtain ⟨m, rfl⟩ : ∃ k, m = k + 1 := ⟨m - 1, by omega⟩
    rcases bs with _ | ⟨type, _ | ⟨_, _ | ⟨_, _ | ⟨hi, _ | ⟨lo, rest⟩⟩⟩⟩⟩
    case cons.cons.cons.cons.cons =>
      show split (n + 1) (type :: _ :: _ :: hi :: lo :: rest) <+:
        split (m + 1) (type :: _ :: _ :: hi :: lo :: (rest ++ more))
      unfold split
      by_cases hlen : beVal [hi, lo] ≤ rest.length
      · have hlen' : beVal [hi, lo] ≤ (rest ++ more).length := by
          rw [List.length_append]
          omega
        rw [if_pos hlen, if_pos hlen', List.take_append_of_le_length hlen,
          List.drop_append_of_le_length hlen]
        exact List.prefix_cons_inj _ |>.mpr (ih (by omega) _)
      · rw [if_neg hlen]
        exact List.nil_prefix
    all_goals exact List.nil_prefix

end Record

/-- The cipher. -/
def mask (key : UInt8) (bs : List UInt8) : List UInt8 := bs.map (· ^^^ key)

/-! ## The session -/

/-- The contents of the records of the application in `bs`. -/
def contents (key : UInt8) (bs : List UInt8) : List (List UInt8) :=
  (Record.split bs.length bs).filterMap fun r =>
    if r.type = Record.application ∧ 0 < r.body.length ∧ r.body.length ≤ 16 * 1024 then
      some (mask key r.body)
    else none

theorem contents_append (key : UInt8) (bs more : List UInt8) :
    contents key bs <+: contents key (bs ++ more) := by
  refine (Record.split_append ?_ bs more).filterMap _
  rw [List.length_append]
  omega

theorem contents_size {key : UInt8} {bs d : List UInt8} (h : d ∈ contents key bs) :
    0 < d.length ∧ d.length ≤ 16 * 1024 := by
  obtain ⟨r, _, hr⟩ := List.mem_filterMap.mp h
  split_ifs at hr with hsize
  cases hr
  rw [mask, List.length_map]
  exact hsize.2

/-- What the peer and OpenSSL have written to the pair, how much of it the other one has taken,
and how far the handshake and the shutdown are. -/
structure Session where
  key : UInt8
  received : List UInt8
  taken : Nat
  written : List UInt8
  sent : Nat
  flights : Nat
  finished : Bool
  closing : Bool
  taken_le : taken ≤ (contents key received).length
  sent_le : sent ≤ written.length

namespace Session

/-- A new session. -/
def new (key : UInt8) : Session :=
  ⟨key, [], 0, [], 0, 0, false, false, Nat.zero_le _, Nat.le_refl 0⟩

/-- The contents that have arrived. -/
def arrived (s : Session) : List (List UInt8) := contents s.key s.received

/-- How many records of the type have arrived. -/
def count (s : Session) (type : UInt8) : Nat :=
  (Record.split s.received.length s.received).countP (·.type = type)

def emit (s : Session) (bs : List UInt8) : Session where
  __ := s
  written := s.written ++ bs
  sent_le := by
    have hle := s.sent_le
    rw [List.length_append]
    omega

/-- What the server answers to the records of the handshake. -/
def replies : List (List UInt8) :=
  [(Record.mk Record.handshake [2]).bytes, (Record.mk Record.handshake [20]).bytes]

def doHandshake (s : Session) : Int × Session :=
  let n := s.count Record.handshake
  let s' := { s.emit ((replies.take n).drop s.flights).flatten with flights := max n s.flights }
  if n < 2 then (-1, s') else (1, { s' with finished := true })

def read (s : Session) : Int × List UInt8 × Session :=
  if h : s.finished ∧ s.taken < s.arrived.length then
    (s.arrived[s.taken].length, s.arrived[s.taken],
      { s with taken := s.taken + 1, taken_le := h.2 })
  else if s.finished ∧ 0 < s.count Record.alert then (0, [], s)
  else (-1, [], s)

def write (s : Session) (buf : List UInt8) : Int × Session :=
  if s.finished then
    (buf.length, s.emit ((buf.toChunks (16 * 1024)).flatMap fun d =>
      (Record.mk Record.application (mask s.key d)).bytes))
  else (-1, s)

def shutdown (s : Session) : Int × Session :=
  let s' := if s.closing then s
    else { s.emit (Record.mk Record.alert [1, 0]).bytes with closing := true }
  (if 0 < s.count Record.alert then 1 else 0, s')

def bioRead (s : Session) (n : Nat) : Int × List UInt8 × Session :=
  let n := min n (s.written.length - s.sent)
  (n, (s.written.drop s.sent).take n,
    { s with
      sent := s.sent + n
      sent_le := by
        have hle := s.sent_le
        omega })

def bioWrite (s : Session) (d : List UInt8) : Int × Session :=
  let d := d.take (17 * 1024)
  (d.length, { s with
    received := s.received ++ d
    taken_le := s.taken_le.trans (contents_append s.key s.received d).length_le })

def ssl : Ssl Session where
  SSL_do_handshake := doHandshake
  SSL_read := read
  SSL_write := write
  SSL_shutdown := shutdown
  SSL_is_init_finished := finished
  BIO_pending s := s.written.length - s.sent
  BIO_read := bioRead
  BIO_write := bioWrite

/-! ## What the calls leave -/

/-- OpenSSL has written, and nothing has arrived or has been read. -/
structure Emits (s s' : Session) : Prop where
  written : s.written <+: s'.written
  sent : s'.sent = s.sent
  received : s'.received = s.received
  arrived : s'.arrived = s.arrived
  taken : s'.taken = s.taken

theorem Emits.refl (s : Session) : Emits s s := ⟨List.prefix_refl _, rfl, rfl, rfl, rfl⟩

theorem doHandshake_emits (s : Session) : Emits s s.doHandshake.2 := by
  unfold doHandshake
  simp only
  split_ifs <;> exact ⟨List.prefix_append _ _, rfl, rfl, rfl, rfl⟩

/-- A handshake that goes on is not finished by the call. -/
theorem doHandshake_finished {s : Session} (hret : s.doHandshake.1 ≠ 1)
    (h : s.doHandshake.2.finished = true) : s.finished = true := by
  unfold doHandshake at hret h
  by_cases hcount : s.count Record.handshake < 2
  · simp only [if_pos hcount] at h
    exact h
  · simp only [if_neg hcount, ne_eq, not_true_eq_false] at hret

theorem write_emits (s : Session) (buf : List UInt8) : Emits s (s.write buf).2 := by
  unfold write
  split_ifs
  · exact ⟨List.prefix_append _ _, rfl, rfl, rfl, rfl⟩
  · exact Emits.refl s

theorem shutdown_emits (s : Session) :
    Emits s s.shutdown.2 ∧ s.shutdown.2.finished = s.finished := by
  unfold shutdown
  by_cases hclosing : s.closing = true
  · rw [if_pos hclosing]
    exact ⟨Emits.refl s, rfl⟩
  · rw [if_neg hclosing]
    exact ⟨⟨List.prefix_append _ _, rfl, rfl, rfl, rfl⟩, rfl⟩

/-- What a peer with the key sends for the contents. -/
def sealRecord (key : UInt8) (d : List UInt8) : List UInt8 :=
  (Record.mk Record.application (mask key d)).bytes

/-! ## A conversation -/

/-- The first flight of a client. -/
def hello : List UInt8 := (Record.mk Record.handshake [1]).bytes

/-- The connection behind it. -/
def greeted : EvtTls Session where
  ssl := ⟨0x5A, hello, 0, (Record.mk Record.handshake [2]).bytes, 6, 1, false, false,
    Nat.zero_le _, by decide⟩
  readCb := false
  closeCb := false

/-- The two flights of a client, and two packets in three records, of which the first two come
at once. -/
def arrivals : List (List UInt8) :=
  [hello, (Record.mk Record.handshake [20]).bytes,
    sealRecord 0x5A [0x0C, 1, 0x0C, 0xEA, 9, 0, 0] ++
      sealRecord 0x5A [0, 2, 0x0C, 0xEA, 0xEA, 0x0C, 1, 0x0C, 0xEA, 9, 0, 0],
    sealRecord 0x5A [0, 2, 0x0C, 0xEA, 0xEA]]

/-- The connection behind the conversation.  The last record is not read. -/
def listened : EvtTls Session where
  ssl := ⟨0x5A, arrivals.flatten, 2, replies.flatten, 12, 2, true, false, by decide, by decide⟩
  readCb := true
  closeCb := false

/-- What the framer is given. -/
def heard : List (List UInt8) :=
  [[0x0C, 1, 0x0C, 0xEA, 9, 0, 0], [0, 2, 0x0C, 0xEA, 0xEA, 0x0C, 1, 0x0C, 0xEA, 9, 0, 0]]

/-- The events: what arrives, and a reply. -/
def conversation : List ConnEvent := arrivals.map .data ++ [.sendMsg [1]]

/-- The outputs: the flights of the server, what the framer is given, and the reply. -/
def said : List Output :=
  [.wire (Record.mk Record.handshake [2]).bytes, .wire (Record.mk Record.handshake [20]).bytes,
    .handshake 1] ++ heard.map .plain ++ [.reply [1]]

theorem conversation_run :
    connRun ssl 2 (evt_tls_accept (new 0x5A)) conversation = .ok (listened, said) := rfl

end Session

end OCServer.Tls
