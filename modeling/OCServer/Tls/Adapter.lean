import OCServer.Lib.Fuel
import OCServer.Lib.Incremental

/-!
# A TLS connection of the server

`evt_tls.cpp` stands between the sockets and OpenSSL: what arrives is written to
one end of a BIO pair, and what OpenSSL leaves at that end is handed to the writer.
The callbacks are the ones that `uvnet` registers.

OpenSSL is a parameter: `Ssl` are the functions that the adapter calls.  What they
are relied on for is in `BioPair`.
-/

namespace OCServer.Tls

/-- Why a call does not return. -/
inductive Stop
  | assertion
  | outOfBounds
  | outOfFuel
  deriving DecidableEq, Repr

/-- The functions of OpenSSL, on the `SSL` object with both ends of its BIO pair. -/
structure Ssl (σ : Type) where
  SSL_do_handshake : σ → Int × σ
  SSL_read : σ → Int × List UInt8 × σ
  SSL_write : σ → List UInt8 → Int × σ
  SSL_shutdown : σ → Int × σ
  SSL_is_init_finished : σ → Bool
  BIO_pending : σ → Nat
  BIO_read : σ → Nat → Int × List UInt8 × σ
  BIO_write : σ → List UInt8 → Int × σ

/-- `evt_tls_t`, with the callbacks that may not have been set yet. -/
structure EvtTls (σ : Type) where
  ssl : σ
  readCb : Bool
  closeCb : Bool

/-- What a call does outside of the connection. -/
inductive Output
  /-- `hshake_cb` has been called. -/
  | handshake (status : Int)
  /-- Bytes that the writer hands to `sendinl`. -/
  | wire (bytes : List UInt8)
  /-- Bytes that `sendMsg` hands to `sendinl`. -/
  | reply (bytes : List UInt8)
  /-- Bytes for `recvdata`. -/
  | plain (bytes : List UInt8)
  /-- `write_cb` has been called. -/
  | wrote (status : Int)
  /-- `uv_close` has been called. -/
  | closed
  deriving DecidableEq, Repr

/-- The result of a call, the connection after it, and what it has done. -/
structure Done (σ : Type) where
  ret : Int
  conn : EvtTls σ
  out : List Output

inductive TlsOp
  | handshake
  | read
  | write (buf : List UInt8)
  | shutdown
  deriving DecidableEq, Repr

section

variable {σ : Type} (ssl : Ssl σ)

/-- `evt__send_pending`, with `uv_tls_writer` for the writer. -/
def evt_send_pending (s : σ) : Except Stop (σ × List Output) :=
  let pending := ssl.BIO_pending s
  if ¬0 < pending then .ok (s, [])
  else
    let p := ssl.BIO_read s pending
    if p.1 = pending then .ok (p.2.2, [.wire p.2.1]) else .error .assertion

/-- `EVT_TLS_OP_SHUTDOWN`, with `Close_tls` for the callback. -/
def opShutdown (c : EvtTls σ) : Except Stop (Done σ) := do
  let r := ssl.SSL_shutdown c.ssl
  let (s, out) ← evt_send_pending ssl r.2
  pure ⟨r.1, { c with ssl := s }, out ++ if c.closeCb then [.closed] else []⟩

/-- `handle_shutdown`. -/
def handleShutdown (c : EvtTls σ) : Except Stop (Done σ) := do
  let r := ssl.SSL_shutdown c.ssl
  let (s, out) ← evt_send_pending ssl r.2
  pure ⟨r.1, { c with ssl := s }, out ++ if r.1 = 1 ∧ c.closeCb then [.closed] else []⟩

/-- `evt_tls_close( tls, Close_tls )`. -/
def evt_tls_close (c : EvtTls σ) : Except Stop (Done σ) :=
  opShutdown ssl { c with closeCb := true }

/-- `on_hd_complete`. -/
def on_hd_complete (c : EvtTls σ) (status : Int) : Except Stop (EvtTls σ × List Output) :=
  if status = 1 then .ok ({ c with readCb := true }, [])
  else do
    let done ← evt_tls_close ssl c
    pure (done.conn, done.out)

/-- `EVT_TLS_OP_HANDSHAKE`. -/
def opHandshake (c : EvtTls σ) : Except Stop (Done σ) := do
  let r := ssl.SSL_do_handshake c.ssl
  let (s, out) ← evt_send_pending ssl r.2
  let c := { c with ssl := s }
  if r.1 = 1 ∨ r.1 = 0 then
    let (c, more) ← on_hd_complete ssl c r.1
    pure ⟨r.1, c, out ++ .handshake r.1 :: more⟩
  else pure ⟨r.1, c, out⟩

/-- `EVT_TLS_OP_READ`.  `uv_rd_cb` does nothing when it is told of an error, so that a read
that failed only sends what is pending. -/
def opRead (c : EvtTls σ) : Except Stop (Done σ) :=
  let r := ssl.SSL_read c.ssl
  let c := { c with ssl := r.2.2 }
  if r.1 = 0 then handleShutdown ssl c
  else if 0 < r.1 then .ok ⟨r.1, c, if c.readCb then [.plain (r.2.1.take r.1.toNat)] else []⟩
  else do
    let (s, out) ← evt_send_pending ssl c.ssl
    pure ⟨r.1, { c with ssl := s }, out⟩

/-- `EVT_TLS_OP_WRITE`. -/
def opWrite (c : EvtTls σ) (buf : List UInt8) : Except Stop (Done σ) :=
  if buf.length = 0 then .error .assertion
  else
    let r := ssl.SSL_write c.ssl buf
    let c := { c with ssl := r.2 }
    if r.1 = 0 then handleShutdown ssl c
    else do
      let (s, out) ← evt_send_pending ssl c.ssl
      pure ⟨r.1, { c with ssl := s }, out ++ if 0 < r.1 then [.wrote r.1] else []⟩

/-- `evt__tls__op`. -/
def evt_tls_op (c : EvtTls σ) : TlsOp → Except Stop (Done σ)
  | .handshake => opHandshake ssl c
  | .read => opRead ssl c
  | .write buf => opWrite ssl c buf
  | .shutdown => opShutdown ssl c

/-- The loop of `evt_tls_feed_data`, with the results of its `BIO_write`s.  A result that is
not positive takes `offset` back, and a negative one is in front of the data. -/
def feedLoop (data : List UInt8) : Nat → Int → Int → EvtTls σ → Except Stop (Done σ × List Int)
  | 0, _, _, _ => .error .outOfFuel
  | fuel + 1, offset, rv, c =>
    if ¬offset < data.length then .ok (⟨rv, c, []⟩, [])
    else if offset < 0 then .error .outOfBounds
    else do
      let i := ssl.BIO_write c.ssl (data.drop offset.toNat)
      let c := { c with ssl := i.2 }
      let done ← evt_tls_op ssl c (if ssl.SSL_is_init_finished c.ssl then .read else .handshake)
      let (rest, is) ← feedLoop data fuel (offset + i.1) done.ret done.conn
      pure ({ rest with out := done.out ++ rest.out }, i.1 :: is)

/-- `evt_tls_feed_data`. -/
def evt_tls_feed_data (fuel : Nat) (c : EvtTls σ) (data : List UInt8) :
    Except Stop (Done σ × List Int) :=
  if data.length = 0 then .error .assertion else feedLoop ssl data fuel 0 0 c

/-- What happens to a connection. -/
inductive ConnEvent
  /-- `read_header` has got bytes. -/
  | data (bytes : List UInt8)
  /-- `read_header` has got an error or the end of the stream. -/
  | eof
  /-- `uv_tls_write`. -/
  | write (buf : List UInt8)
  /-- `sendMsg`: it hands its bytes to `sendinl` as they are. -/
  | sendMsg (netBuffer : List UInt8)
  deriving DecidableEq, Repr

/-- `evt_tls_accept` on a new connection. -/
def evt_tls_accept (s : σ) : EvtTls σ := ⟨s, false, false⟩

/-- One event. -/
def connStep (fuel : Nat) (c : EvtTls σ) : ConnEvent → Except Stop (EvtTls σ × List Output)
  | .data bytes =>
    if bytes.length = 0 then .ok (c, [])
    else do
      let (done, _) ← evt_tls_feed_data ssl fuel c bytes
      pure (done.conn, done.out)
  | .eof => do
    let done ← evt_tls_close ssl c
    pure (done.conn, done.out)
  | .write buf => do
    let done ← evt_tls_op ssl c (.write buf)
    pure (done.conn, done.out)
  | .sendMsg netBuffer =>
    .ok (c, if netBuffer.length = 0 then [] else [.reply netBuffer])

/-- The events of a connection, one after the other. -/
abbrev connRun (fuel : Nat) : EvtTls σ → List ConnEvent → Except Stop (EvtTls σ × List Output) :=
  Incremental.feedAll (connStep ssl fuel)

end

end OCServer.Tls
