import Mathlib.Logic.Function.Basic
import OCServer.Lib.Machine
import OCServer.PacketSync.Model

/-!
# The connections of the server

A model of the class `uvnet` and of `ClientConnS` (`src/src/uv_net.cpp`):
what happens to a connection context from its allocation to its release.

A context is known by the number of the `malloc` call that returned it, and
`Uvnet.ctx` is the memory of all contexts.  A release is recorded, and it is
not defined what the process does when a released context is used: a
callback that takes one from `client_list` is not taken, and none is once a
context has been released twice (`Stop.usedAfterRelease`).  `malloc` never
returns a released context again.  Memory that has not been allocated holds
anything; `AllocTcpClientCtx` leaves the fields it does not set as they are.

libuv drives the server.  `NetEvent` lists its callbacks, `step` runs one
of them, and `Stop.notEnabled` says that libuv makes no such callback in
this state: it reads only from a handle that has been started and is not
closing, and it runs the close callback of a closing handle, once.  What
the TLS endpoint does with the bytes of a connection is not modelled:
`recv` is a call of `PacketSync::recvdata`, with the bytes that
`read_header` or `uv_rd_cb` hands to it, and `readError` is a call of
`ClientConnS::Close`, from `read_header` at the end of the connection or
from `on_hd_complete` after a failed handshake.
-/

namespace OCServer

open MachineInt

/-- Why a step is not taken. -/
inductive Stop
  | notEnabled
  | signedOverflow
  | usedAfterRelease
  | fault (f : Fault)
  deriving DecidableEq, Repr

/-- The callbacks that `uvnet` gives to `uv_close`. -/
inductive CloseCb
  | recycleTcpHandle
  | afterClientClose
  deriving DecidableEq, Repr

/-- What libuv knows about a `uv_tcp_t`.  `closed` is also a handle that it
does not know yet. -/
inductive TcpHandle
  | closed
  | initialized
  | reading
  | closing (cb : CloseCb)
  deriving DecidableEq, Repr

/-- The fields of `ClientConnS` that the model uses.  `closedcb` says that
`SetClosedCB` has stored `SubClientClosed`. -/
structure ClientConnS where
  needTls : Bool
  clientid : Nat
  tcphandle : TcpHandle
  tls : Nat
  packet : PacketSync
  closedcb : Bool

/-- The fields of `uvnet`.  `mallocs` and `endpoints` count the contexts and
the TLS endpoints that have been allocated; `released` and `tlsFreed` list
those that have been released, in order. -/
structure Uvnet where
  needTls : Bool
  sId : Nat
  clientList : List Nat
  clientMap : Int → Option Nat
  ctx : Nat → ClientConnS
  mallocs : Nat
  endpoints : Nat
  released : List Nat
  tlsFreed : List Nat

/-- What libuv answers while a connection is accepted: the status of the
callback, and what `uv_tcp_init`, `uv_accept` and `uv_read_start` return. -/
structure Answers where
  status : Int
  tcpInit : Int
  accept : Int
  readStart : Int
  deriving DecidableEq, Repr

/-- The callbacks of libuv. -/
inductive NetEvent
  | newConnection (answers : Answers) (uninit : NetPacket)
  | recv (client : Nat) (data : Chunk)
  | readError (client : Nat)
  | closed (client : Nat)

namespace Uvnet

/-- `backlog`. -/
abbrev backlog : Nat := 256

/-- No context has been released twice. -/
def Intact (s : Uvnet) : Prop := s.released.Nodup

instance (s : Uvnet) : Decidable s.Intact := inferInstanceAs (Decidable s.released.Nodup)

/-- The server after its construction, over memory that holds `mem`. -/
def start (needTls : Bool) (mem : Nat → ClientConnS) : Uvnet where
  needTls := needTls
  sId := 0
  clientList := []
  clientMap := fun _ => none
  ctx := fun c => { mem c with tcphandle := .closed }
  mallocs := 0
  endpoints := 0
  released := []
  tlsFreed := []

/-- Writes to one context. -/
def modify (s : Uvnet) (c : Nat) (f : ClientConnS → ClientConnS) : Uvnet :=
  { s with ctx := Function.update s.ctx c (f (s.ctx c)) }

/-- `client_list.push_back`. -/
def pushBack (s : Uvnet) (c : Nat) : Uvnet :=
  { s with clientList := s.clientList ++ [c] }

/-- `delete` or `free` of a context. -/
def release (s : Uvnet) (c : Nat) : Uvnet :=
  { s with released := s.released ++ [c] }

/-- `AllocTcpClientCtx`. -/
def allocTcpClientCtx (s : Uvnet) (uninit : NetPacket) : Nat × Uvnet :=
  let c := s.mallocs
  let s := s.modify c fun conn =>
    { conn with needTls := s.needTls, packet := PacketSync.new uninit }
  let s := { s with mallocs := s.mallocs + 1 }
  if s.needTls then
    (c, { s.modify c fun conn => { conn with tls := s.endpoints } with
      endpoints := s.endpoints + 1 })
  else (c, s)

/-- `FreeTcpClientCtx`. -/
def freeTcpClientCtx (s : Uvnet) (c : Nat) : Uvnet := s.release c

/-- `GetAvailaClientID`.  `s_id` is an `int`, and it is not defined what
happens when it overflows. -/
def getAvailaClientID (s : Uvnet) : Except Stop (Nat × Uvnet) :=
  if s.sId + 1 < 2 ^ 31 then .ok (s.sId + 1, { s with sId := s.sId + 1 })
  else .error .signedOverflow

/-- `uv_close`. -/
def uvClose (s : Uvnet) (c : Nat) (cb : CloseCb) : Uvnet :=
  s.modify c fun conn => { conn with tcphandle := .closing cb }

/-- `client_map.insert`, which does not replace an entry. -/
def mapInsert (s : Uvnet) (clientid c : Nat) : Uvnet :=
  match s.clientMap (toInt clientid) with
  | some _ => s
  | none => { s with clientMap := Function.update s.clientMap (toInt clientid) (some c) }

/-- The context that `takeClientCtx` takes. -/
def nextClientCtx (s : Uvnet) : Nat := s.clientList.headD s.mallocs

/-- The first context of `client_list`, or a new one. -/
def takeClientCtx (s : Uvnet) (uninit : NetPacket) : Except Stop (Nat × Uvnet) :=
  match s.clientList with
  | [] => .ok (s.allocTcpClientCtx uninit)
  | c :: rest =>
    if c ∈ s.released then .error .usedAfterRelease
    else .ok (c, { s with clientList := rest })

/-- `on_new_connection`. -/
def onNewConnection (s : Uvnet) (answers : Answers) (uninit : NetPacket) :
    Except Stop Uvnet :=
  if answers.status < 0 then .ok s
  else do
    let (c, s) ← s.takeClientCtx uninit
    if answers.tcpInit ≠ 0 then .ok (s.pushBack c)
    else
      let (clientid, s) ← s.getAvailaClientID
      let s := s.modify c fun conn =>
        { conn with tcphandle := .initialized, clientid := clientid, closedcb := true }
      if answers.accept ≠ 0 then .ok (s.uvClose c .recycleTcpHandle)
      else
        let s := s.modify c fun conn => { conn with packet := conn.packet.setPacketCB c }
        if answers.readStart ≠ 0 then .ok (s.uvClose c .recycleTcpHandle)
        else
          let s := s.modify c fun conn => { conn with tcphandle := .reading }
          .ok (s.mapInsert clientid c)

/-- `RecycleTcpHandle`. -/
def recycleTcpHandle (s : Uvnet) (c : Nat) : Uvnet :=
  if s.clientList.length > backlog then s.freeTcpClientCtx c else s.pushBack c

/-- `SubClientClosed`. -/
def subClientClosed (s : Uvnet) (c : Nat) : Uvnet :=
  let key := toInt (s.ctx c).clientid
  match s.clientMap key with
  | none => s
  | some found =>
    let s :=
      if s.clientList.length > backlog then s.freeTcpClientCtx c else s.pushBack c
    let s := s.release found
    { s with clientMap := Function.update s.clientMap key none }

/-- `AfterClientClose`, which calls `evt_tls_free` before the close
callback. -/
def afterClientClose (s : Uvnet) (c : Nat) : Uvnet :=
  let s :=
    if (s.ctx c).needTls then { s with tlsFreed := s.tlsFreed ++ [(s.ctx c).tls] } else s
  if (s.ctx c).closedcb then s.subClientClosed c else s

/-- A call of `recvdata` of the framer of a context. -/
def recvdata (s : Uvnet) (c : Nat) (data : Chunk) : Except Stop (Uvnet × List Delivery) :=
  match (s.ctx c).packet.recvdata data with
  | .error f => .error (.fault f)
  | .ok (ps, out) => .ok (s.modify c fun conn => { conn with packet := ps }, out)

/-- `ClientConnS::Close`.  With TLS the close goes through `evt_tls_close`,
which calls `Close_tls` before it returns. -/
def close (s : Uvnet) (c : Nat) : Uvnet := s.uvClose c .afterClientClose

/-- What a callback of libuv does, with the calls of the packet callback. -/
def callback (s : Uvnet) : NetEvent → Except Stop (Uvnet × List Delivery)
  | .newConnection answers uninit =>
    match s.onNewConnection answers uninit with
    | .error e => .error e
    | .ok s => .ok (s, [])
  | .recv c data =>
    if (s.ctx c).tcphandle = .reading then s.recvdata c data else .error .notEnabled
  | .readError c =>
    if (s.ctx c).tcphandle = .reading then .ok (s.close c, []) else .error .notEnabled
  | .closed c =>
    match (s.ctx c).tcphandle with
    | .closing cb =>
      let s := s.modify c fun conn => { conn with tcphandle := .closed }
      match cb with
      | .recycleTcpHandle => .ok (s.recycleTcpHandle c, [])
      | .afterClientClose => .ok (s.afterClientClose c, [])
    | _ => .error .notEnabled

/-- One callback of libuv. -/
def step (s : Uvnet) (e : NetEvent) : Except Stop (Uvnet × List Delivery) :=
  if s.Intact then s.callback e else .error .usedAfterRelease

/-- The context that a successful accept hands out in this state. -/
def handsOut (s : Uvnet) : NetEvent → Option Nat
  | .newConnection answers _ =>
    if 0 ≤ answers.status ∧ answers.tcpInit = 0 ∧ answers.accept = 0 ∧
        answers.readStart = 0 then
      some s.nextClientCtx
    else none
  | _ => none

/-- A sequence of callbacks. -/
abbrev run : Uvnet → List NetEvent → Except Stop (Uvnet × List Delivery) :=
  Incremental.feedAll step

end Uvnet

end OCServer
