import OCServer.NetBase
import OCServer.Proto.CppIn

/-!
# `GameTCPProtocol`

The functions of `src/src/gameproto.cpp` that turn the payload of a packet
into a `FromMsg`: `bufFromMsg` reads the four fields of the message header
through `ProtoIn`, and `ParsePacket` posts the message or drops it.  The
payload is read through a `membuf`, which cannot seek.

`ProtoError` is the one exception that `bufFromMsg` catches, so an outcome
here is an `Except` whose error leaves `ParsePacket` as well.
-/

namespace OCServer.GameProto

open Cpp

/-- `HashMap`. -/
abbrev HashMap := List (List UInt8 × List UInt8)

/-- `FromMsg`.  `client` stands for the reference to the `ClientConnS`. -/
structure FromMsg where
  attributes : HashMap := []
  errorMsg : List UInt8 := []
  fromVersion : UInt8 := 1
  msgCookie : BitVec 32 := 0
  resultCode : BitVec 32 := 1000
  serviceCmd : List UInt8 := []
  packSeq : BitVec 32 := -1
  uin : List UInt8 := []
  netBuffer : List UInt8 := []
  packetType : UInt8 := 0
  client : Nat
  deriving DecidableEq, Repr

/-- `membuf`, as the stream that reads it. -/
def membuf (buf : List UInt8) (junk : Nat → UInt8) : IStream where
  data := buf
  pos := 0
  fail := false
  seekable := false
  junk := junk

/-- The fields that `bufFromMsg` reads. -/
structure Header where
  UID : BitVec 32
  cmd : List UInt8
  packSeq : BitVec 32
  attrib : HashMap
  deriving DecidableEq, Repr

section

variable [FloatOps]

/-- The body of the `try` block of `bufFromMsg`. -/
def readHeader : CppIn Header := do
  let (UID, _) ← readUInt
  let (cmd, _) ← readString
  let (packSeq, _) ← readUInt
  let (attrib, _) ← readMap readString readString
  pure ⟨UID, cmd, packSeq, attrib⟩

/-- The end of `bufFromMsg`: what a header puts into the message. -/
def FromMsg.withHeader (msg : FromMsg) (h : Header) : FromMsg :=
  { msg with
    uin := decimal h.UID.toNat
    serviceCmd := h.cmd
    packSeq := h.packSeq
    attributes := h.attrib }

/-- `bufFromMsg`: the answer and the message. -/
def bufFromMsg (packet : NetPacket) (buf : List UInt8) (msg : FromMsg) (junk : Nat → UInt8) :
    Except CppExc (Bool × FromMsg) :=
  match readHeader (membuf (buf.take packet.datalen.toNat) junk) with
  | .ok h _ => .ok (true, msg.withHeader h)
  | .error (.protoError _) _ => .ok (false, msg)
  | .error e _ => .error e

/-- `ParsePacket`: the queue of `msgq` afterwards. -/
def parsePacket (client : Nat) (packet : NetPacket) (buf : List UInt8) (qfmsg : List FromMsg)
    (junk : Nat → UInt8) : Except CppExc (List FromMsg) := do
  let m : FromMsg :=
    { client := client
      fromVersion := packet.version
      packetType := packet.type
      netBuffer := buf.take packet.datalen.toNat }
  let (packOk, m) ← bufFromMsg packet buf m junk
  pure (if packOk then qfmsg ++ [m] else qfmsg)

end

end OCServer.GameProto
