import OCServer.Lib.MachineInt
import OCServer.Lib.Block
import OCServer.Lib.Loop
import OCServer.Lib.Incremental
import OCServer.NetBase

/-!
# The packet framer

A model of the class `PacketSync` of `src/src/PacketSync.cpp`.  One
connection owns one framer.  `recvdata` takes the bytes of one read and
calls the packet callback for every frame that is complete.

The loop of `recvdata` is a small-step machine.  `Pc` names its four
points: the loop test, the copy of the payload, the test of the tail byte,
and the return.  `step` runs the code from one point to the next, so that a
statement about every reachable state also covers the states inside one
iteration.

Memory is explicit.  The two buffers are `Block`s, and every `memcpy`,
`memmove`, `memchr` and index goes through an access of `Block` or `Chunk`
that fails when it leaves its buffer.  Arithmetic on `size_t` and the casts
to `int` wrap as in `MachineInt`; arithmetic on `uint32_t` is that of
`UInt32`.  The log lines of the source have no effect on this state and are
left out.
-/

namespace OCServer

open MachineInt

/-- `BUFFER_SIZE`. -/
abbrev bufferSize : Nat := 1024 * 10

/-- The argument of `recvdata`: a pointer and a length.  No object of the
platform is larger than `PTRDIFF_MAX`, and the callers pass a length that
comes from a `ssize_t` or an `int`. -/
structure Chunk where
  bytes : List UInt8
  size_lt : bytes.length < 2 ^ 63
  deriving DecidableEq

namespace Chunk

/-- The `len` of the chunk. -/
abbrev len (data : Chunk) : Nat := data.bytes.length

/-- Reads `n` bytes at `data + off`. -/
def read (data : Chunk) (off n : Nat) : Except Fault (List UInt8) :=
  if off + n ≤ data.len then .ok ((data.bytes.drop off).take n)
  else .error .outOfBounds

theorem len_lt (data : Chunk) : data.len < 2 ^ 63 := data.size_lt

theorem read_eq {data : Chunk} {off n : Nat} (h : off + n ≤ data.len) :
    data.read off n = .ok ((data.bytes.drop off).take n) := if_pos h

end Chunk

/-- `parsetype`. -/
inductive ParseType
  | head
  | nothing
  deriving DecidableEq, Repr

/-- The fields of `PacketSync`.  `packetCb` is the callback, given by its
user data. -/
structure PacketSync where
  packetCb : Option Nat
  parsetype : ParseType
  getdatalen : Nat
  threadReaddata : Block
  threadPacketdata : Block
  truepacketlen : Nat
  headpos : Nat
  head : UInt8
  tail : UInt8
  theNexPacket : NetPacket
  deriving DecidableEq

/-- One call of the packet callback: its user data, the header, and the
`datalen` bytes that the data pointer shows. -/
structure Delivery where
  userdata : Nat
  packet : NetPacket
  data : List UInt8
  deriving DecidableEq, Repr

/-- Where `recvdata` is. -/
inductive Pc
  | loopTest
  | payload
  | tailTest
  | done
  deriving DecidableEq, Repr

/-- The state of one call of `recvdata`: the framer, the chunk, how much of
the chunk is read, and the calls of the callback so far. -/
structure Recv where
  pc : Pc
  ps : PacketSync
  data : Chunk
  iret : Nat
  out : List Delivery
  deriving DecidableEq

namespace PacketSync

/-- `PacketSync::PacketSync`.  The constructor does not set `theNexPacket`,
so it keeps whatever the memory held. -/
def new (uninit : NetPacket) : PacketSync where
  packetCb := none
  parsetype := .nothing
  getdatalen := 0
  threadReaddata := Block.malloc bufferSize
  threadPacketdata := Block.malloc bufferSize
  truepacketlen := 0
  headpos := 2 ^ 64 - 1
  head := 0x0C
  tail := 0xEA
  theNexPacket := uninit

/-- `PacketSync::SetHaT`. -/
def setHaT (ps : PacketSync) (packhead packtail : UInt8) : PacketSync :=
  { ps with head := packhead, tail := packtail }

/-- `PacketSync::SetPacketCB`. -/
def setPacketCB (ps : PacketSync) (userdata : Nat) : PacketSync :=
  { ps with packetCb := some userdata }

/-- `PacketSync::PacketData`. -/
def packetData (packet : NetPacket) (data : List UInt8) : List UInt8 :=
  [packet.header] ++ netPacketToChar packet ++
    data.take packet.datalen.toNat ++ [packet.tail]

/-- `truepacketlen - headpos - 1 - NET_PACKAGE_HEADLEN`. -/
def buffered (ps : PacketSync) : Nat :=
  szSub (szSub (szSub ps.truepacketlen ps.headpos) 1) headLen

/-- `theNexPacket.datalen + 1`, computed in `uint32_t`. -/
def need (ps : PacketSync) : Nat := (ps.theNexPacket.datalen + 1).toNat

end PacketSync

namespace Recv

/-- `len - iret`. -/
def remaining (r : Recv) : Nat := szSub r.data.len r.iret

/-- The copy at the start of the branch `PARSE_NOTHING`: the rest of the
chunk goes to the read buffer, or as much of it as the buffer takes. -/
def fill (r : Recv) : Except Fault Recv := do
  let ps := r.ps
  let room := szSub ps.threadReaddata.len ps.truepacketlen
  if r.remaining ≤ room then
    let src ← r.data.read r.iret r.remaining
    let buf ← ps.threadReaddata.write ps.truepacketlen src
    pure { r with
      ps := { ps with
        threadReaddata := buf
        truepacketlen := szAdd ps.truepacketlen r.remaining }
      iret := r.data.len }
  else
    let src ← r.data.read r.iret room
    let buf ← ps.threadReaddata.write ps.truepacketlen src
    pure { r with
      ps := { ps with
        threadReaddata := buf, truepacketlen := ps.threadReaddata.len }
      iret := szAdd r.iret room }

/-- A header has been accepted: make room for the payload and the tail
byte, and take what the read buffer already holds of them. -/
def acceptHead (r : Recv) : Except Fault Recv := do
  let ps := r.ps
  let datalen := ps.theNexPacket.datalen
  let buf :=
    if ps.threadPacketdata.len < szAdd datalen.toNat 1 then
      ps.threadPacketdata.realloc ps.need
    else ps.threadPacketdata
  let getdatalen := intToSize (min (toInt ps.buffered) (toInt ps.need))
  if 0 < getdatalen then
    let src ← ps.threadReaddata.read (szAdd (szAdd ps.headpos 1) headLen) getdatalen
    let buf ← buf.write 0 src
    pure { r with
      pc := .payload
      ps := { ps with
        parsetype := .head, threadPacketdata := buf, getdatalen := getdatalen } }
  else
    pure { r with
      pc := .payload
      ps := { ps with
        parsetype := .head, threadPacketdata := buf, getdatalen := getdatalen } }

/-- The branch `PARSE_NOTHING` after the copy: look for the head byte, and
look at the eight bytes that follow it. -/
def findHead (r : Recv) : Except Fault Recv := do
  let ps := r.ps
  match ← ps.threadReaddata.memchr ps.head ps.truepacketlen with
  | none => pure { r with ps := { ps with truepacketlen := 0 } }
  | some headpos =>
    let ps := { ps with headpos := headpos }
    if szSub (szSub ps.truepacketlen headpos) 1 < headLen then
      if headpos ≠ 0 then
        let buf ← ps.threadReaddata.memmove headpos (szSub ps.truepacketlen headpos)
        pure { r with
          ps := { ps with
            threadReaddata := buf
            truepacketlen := szSub ps.truepacketlen headpos } }
      else pure { r with ps := ps }
    else
      let bytes ← ps.threadReaddata.read (szAdd headpos 1) headLen
      let ps := { ps with theNexPacket := charToNetPacket bytes }
      if ps.theNexPacket.header ≠ ps.head ∨ ps.theNexPacket.tail ≠ ps.tail then
        let buf ← ps.threadReaddata.memmove (szAdd headpos 1)
          (szSub (szSub ps.truepacketlen headpos) 1)
        pure { r with
          ps := { ps with
            threadReaddata := buf
            truepacketlen := szSub ps.truepacketlen (szAdd headpos 1) } }
      else acceptHead { r with ps := ps }

/-- The branch `PARSE_NOTHING`. -/
def parseNothing (r : Recv) : Except Fault Recv := do
  let r ← r.fill
  r.findHead

/-- The copy of the payload and the tail byte from the chunk.  `return`
when the chunk ends first. -/
def takePayload (r : Recv) : Except Fault Recv := do
  let ps := r.ps
  if ps.getdatalen < ps.need then
    if szAdd ps.getdatalen r.remaining < ps.need then
      let src ← r.data.read r.iret r.remaining
      let buf ← ps.threadPacketdata.write ps.getdatalen src
      pure { r with
        pc := .done
        ps := { ps with
          threadPacketdata := buf, getdatalen := szAdd ps.getdatalen r.remaining }
        iret := r.data.len }
    else
      let missing := szSub ps.need ps.getdatalen
      let src ← r.data.read r.iret missing
      let buf ← ps.threadPacketdata.write ps.getdatalen src
      pure { r with
        pc := .tailTest
        ps := { ps with threadPacketdata := buf, getdatalen := ps.need }
        iret := szAdd r.iret missing }
  else pure { r with pc := .tailTest }

/-- The tail byte is wrong: give back every byte after the head byte, and
search them again.  They are still in the read buffer when the whole frame
was; otherwise the header and the packet buffer are put together again. -/
def rejectTail (r : Recv) : Except Fault Recv := do
  let ps := r.ps
  if ps.need ≤ ps.buffered then
    let buf ← ps.threadReaddata.memmove (szAdd ps.headpos 1)
      (szSub (szSub ps.truepacketlen ps.headpos) 1)
    pure { r with
      pc := .loopTest
      ps := { ps with
        threadReaddata := buf
        truepacketlen := szSub ps.truepacketlen (szAdd ps.headpos 1)
        parsetype := .nothing } }
  else
    let size := szAdd (szAdd headLen ps.theNexPacket.datalen.toNat) 1
    let buf :=
      if ps.threadReaddata.len < size then ps.threadReaddata.realloc size
      else ps.threadReaddata
    let buf ← buf.memmove (szAdd ps.headpos 1) headLen
    let src ← ps.threadPacketdata.read 0 ps.need
    let buf ← buf.write headLen src
    pure { r with
      pc := .loopTest
      ps := { ps with
        threadReaddata := buf
        truepacketlen := szAdd headLen ps.need
        parsetype := .nothing } }

/-- Drops a complete frame from the read buffer. -/
def dropFrame (ps : PacketSync) : Except Fault PacketSync := do
  let next := szAdd (szAdd (szAdd ps.headpos headLen) ps.theNexPacket.datalen.toNat) 2
  if ps.need ≤ ps.buffered then
    let buf ← ps.threadReaddata.memmove next (szSub ps.truepacketlen next)
    pure { ps with threadReaddata := buf, truepacketlen := szSub ps.truepacketlen next }
  else pure { ps with truepacketlen := 0 }

/-- Calls the callback, if there is one. -/
def callPacketCb (ps : PacketSync) (out : List Delivery) :
    Except Fault (List Delivery) := do
  match ps.packetCb with
  | none => pure out
  | some userdata =>
    let data ← ps.threadPacketdata.read 0 ps.theNexPacket.datalen.toNat
    pure (out ++ [{ userdata, packet := ps.theNexPacket, data }])

/-- The tail byte is right. -/
def deliver (r : Recv) : Except Fault Recv := do
  let ps ← dropFrame r.ps
  let out ← callPacketCb ps r.out
  pure { r with pc := .loopTest, ps := { ps with parsetype := .nothing }, out := out }

/-- One step of the loop of `recvdata`. -/
def step (r : Recv) : Except Fault Recv :=
  match r.pc with
  | .loopTest =>
    if r.iret < r.data.len ∨ headLen + 2 ≤ r.ps.truepacketlen then
      match r.ps.parsetype with
      | .nothing => r.parseNothing
      | .head => .ok { r with pc := .payload }
    else .ok { r with pc := .done }
  | .payload => r.takePayload
  | .tailTest => do
    let c ← r.ps.threadPacketdata.get r.ps.theNexPacket.datalen.toNat
    if c ≠ r.ps.tail then r.rejectTail else r.deliver
  | .done => .ok r

/-- The state in which `recvdata` starts. -/
def enter (ps : PacketSync) (data : Chunk) : Recv where
  pc := .loopTest
  ps := ps
  data := data
  iret := 0
  out := []

end Recv

namespace PacketSync

/-- How many steps `recvdata` may take.  `Recv.step_done` shows that the
loop ends before they are used up. -/
def fuel (ps : PacketSync) (data : Chunk) : Nat :=
  4 * (ps.truepacketlen + ps.getdatalen + 2 * data.len) + 3

/-- `PacketSync::recvdata`: the framer after the call, and the calls of the
callback in order. -/
def recvdata (ps : PacketSync) (data : Chunk) :
    Except Fault (PacketSync × List Delivery) := do
  let r ← Loop.iterate Recv.step (ps.fuel data) (Recv.enter ps data)
  if r.pc = .done then pure (r.ps, r.out) else throw .outOfFuel

/-- `recvdata` on one chunk after the other. -/
def recvAll (ps : PacketSync) (chunks : List Chunk) :
    Except Fault (PacketSync × List Delivery) :=
  Incremental.feedAll recvdata ps chunks

end PacketSync

end OCServer
