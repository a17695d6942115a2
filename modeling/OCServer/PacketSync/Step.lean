import Mathlib.Data.List.TakeWhile
import OCServer.PacketSync.Scan

/-!
# One step of the framer

The bytes of a connection that the framer has taken but not yet decided lie
in up to three places: in front of the payload in the read buffer, in the
packet buffer, and behind the frame in the read buffer.  `pending` puts
them back in order, and `Recv.stream` adds the unread part of the chunk.

`Recv.Inv` is the invariant of the machine.  `step_ok` says everything that
one step does under it: the step does not fail, it keeps the invariant, the
stream advances as the reference scanner advances, the callback gets the
frames that this decides, and the measure goes down.  The lemmas before it
give one function of the model each.
-/

namespace OCServer

open MachineInt Loop

/-- The calls of the callback for some events. -/
def deliveries (cb : Option Nat) (evs : List ScanEvent) : List Delivery :=
  match cb with
  | none => []
  | some userdata =>
    (frames evs).map fun f => { userdata, packet := f.1, data := f.2 }

@[simp] theorem deliveries_nil (cb : Option Nat) : deliveries cb [] = [] := by
  cases cb <;> rfl

@[simp] theorem deliveries_reject (cb : Option Nat) (p : NetPacket) :
    deliveries cb [.reject p] = [] := by
  cases cb <;> rfl

theorem deliveries_append (cb : Option Nat) (a b : List ScanEvent) :
    deliveries cb (a ++ b) = deliveries cb a ++ deliveries cb b := by
  cases cb with
  | none => rfl
  | some u => simp [deliveries]

namespace PacketSync

/-! ## The invariant -/

/-- The bytes of the read buffer that count. -/
def readBytes (ps : PacketSync) : List UInt8 :=
  ps.threadReaddata.init.take ps.truepacketlen

/-- The bytes of the payload and the tail that have been copied. -/
def gotBytes (ps : PacketSync) : List UInt8 :=
  ps.threadPacketdata.init.take ps.getdatalen

/-- The bytes that have been taken from the connection and are not decided. -/
def pending (ps : PacketSync) : List UInt8 :=
  match ps.parsetype with
  | .nothing => ps.readBytes
  | .head =>
    ps.readBytes.take (ps.headpos + 1 + headLen) ++ ps.gotBytes ++
      ps.readBytes.drop (ps.headpos + 1 + headLen + ps.getdatalen)

theorem pending_of_nothing {ps : PacketSync} (hp : ps.parsetype = .nothing) :
    ps.pending = ps.readBytes := by
  rw [pending, hp]

/-- The read buffer is at least as large as it was at the start, at most as
large as a rejected frame made it, and filled up to `truepacketlen`.  The
packet buffer is at most as large as an accepted header made it. -/
structure Shape (ps : PacketSync) : Prop where
  read_lo : bufferSize ≤ ps.threadReaddata.len
  read_hi : ps.threadReaddata.len ≤ 2 ^ 31 + 7
  true_le : ps.truepacketlen ≤ ps.threadReaddata.init.length
  packet_hi : ps.threadPacketdata.len ≤ 2 ^ 31

/-- The read buffer holds the noise `n`, the head byte, a header `hd` that
is accepted, and the part `body` that follows. -/
structure Headed (ps : PacketSync) (n hd body : List UInt8) : Prop where
  read_eq : ps.readBytes = n ++ ps.head :: (hd ++ body)
  headpos_eq : ps.headpos = n.length
  noise : ps.head ∉ n
  hd_length : hd.length = headLen
  packet_eq : charToNetPacket hd = ps.theNexPacket
  accepts : Accepts ps.head ps.tail ps.theNexPacket

/-- The payload and the tail byte are being copied.  Either `body` starts
with all that has been copied, or what has been copied starts with
`body`. -/
structure InFrame (ps : PacketSync) (n hd body : List UInt8) : Prop
    extends Headed ps n hd body where
  small : ps.theNexPacket.datalen.toNat < 2 ^ 31 - 1
  got_le : ps.getdatalen ≤ ps.theNexPacket.datalen.toNat + 1
  room : ps.theNexPacket.datalen.toNat + 1 ≤ ps.threadPacketdata.len
  got_init : ps.getdatalen ≤ ps.threadPacketdata.init.length
  split :
    (∃ more, body = ps.gotBytes ++ more ∧
      ps.getdatalen = ps.theNexPacket.datalen.toNat + 1) ∨
    (∃ extra, ps.gotBytes = body ++ extra ∧
      body.length < ps.theNexPacket.datalen.toNat + 1)

/-- The invariant between two calls of `recvdata`: inside a frame, the
frame is not complete, and outside there is too little for a frame. -/
structure Inv (ps : PacketSync) : Prop where
  shape : Shape ps
  frame : ps.parsetype = .head → ∃ n hd body, InFrame ps n hd body ∧
    ps.getdatalen < ps.theNexPacket.datalen.toNat + 1
  settled : ps.parsetype = .nothing → ps.truepacketlen < headLen + 2

/-- The fields that no step of `recvdata` changes. -/
structure SameConfig (ps ps' : PacketSync) : Prop where
  head_eq : ps'.head = ps.head
  tail_eq : ps'.tail = ps.tail
  cb_eq : ps'.packetCb = ps.packetCb

theorem SameConfig.refl (ps : PacketSync) : SameConfig ps ps := ⟨rfl, rfl, rfl⟩

theorem SameConfig.trans {ps₁ ps₂ ps₃ : PacketSync} (h : SameConfig ps₁ ps₂)
    (h' : SameConfig ps₂ ps₃) : SameConfig ps₁ ps₃ :=
  ⟨h'.head_eq.trans h.head_eq, h'.tail_eq.trans h.tail_eq, h'.cb_eq.trans h.cb_eq⟩

theorem Shape.readBytes_length {ps : PacketSync} (h : Shape ps) :
    ps.readBytes.length = ps.truepacketlen := by
  rw [readBytes, List.length_take]
  exact Nat.min_eq_left h.true_le

/-- The shape depends on the buffers and on `truepacketlen` only. -/
theorem Shape.of_len {ps ps' : PacketSync} (h : Shape ps)
    (hread : ps'.threadReaddata.len = ps.threadReaddata.len)
    (hpacket : ps'.threadPacketdata.len = ps.threadPacketdata.len)
    (htrue : ps'.truepacketlen ≤ ps'.threadReaddata.init.length) : Shape ps' where
  read_lo := hread ▸ h.read_lo
  read_hi := hread ▸ h.read_hi
  true_le := htrue
  packet_hi := hpacket ▸ h.packet_hi

theorem Shape.true_lt {ps : PacketSync} (h : Shape ps) : ps.truepacketlen ≤ 2 ^ 31 + 7 :=
  Nat.le_trans h.true_le (Nat.le_trans ps.threadReaddata.init_le h.read_hi)

/-- A declared length below `2 ^ 31 - 1` leaves room for the tail byte. -/
theorem need_eq {ps : PacketSync} (h : ps.theNexPacket.datalen.toNat < 2 ^ 31 - 1) :
    ps.need = ps.theNexPacket.datalen.toNat + 1 := by
  rw [need, UInt32.toNat_add]
  exact Nat.mod_eq_of_lt (by simp; omega)

/-- What a header in the read buffer says about `truepacketlen`. -/
theorem Headed.true_eq {ps : PacketSync} {n hd body : List UInt8}
    (h : Headed ps n hd body) (hs : Shape ps) :
    ps.truepacketlen = n.length + 1 + headLen + body.length := by
  rw [← hs.readBytes_length, h.read_eq]
  simp only [List.length_append, List.length_cons, h.hd_length]
  omega

/-- The part of the read buffer behind the header. -/
theorem Headed.buffered_eq {ps : PacketSync} {n hd body : List UInt8}
    (h : Headed ps n hd body) (hs : Shape ps) : ps.buffered = body.length := by
  have htrue := h.true_eq hs
  have hlt := hs.true_lt
  have h1 : szSub ps.truepacketlen n.length = 1 + headLen + body.length := by
    rw [szSub_eq (by omega) (by omega)]
    omega
  have h2 : szSub (1 + headLen + body.length) 1 = headLen + body.length := by
    rw [szSub_eq (by omega) (by omega)]
    omega
  rw [buffered, h.headpos_eq, h1, h2, szSub_eq (by omega) (by omega)]
  omega

namespace InFrame

variable {ps : PacketSync} {n hd body : List UInt8}

theorem got_length (h : InFrame ps n hd body) : ps.gotBytes.length = ps.getdatalen := by
  rw [gotBytes, List.length_take]
  exact Nat.min_eq_left h.got_init

/-- The undecided bytes in order. -/
theorem pending_eq (h : InFrame ps n hd body) (hp : ps.parsetype = .head) :
    ps.pending =
      n ++ ps.head :: (hd ++ (ps.gotBytes ++ body.drop ps.getdatalen)) := by
  have hsplit : ps.readBytes = (n ++ ps.head :: hd) ++ body := by
    rw [h.read_eq]
    simp
  have hlen : (n ++ ps.head :: hd).length = ps.headpos + 1 + headLen := by
    rw [List.length_append, List.length_cons, h.hd_length, h.headpos_eq]
    omega
  rw [pending, hp]
  simp only [hsplit]
  rw [← hlen, List.take_left, List.drop_append]
  simp

/-- When the read buffer holds the whole frame, so does the packet
buffer. -/
theorem more_of_le (h : InFrame ps n hd body)
    (hle : ps.theNexPacket.datalen.toNat + 1 ≤ body.length) :
    ∃ more, body = ps.gotBytes ++ more ∧
      ps.getdatalen = ps.theNexPacket.datalen.toNat + 1 := by
  rcases h.split with hmore | ⟨extra, _, hlt⟩
  · exact hmore
  · omega

/-- Nothing in the read buffer lies behind an incomplete frame. -/
theorem drop_eq_nil (h : InFrame ps n hd body)
    (hlt : ps.getdatalen < ps.theNexPacket.datalen.toNat + 1) :
    body.drop ps.getdatalen = [] := by
  rcases h.split with ⟨more, _, hgot⟩ | ⟨extra, hext, _⟩
  · omega
  · have := congrArg List.length hext
    rw [List.length_append, h.got_length] at this
    exact List.drop_eq_nil_of_le (by omega)

end InFrame

end PacketSync

namespace Recv

open PacketSync

/-- The part of the chunk that is not read. -/
def rest (r : Recv) : List UInt8 := r.data.bytes.drop r.iret

/-- The undecided bytes, followed by the rest of the chunk. -/
def stream (r : Recv) : List UInt8 := r.ps.pending ++ r.rest

/-- The read buffer after the copy at the start of `PARSE_NOTHING`. -/
def window (r : Recv) : List UInt8 :=
  r.ps.readBytes ++ r.rest.take (r.ps.threadReaddata.len - r.ps.truepacketlen)

/-- The header that the next step accepts, if it accepts one. -/
def nextHead (r : Recv) : Option NetPacket :=
  if r.pc = .loopTest ∧ (r.iret < r.data.len ∨ headLen + 2 ≤ r.ps.truepacketlen) ∧
      r.ps.parsetype = .nothing then
    match r.window.dropWhile (· ≠ r.ps.head) with
    | [] => none
    | _ :: s =>
      if headLen ≤ s.length ∧ Accepts r.ps.head r.ps.tail (charToNetPacket s) then
        some (charToNetPacket s)
      else none
  else none

/-- The next step accepts no header that declares `2 ^ 31 - 1` bytes or
more. -/
def SmallHead (r : Recv) : Prop :=
  ∀ p ∈ r.nextHead, p.datalen.toNat < 2 ^ 31 - 1

/-- The invariant of the machine at each of its points. -/
structure Inv (r : Recv) : Prop where
  shape : Shape r.ps
  iret_le : r.iret ≤ r.data.len
  frame : r.ps.parsetype = .head → ∃ n hd body, InFrame r.ps n hd body
  inside : r.pc = .payload ∨ r.pc = .tailTest → r.ps.parsetype = .head
  complete : r.pc = .tailTest → r.ps.getdatalen = r.ps.theNexPacket.datalen.toNat + 1
  waiting : r.pc = .loopTest ∨ r.pc = .done → r.ps.parsetype = .head →
    r.ps.getdatalen < r.ps.theNexPacket.datalen.toNat + 1
  drained : r.pc = .done → r.iret = r.data.len ∧
    (r.ps.parsetype = .nothing → r.ps.truepacketlen < headLen + 2)

/-- How far a point of the loop is from its end. -/
def weight : Pc → Nat
  | .loopTest => 3
  | .payload => 2
  | .tailTest => 1
  | .done => 0

/-- The measure of the loop.  Bytes that are decided leave the stream, and
bytes that move to the read buffer leave the chunk. -/
def measure (r : Recv) : Nat :=
  4 * (r.stream.length + r.rest.length) + weight r.pc

/-- What a step from `r` to `r'` does when it decides the events `evs`. -/
structure Steps (r r' : Recv) (evs : List ScanEvent) : Prop where
  inv : Inv r'
  advance : Advance r.ps.head r.ps.tail r.stream evs r'.stream
  out_eq : r'.out = r.out ++ deliveries r.ps.packetCb evs
  config : SameConfig r.ps r'.ps
  data_eq : r'.data = r.data
  less : r'.measure < r.measure

theorem rest_length {r : Recv} : r.rest.length = r.data.len - r.iret := by
  rw [rest, List.length_drop]

/-- `len - iret` is the length of the rest of the chunk. -/
theorem remaining_eq {r : Recv} (h : r.iret ≤ r.data.len) :
    r.remaining = r.rest.length := by
  have := r.data.len_lt
  rw [remaining, rest_length, szSub_eq h (by omega)]

/-- Reading all of the rest of the chunk. -/
theorem read_rest {r : Recv} (h : r.iret ≤ r.data.len) :
    r.data.read r.iret r.rest.length = .ok r.rest := by
  rw [rest_length, Chunk.read_eq (by omega)]
  exact congrArg _ (List.take_of_length_le (by rw [List.length_drop]))

/-- Reading a part of the rest of the chunk. -/
theorem read_rest_take {r : Recv} {k : Nat} (h : r.iret ≤ r.data.len)
    (hk : k ≤ r.rest.length) :
    r.data.read r.iret k = .ok (r.rest.take k) := by
  rw [rest_length] at hk
  exact Chunk.read_eq (by omega)

/-- The first head byte of a list. -/
theorem dropWhile_head {c : UInt8} {n : List UInt8} (hn : c ∉ n) (s : List UInt8) :
    (n ++ c :: s).dropWhile (· ≠ c) = c :: s := by
  induction n with
  | nil => simp
  | cons b n ih =>
    rw [List.mem_cons, not_or] at hn
    rw [List.cons_append, List.dropWhile_cons_of_pos (by simpa using Ne.symm hn.1), ih hn.2]

/-- The header behind the first head byte of the window is accepted next. -/
theorem nextHead_eq {r : Recv} {n s : List UInt8} (hpc : r.pc = .loopTest)
    (hmore : r.iret < r.data.len ∨ headLen + 2 ≤ r.ps.truepacketlen)
    (hp : r.ps.parsetype = .nothing) (hsplit : r.window = n ++ r.ps.head :: s)
    (hn : r.ps.head ∉ n) (hlong : headLen ≤ s.length)
    (hacc : Accepts r.ps.head r.ps.tail (charToNetPacket s)) :
    r.nextHead = some (charToNetPacket s) := by
  rw [nextHead, if_pos ⟨hpc, hmore, hp⟩, hsplit, dropWhile_head hn]
  exact if_pos ⟨hlong, hacc⟩

/-- What it means that a header is accepted next. -/
theorem nextHead_cases {r : Recv} {p : NetPacket} (h : r.nextHead = some p) :
    r.pc = .loopTest ∧ (r.iret < r.data.len ∨ headLen + 2 ≤ r.ps.truepacketlen) ∧
      r.ps.parsetype = .nothing ∧ ∃ n s, r.window = n ++ r.ps.head :: s ∧
        r.ps.head ∉ n ∧ headLen ≤ s.length ∧ charToNetPacket s = p ∧
        Accepts r.ps.head r.ps.tail p := by
  rw [nextHead] at h
  split at h
  · next hcond =>
    refine ⟨hcond.1, hcond.2.1, hcond.2.2, ?_⟩
    have hsplit := List.takeWhile_append_dropWhile (p := (· ≠ r.ps.head)) (l := r.window)
    cases hd : r.window.dropWhile (· ≠ r.ps.head) with
    | nil =>
      rw [hd] at h
      cases h
    | cons c s =>
      have hc : c = r.ps.head := by
        have hstop := List.head?_dropWhile_not (· ≠ r.ps.head) r.window
        rw [hd] at hstop
        simpa using hstop
      subst hc
      rw [hd] at h hsplit
      simp only at h
      split at h
      · next hs =>
        cases h
        refine ⟨_, s, hsplit.symm, fun hmem => ?_, hs.1, rfl, hs.2⟩
        simpa using List.mem_takeWhile_imp hmem
      · cases h
  · cases h

theorem stream_of_nothing {r : Recv} (hp : r.ps.parsetype = .nothing) :
    r.stream = r.ps.readBytes ++ r.rest := by
  rw [stream, pending_of_nothing hp]

/-- On a sane stream the next header is small. -/
theorem smallHead_of_sane {r : Recv} (hsane : Sane r.ps.head r.ps.tail r.stream) :
    SmallHead r := by
  intro p hp
  obtain ⟨_, _, hnothing, n, s, hsplit, hn, hlong, hheader, hacc⟩ := nextHead_cases hp
  have hstream : r.stream = n ++ r.ps.head ::
      (s ++ r.rest.drop (r.ps.threadReaddata.len - r.ps.truepacketlen)) := by
    rw [stream_of_nothing hnothing, ← List.cons_append, ← List.append_assoc, ← hsplit,
      window, List.append_assoc, List.take_append_drop]
  apply hsane
  have hheader' := charToNetPacket_append hlong
    (r.rest.drop (r.ps.threadReaddata.len - r.ps.truepacketlen))
  rw [hstream, ← hheader, ← hheader']
  exact mem_scanHeads hn (by rw [List.length_append]; omega)
    (by rw [hheader', hheader]; exact hacc)

/-! ## The branch `PARSE_NOTHING` -/

/-- Filling the read buffer moves bytes from the chunk to its end, until
the chunk is used up or the buffer is full. -/
theorem fill_ok {r : Recv} (hs : Shape r.ps) (hi : r.iret ≤ r.data.len) :
    ∃ (b : Block) (t i : Nat),
      r.fill = .ok { r with
        ps := { r.ps with threadReaddata := b, truepacketlen := t }, iret := i } ∧
      b.len = r.ps.threadReaddata.len ∧ t ≤ b.init.length ∧
      r.ps.truepacketlen ≤ t ∧ i ≤ r.data.len ∧ r.iret ≤ i ∧
      b.init.take t = r.window ∧
      b.init.take t ++ r.data.bytes.drop i = r.ps.readBytes ++ r.rest ∧
      (i = r.data.len ∨ t = b.len) := by
  have hlt := hs.true_lt
  have hdata := r.data.len_lt
  have hle := Nat.le_trans hs.true_le r.ps.threadReaddata.init_le
  have hhi := hs.read_hi
  have hroom : szSub r.ps.threadReaddata.len r.ps.truepacketlen =
      r.ps.threadReaddata.len - r.ps.truepacketlen := szSub_eq hle (by omega)
  have hrestlen := rest_length (r := r)
  by_cases hfit : r.rest.length ≤ r.ps.threadReaddata.len - r.ps.truepacketlen
  · obtain ⟨b, hw, hblen, hinit, htake⟩ :=
      Block.write_take (b := r.ps.threadReaddata) (o := r.ps.truepacketlen)
        (l := r.rest) (by omega) hs.true_le
    refine ⟨b, r.ps.truepacketlen + r.rest.length, r.data.len, ?_, hblen, hinit,
      by omega, Nat.le_refl _, hi, ?_, ?_, Or.inl rfl⟩
    · rw [fill]
      simp only [remaining_eq hi, hroom]
      rw [if_pos hfit, read_rest hi, ok_bind, hw, ok_bind, szAdd_eq (by omega)]
      rfl
    · rw [htake, window, List.take_of_length_le (l := r.rest) hfit]
      rfl
    · rw [htake, List.drop_length, List.append_nil]
      rfl
  · obtain ⟨b, hw, hblen, hinit, htake⟩ :=
      Block.write_take (b := r.ps.threadReaddata) (o := r.ps.truepacketlen)
        (l := r.rest.take (r.ps.threadReaddata.len - r.ps.truepacketlen))
        (by rw [List.length_take]; omega) hs.true_le
    have hsrc : (r.rest.take (r.ps.threadReaddata.len - r.ps.truepacketlen)).length =
        r.ps.threadReaddata.len - r.ps.truepacketlen := by
      rw [List.length_take]
      omega
    have hfull : r.ps.truepacketlen + (r.ps.threadReaddata.len - r.ps.truepacketlen) =
        r.ps.threadReaddata.len := by omega
    rw [hsrc, hfull] at hinit htake
    refine ⟨b, r.ps.threadReaddata.len,
      r.iret + (r.ps.threadReaddata.len - r.ps.truepacketlen), ?_, hblen, hinit,
      hle, by omega, by omega, htake, ?_, Or.inr hblen.symm⟩
    · rw [fill]
      simp only [remaining_eq hi, hroom]
      rw [if_neg hfit, read_rest_take hi (by omega), ok_bind, hw, ok_bind,
        szAdd_eq (by omega)]
      rfl
    · rw [htake, ← List.drop_drop, List.append_assoc]
      exact congrArg _ (List.take_append_drop _ r.rest)

/-- An accepted header opens a frame and changes nothing else. -/
theorem acceptHead_ok {r : Recv} {n hd body : List UInt8} (hs : Shape r.ps)
    (h : Headed r.ps n hd body) (hsmall : r.ps.theNexPacket.datalen.toNat < 2 ^ 31 - 1) :
    ∃ (b : Block) (g : Nat),
      r.acceptHead = .ok { r with
        pc := .payload
        ps := { r.ps with
          parsetype := .head, threadPacketdata := b, getdatalen := g } } ∧
      b.len ≤ 2 ^ 31 ∧ b.init.take g ++ body.drop g = body ∧
      InFrame { r.ps with
        parsetype := .head, threadPacketdata := b, getdatalen := g } n hd body := by
  have hL : headLen = 8 := rfl
  have hlt := hs.true_lt
  have htrue := h.true_eq hs
  have hbuf := h.buffered_eq hs
  have hneed := need_eq hsmall
  -- the packet buffer after the reallocation
  have hpacket := hs.packet_hi
  obtain ⟨b₀, hb₀, hroom, hhi⟩ : ∃ b₀ : Block,
      (if r.ps.threadPacketdata.len < szAdd r.ps.theNexPacket.datalen.toNat 1 then
        r.ps.threadPacketdata.realloc r.ps.need else r.ps.threadPacketdata) = b₀ ∧
      r.ps.theNexPacket.datalen.toNat + 1 ≤ b₀.len ∧ b₀.len ≤ 2 ^ 31 := by
    refine ⟨_, rfl, ?_⟩
    rw [szAdd_eq (by omega)]
    split
    · rw [Block.realloc_len, hneed]
      exact ⟨Nat.le_refl _, by omega⟩
    · exact ⟨by omega, hpacket⟩
  -- the number of bytes that are copied
  have hg : intToSize (min (toInt r.ps.buffered) (toInt r.ps.need)) =
      min body.length (r.ps.theNexPacket.datalen.toNat + 1) := by
    have hmin : min (body.length : Int) (r.ps.theNexPacket.datalen.toNat + 1 : Nat) =
        (min body.length (r.ps.theNexPacket.datalen.toNat + 1) : Nat) := by omega
    rw [hbuf, hneed, toInt_eq (n := body.length) (by omega), toInt_eq (by omega), hmin,
      intToSize_natCast (by omega)]
  have hoff : szAdd (szAdd r.ps.headpos 1) headLen = n.length + 1 + headLen := by
    rw [h.headpos_eq, szAdd_eq (a := n.length) (by omega), szAdd_eq (by omega)]
  have hbody : r.ps.readBytes.drop (n.length + 1 + headLen) = body := by
    rw [h.read_eq, show n ++ r.ps.head :: (hd ++ body) = (n ++ r.ps.head :: hd) ++ body by simp]
    exact List.drop_left' (by simp [h.hd_length]; omega)
  set g := min body.length (r.ps.theNexPacket.datalen.toNat + 1) with hgdef
  have hread : r.ps.threadReaddata.read (n.length + 1 + headLen) g = .ok (body.take g) := by
    rw [Block.read_take (t := r.ps.truepacketlen) (by omega) hs.true_le]
    exact congrArg (fun l => Except.ok (List.take g l)) hbody
  have hsrc : (body.take g).length = g := by
    rw [List.length_take]
    omega
  obtain ⟨b, hw, hblen, hinit, htake⟩ :=
    Block.write_take (b := b₀) (o := 0) (l := body.take g) (by omega) (Nat.zero_le _)
  rw [Nat.zero_add, hsrc] at hinit htake
  rw [List.take_zero, List.nil_append] at htake
  -- without a byte to copy the source skips the `memcpy`
  obtain ⟨b', hb', hb'len, hb'init, hb'take⟩ : ∃ b' : Block,
      r.acceptHead = .ok { r with
        pc := .payload
        ps := { r.ps with
          parsetype := .head, threadPacketdata := b', getdatalen := g } } ∧
      b'.len = b₀.len ∧ g ≤ b'.init.length ∧ b'.init.take g = body.take g := by
    rw [acceptHead]
    simp only [hb₀, hg, hoff]
    by_cases hpos : 0 < g
    · refine ⟨b, ?_, hblen, hinit, htake⟩
      rw [if_pos hpos, hread, ok_bind, hw, ok_bind]
      rfl
    · have hzero : g = 0 := by omega
      refine ⟨b₀, ?_, rfl, by omega, by rw [hzero]; rfl⟩
      rw [if_neg hpos]
      rfl
  refine ⟨b', g, hb', hb'len ▸ hhi, by rw [hb'take, List.take_append_drop], ?_⟩
  refine { toHeaded := ?_, small := hsmall, got_le := ?_, room := ?_, got_init := hb'init,
           split := ?_ }
  · exact { h with }
  · exact Nat.min_le_right _ _
  · exact hb'len ▸ hroom
  · show (∃ more, body = b'.init.take g ++ more ∧
        g = r.ps.theNexPacket.datalen.toNat + 1) ∨
      ∃ extra, b'.init.take g = body ++ extra ∧
        body.length < r.ps.theNexPacket.datalen.toNat + 1
    rw [hb'take]
    by_cases hcase : r.ps.theNexPacket.datalen.toNat + 1 ≤ body.length
    · exact Or.inl ⟨body.drop g, (List.take_append_drop g body).symm, by omega⟩
    · exact Or.inr ⟨[], by rw [List.take_of_length_le (by omega), List.append_nil],
        by omega⟩

/-- A state at the loop test that is not inside a frame. -/
theorem Inv.of_nothing {r : Recv} (hs : Shape r.ps) (hi : r.iret ≤ r.data.len)
    (hpc : r.pc = .loopTest) (hp : r.ps.parsetype = .nothing) : Inv r where
  shape := hs
  iret_le := hi
  frame h := by rw [hp] at h; cases h
  inside h := by rw [hpc] at h; rcases h with h | h <;> cases h
  complete h := by rw [hpc] at h; cases h
  waiting _ h := by rw [hp] at h; cases h
  drained h := by rw [hpc] at h; cases h

/-- The undecided bytes of a frame, followed by the rest of the chunk. -/
theorem stream_of_head {r : Recv} {n hd body : List UInt8}
    (h : InFrame r.ps n hd body) (hp : r.ps.parsetype = .head) :
    r.stream = n ++ r.ps.head ::
      (hd ++ (r.ps.gotBytes ++ (body.drop r.ps.getdatalen ++ r.rest))) := by
  rw [stream, h.pending_eq hp]
  simp only [List.append_assoc, List.cons_append]

/-- What a step does that only drops bytes in front of the stream, or moves
none at all.  `less` is left to the caller. -/
structure Found (r r' : Recv) : Prop where
  inv : Inv r'
  advance : Advance r.ps.head r.ps.tail r.stream [] r'.stream
  out_eq : r'.out = r.out
  config : SameConfig r.ps r'.ps
  data_eq : r'.data = r.data
  less : r'.measure < r.measure ∨
    r.ps.truepacketlen < headLen + 2 ∧ r'.measure ≤ r.measure

/-- The read buffer loses bytes at its front. -/
theorem Found.of_drop {r : Recv} {ps' : PacketSync} (hs : Shape r.ps)
    (hi : r.iret ≤ r.data.len) (hpc : r.pc = .loopTest)
    (hp : r.ps.parsetype = .nothing) (hs' : Shape ps') (hp' : ps'.parsetype = .nothing)
    (hcfg : SameConfig r.ps ps')
    (hadv : Advance r.ps.head r.ps.tail (r.ps.readBytes ++ r.rest) []
      (ps'.readBytes ++ r.rest))
    (hless : ps'.truepacketlen < r.ps.truepacketlen ∨
      r.ps.truepacketlen < headLen + 2 ∧ ps'.truepacketlen ≤ r.ps.truepacketlen) :
    Found r { r with ps := ps' } := by
  have hstream := stream_of_nothing hp
  have hstream' : Recv.stream { r with ps := ps' } = ps'.readBytes ++ r.rest :=
    stream_of_nothing hp'
  refine ⟨.of_nothing hs' hi hpc hp', ?_, rfl, hcfg, rfl, ?_⟩
  · rw [hstream, hstream']
    exact hadv
  · have hmeasure : Recv.measure { r with ps := ps' } =
        4 * (ps'.truepacketlen + r.rest.length + r.rest.length) + weight r.pc := by
      rw [measure, hstream', List.length_append, hs'.readBytes_length]
      rfl
    rw [hmeasure, measure, hstream, List.length_append, hs.readBytes_length]
    omega

/-- An accepted header opens a frame, and the stream stays as it is. -/
theorem Found.of_accept {r : Recv} {n s : List UInt8} (hs : Shape r.ps)
    (hi : r.iret ≤ r.data.len) (hpc : r.pc = .loopTest)
    (hp : r.ps.parsetype = .nothing) (hsplit : r.ps.readBytes = n ++ r.ps.head :: s)
    (hn : r.ps.head ∉ n) (hlong : headLen ≤ s.length)
    (hacc : Accepts r.ps.head r.ps.tail (charToNetPacket s))
    (hsmall : (charToNetPacket s).datalen.toNat < 2 ^ 31 - 1) :
    ∃ r', acceptHead { r with
      ps := { r.ps with headpos := n.length, theNexPacket := charToNetPacket s } } = .ok r' ∧
      Found r r' := by
  have hstream : r.stream = n ++ r.ps.head :: (s ++ r.rest) := by
    rw [stream_of_nothing hp, hsplit, List.append_assoc, List.cons_append]
  have hheaded : Headed
      { r.ps with headpos := n.length, theNexPacket := charToNetPacket s }
      n (s.take headLen) (s.drop headLen) :=
    { read_eq := by rw [List.take_append_drop]; exact hsplit
      headpos_eq := rfl
      noise := hn
      hd_length := by rw [List.length_take]; omega
      packet_eq := charToNetPacket_take s hlong
      accepts := hacc }
  obtain ⟨b, g, haccept, hpacket, hbody, hframe⟩ :=
    acceptHead_ok (r := { r with
      ps := { r.ps with headpos := n.length, theNexPacket := charToNetPacket s } })
      (hs.of_len rfl rfl hs.true_le) hheaded hsmall
  refine ⟨_, haccept, ?_⟩
  have hstream' : Recv.stream { r with
      pc := .payload
      ps := { r.ps with
        headpos := n.length
        theNexPacket := charToNetPacket s
        parsetype := .head
        threadPacketdata := b
        getdatalen := g } } = r.stream := by
    rw [stream_of_head hframe rfl, hstream]
    show n ++ r.ps.head :: (s.take headLen ++
      (b.init.take g ++ ((s.drop headLen).drop g ++ r.rest))) = _
    rw [← List.append_assoc (b.init.take g), hbody, ← List.append_assoc,
      List.take_append_drop]
  refine ⟨?_, ?_, rfl, ⟨rfl, rfl, rfl⟩, rfl, Or.inl ?_⟩
  · exact {
      shape := ⟨hs.read_lo, hs.read_hi, hs.true_le, hpacket⟩
      iret_le := hi
      frame := fun _ => ⟨_, _, _, hframe⟩
      inside := fun _ => rfl
      complete := fun h => by cases h
      waiting := fun h => by rcases h with h | h <;> cases h
      drained := fun h => by cases h }
  · rw [hstream']
    exact Advance.refl _
  · rw [measure, measure, hstream', hpc]
    show 4 * (_ + r.rest.length) + 2 < 4 * (_ + r.rest.length) + 3
    omega

/-- What a head byte in the read buffer says about `truepacketlen`. -/
theorem true_eq_of_split {ps : PacketSync} {n s : List UInt8} (hs : Shape ps)
    (hsplit : ps.readBytes = n ++ ps.head :: s) :
    ps.truepacketlen = n.length + 1 + s.length := by
  rw [← hs.readBytes_length, hsplit, List.length_append, List.length_cons]
  omega

/-- How many bytes of the read buffer follow the head byte. -/
theorem after_head {ps : PacketSync} {n s : List UInt8} (hs : Shape ps)
    (hsplit : ps.readBytes = n ++ ps.head :: s) :
    szSub (szSub ps.truepacketlen n.length) 1 = s.length := by
  have hlt := hs.true_lt
  have htrue := true_eq_of_split hs hsplit
  rw [szSub_eq (a := ps.truepacketlen) (by omega) (by omega), szSub_eq (by omega) (by omega)]
  omega

/-- The eight bytes that follow the head byte. -/
theorem read_head {ps : PacketSync} {n s : List UInt8} (hs : Shape ps)
    (hsplit : ps.readBytes = n ++ ps.head :: s) (hlong : headLen ≤ s.length) :
    ps.threadReaddata.read (szAdd n.length 1) headLen = .ok (s.take headLen) := by
  have hL : headLen = 8 := rfl
  have hlt := hs.true_lt
  have htrue := true_eq_of_split hs hsplit
  rw [szAdd_eq (by omega), Block.read_take (t := ps.truepacketlen) (by omega) hs.true_le]
  show Except.ok ((ps.readBytes.drop (n.length + 1)).take headLen) = _
  rw [hsplit, ← List.drop_drop, List.drop_left]
  rfl

section

variable {r : Recv} {n s : List UInt8}

/-- Too few bytes behind the head byte: the head byte moves to the front. -/
theorem findHead_short (hs : Shape r.ps) (hi : r.iret ≤ r.data.len)
    (hpc : r.pc = .loopTest) (hp : r.ps.parsetype = .nothing)
    (hsome : r.ps.threadReaddata.memchr r.ps.head r.ps.truepacketlen = .ok (some n.length))
    (hsplit : r.ps.readBytes = n ++ r.ps.head :: s) (hn : r.ps.head ∉ n)
    (hshort : s.length < headLen) :
    ∃ r', r.findHead = .ok r' ∧ Found r r' := by
  have hlt := hs.true_lt
  have htrue := true_eq_of_split hs hsplit
  rw [findHead]
  simp only
  rw [hsome, ok_bind]
  simp only [after_head hs hsplit]
  rw [if_pos hshort]
  by_cases hzero : n.length = 0
  · -- the head byte is at the front already
    rw [if_neg (not_not_intro hzero)]
    exact ⟨_, rfl, .of_drop hs hi hpc hp (hs.of_len rfl rfl hs.true_le) hp
      ⟨rfl, rfl, rfl⟩ (Advance.refl _) (Or.inr ⟨by omega, Nat.le_refl _⟩)⟩
  · rw [if_pos hzero]
    have hrest : szSub r.ps.truepacketlen n.length = 1 + s.length := by
      rw [szSub_eq (by omega) (by omega)]
      omega
    obtain ⟨b, hmove, hblen, hinit, htake⟩ :=
      Block.memmove_drop (b := r.ps.threadReaddata) (o := n.length)
        (t := r.ps.truepacketlen) (by omega) hs.true_le
    rw [show r.ps.truepacketlen - n.length = 1 + s.length by omega] at hmove hinit htake
    change _ = r.ps.readBytes.drop n.length at htake
    rw [hsplit, List.drop_left] at htake
    rw [hrest, hmove, ok_bind]
    refine ⟨_, rfl, .of_drop hs hi hpc hp (hs.of_len hblen rfl hinit)
      hp ⟨rfl, rfl, rfl⟩ ?_ (Or.inl (by show 1 + s.length < _; omega))⟩
    rw [hsplit, List.append_assoc]
    show Advance _ _ _ [] (b.init.take (1 + s.length) ++ r.rest)
    rw [htake]
    exact .noise n _ hn

/-- The header is not accepted: the search goes on behind the head byte. -/
theorem findHead_reject (hs : Shape r.ps) (hi : r.iret ≤ r.data.len)
    (hpc : r.pc = .loopTest) (hp : r.ps.parsetype = .nothing)
    (hsome : r.ps.threadReaddata.memchr r.ps.head r.ps.truepacketlen = .ok (some n.length))
    (hsplit : r.ps.readBytes = n ++ r.ps.head :: s) (hn : r.ps.head ∉ n)
    (hlong : headLen ≤ s.length) (hacc : ¬Accepts r.ps.head r.ps.tail (charToNetPacket s)) :
    ∃ r', r.findHead = .ok r' ∧ Found r r' := by
  have hlt := hs.true_lt
  have htrue := true_eq_of_split hs hsplit
  have hoff : szAdd n.length 1 = n.length + 1 := szAdd_eq (by omega)
  have hrest : szSub r.ps.truepacketlen (n.length + 1) = s.length := by
    rw [szSub_eq (by omega) (by omega)]
    omega
  obtain ⟨b, hmove, hblen, hinit, htake⟩ :=
    Block.memmove_drop (b := r.ps.threadReaddata) (o := n.length + 1)
      (t := r.ps.truepacketlen) (by omega) hs.true_le
  rw [show r.ps.truepacketlen - (n.length + 1) = s.length by omega] at hmove hinit htake
  change _ = r.ps.readBytes.drop (n.length + 1) at htake
  rw [hsplit, ← List.drop_drop, List.drop_left] at htake
  rw [findHead]
  simp only
  rw [hsome, ok_bind]
  simp only [after_head hs hsplit]
  rw [if_neg (by omega), read_head hs hsplit hlong, ok_bind]
  simp only [charToNetPacket_take s hlong]
  rw [if_pos (by rwa [← not_and_or]), hoff, hmove, ok_bind, hrest]
  refine ⟨_, rfl, .of_drop hs hi hpc hp (hs.of_len hblen rfl hinit)
    hp ⟨rfl, rfl, rfl⟩ ?_ (Or.inl (by show s.length < _; omega))⟩
  rw [hsplit, List.append_assoc, List.cons_append]
  show Advance _ _ _ [] (b.init.take s.length ++ r.rest)
  rw [htake]
  exact .badHead n _ hn (by rw [List.length_append]; omega)
    (by rwa [charToNetPacket_append hlong])

/-- The header is accepted. -/
theorem findHead_accept (hs : Shape r.ps)
    (hsome : r.ps.threadReaddata.memchr r.ps.head r.ps.truepacketlen = .ok (some n.length))
    (hsplit : r.ps.readBytes = n ++ r.ps.head :: s) (hlong : headLen ≤ s.length)
    (hacc : Accepts r.ps.head r.ps.tail (charToNetPacket s)) :
    r.findHead = acceptHead { r with
      ps := { r.ps with headpos := n.length, theNexPacket := charToNetPacket s } } := by
  rw [findHead]
  simp only
  rw [hsome, ok_bind]
  simp only [after_head hs hsplit]
  rw [if_neg (by omega), read_head hs hsplit hlong, ok_bind]
  simp only [charToNetPacket_take s hlong]
  rw [if_neg (by rw [not_or]; exact ⟨not_not_intro hacc.1, not_not_intro hacc.2⟩)]

end

/-- The search for a head byte in a filled read buffer. -/
theorem findHead_ok {r : Recv} (hs : Shape r.ps) (hi : r.iret ≤ r.data.len)
    (hpc : r.pc = .loopTest) (hp : r.ps.parsetype = .nothing)
    (hsmall : ∀ n s, r.ps.readBytes = n ++ r.ps.head :: s → r.ps.head ∉ n →
      headLen ≤ s.length → Accepts r.ps.head r.ps.tail (charToNetPacket s) →
      (charToNetPacket s).datalen.toNat < 2 ^ 31 - 1) :
    ∃ r', r.findHead = .ok r' ∧ Found r r' := by
  rcases Block.memchr_take (c := r.ps.head) hs.true_le with
    ⟨hnone, hnotin⟩ | ⟨n, s, hsome, hn, hsplit⟩
  · -- no head byte: everything in the read buffer is noise
    rw [findHead]
    simp only
    rw [hnone, ok_bind]
    refine ⟨_, rfl, .of_drop hs hi hpc hp (hs.of_len rfl rfl (Nat.zero_le _)) hp
      ⟨rfl, rfl, rfl⟩ ?_ ?_⟩
    · exact Advance.noise r.ps.readBytes r.rest hnotin
    · show 0 < _ ∨ _ < _ ∧ 0 ≤ _
      omega
  · by_cases hshort : s.length < headLen
    · exact findHead_short hs hi hpc hp hsome hsplit hn hshort
    · rw [not_lt] at hshort
      by_cases hacc : Accepts r.ps.head r.ps.tail (charToNetPacket s)
      · rw [findHead_accept hs hsome hsplit hshort hacc]
        exact Found.of_accept hs hi hpc hp hsplit hn hshort hacc
          (hsmall n s hsplit hn hshort hacc)
      · exact findHead_reject hs hi hpc hp hsome hsplit hn hshort hacc

/-- One turn of the branch `PARSE_NOTHING`. -/
theorem parseNothing_ok {r : Recv} (hinv : Inv r) (hpc : r.pc = .loopTest)
    (hp : r.ps.parsetype = .nothing)
    (hmore : r.iret < r.data.len ∨ headLen + 2 ≤ r.ps.truepacketlen)
    (hsmall : SmallHead r) :
    ∃ r', r.parseNothing = .ok r' ∧ Steps r r' [] := by
  have hL : headLen = 8 := rfl
  have hB : bufferSize = 10240 := rfl
  obtain ⟨b, t, i, hfill, hblen, hinit, htrue, hi, hiret, hwindow, hbytes, hfull⟩ :=
    fill_ok hinv.shape hinv.iret_le
  have hshape : Shape { r.ps with threadReaddata := b, truepacketlen := t } :=
    hinv.shape.of_len hblen rfl hinit
  set r₁ : Recv := { r with
    ps := { r.ps with threadReaddata := b, truepacketlen := t }, iret := i } with hr₁
  have hstream : r₁.stream = r.stream := by
    rw [stream_of_nothing (r := r₁) hp, stream_of_nothing hp]
    exact hbytes
  obtain ⟨r', hfind, hfound⟩ := findHead_ok (r := r₁) hshape hi hpc hp (by
    intro n s hsplit hn hlong hacc
    exact hsmall _ (nextHead_eq hpc hmore hp (hwindow.symm.trans hsplit) hn hlong hacc))
  refine ⟨r', by rw [parseNothing, hfill, ok_bind, hfind], ?_⟩
  have hcfg : SameConfig r.ps r₁.ps := ⟨rfl, rfl, rfl⟩
  refine ⟨hfound.inv, hstream ▸ hfound.advance, ?_, hcfg.trans hfound.config,
    hfound.data_eq, ?_⟩
  · rw [deliveries_nil, List.append_nil]
    exact hfound.out_eq
  · -- a short read buffer means that the chunk was read to its end
    have hrest : r.rest.length = r.data.len - r.iret := rest_length
    have hrest₁ : r₁.rest.length = r.data.len - i := rest_length
    have hm : r.measure = 4 * (r.stream.length + r.rest.length) + weight r.pc := rfl
    have hm₁ : r₁.measure = 4 * (r.stream.length + r₁.rest.length) + weight r.pc := by
      rw [measure, hstream]
    have hlo := hinv.shape.read_lo
    rcases hfound.less with hless | ⟨hshort, hless⟩
    · omega
    · change t < _ at hshort
      rcases hfull with hfull | hfull
      · omega
      · rw [hblen] at hfull
        omega

/-! ## The copy of the payload -/

/-- Copying `k` more bytes of the chunk to the packet buffer, when the read
buffer holds nothing behind the frame. -/
theorem copy_ok {r : Recv} {n hd body : List UInt8} {k : Nat}
    (h : InFrame r.ps n hd body) (hp : r.ps.parsetype = .head) (hi : r.iret ≤ r.data.len)
    (hk : k ≤ r.rest.length) (hlt : r.ps.getdatalen < r.ps.theNexPacket.datalen.toNat + 1)
    (hfit : r.ps.getdatalen + k ≤ r.ps.theNexPacket.datalen.toNat + 1) :
    ∃ b : Block, b.len = r.ps.threadPacketdata.len ∧
      r.data.read r.iret k = .ok (r.rest.take k) ∧
      r.ps.threadPacketdata.write r.ps.getdatalen (r.rest.take k) = .ok b ∧
      InFrame { r.ps with threadPacketdata := b, getdatalen := r.ps.getdatalen + k }
        n hd body ∧
      ∀ pc, Recv.stream { r with
        pc := pc
        ps := { r.ps with threadPacketdata := b, getdatalen := r.ps.getdatalen + k }
        iret := r.iret + k } = r.stream := by
  have hsrc : (r.rest.take k).length = k := by
    rw [List.length_take]
    omega
  have hroom := h.room
  obtain ⟨b, hw, hblen, hinit, htake⟩ :=
    Block.write_take (b := r.ps.threadPacketdata) (o := r.ps.getdatalen)
      (l := r.rest.take k) (by omega) h.got_init
  rw [hsrc] at hinit htake
  obtain ⟨extra, hext, hshort⟩ : ∃ extra, r.ps.gotBytes = body ++ extra ∧
      body.length < r.ps.theNexPacket.datalen.toNat + 1 := by
    rcases h.split with ⟨_, _, hgot⟩ | hext
    · omega
    · exact hext
  have hframe : InFrame
      { r.ps with threadPacketdata := b, getdatalen := r.ps.getdatalen + k } n hd body :=
    { toHeaded := { h.toHeaded with }
      small := h.small
      got_le := hfit
      room := hblen ▸ hroom
      got_init := hinit
      split := Or.inr ⟨extra ++ r.rest.take k, by
        rw [← List.append_assoc, ← hext]
        exact htake, hshort⟩ }
  have hnil := h.drop_eq_nil hlt
  have hnil' : body.drop (r.ps.getdatalen + k) = [] := by
    rw [← List.drop_drop, hnil, List.drop_nil]
  refine ⟨b, hblen, read_rest_take hi hk, hw, hframe, fun pc => ?_⟩
  rw [stream_of_head (r := { r with
    pc := pc
    ps := { r.ps with threadPacketdata := b, getdatalen := r.ps.getdatalen + k }
    iret := r.iret + k }) hframe hp, stream_of_head h hp, hnil]
  show n ++ r.ps.head :: (hd ++ (b.init.take (r.ps.getdatalen + k) ++
    (body.drop (r.ps.getdatalen + k) ++ r.data.bytes.drop (r.iret + k)))) = _
  rw [hnil', htake, ← List.drop_drop, List.append_assoc, List.nil_append, List.nil_append]
  show n ++ r.ps.head :: (hd ++ (r.ps.gotBytes ++ (r.rest.take k ++ r.rest.drop k))) = _
  rw [List.take_append_drop]

/-- The point `payload`. -/
theorem takePayload_ok {r : Recv} (hinv : Inv r) (hpc : r.pc = .payload) :
    ∃ r', r.takePayload = .ok r' ∧ Steps r r' [] := by
  have hp := hinv.inside (Or.inl hpc)
  obtain ⟨n, hd, body, hframe⟩ := hinv.frame hp
  have hneed := need_eq hframe.small
  have hsmall := hframe.small
  have hi := hinv.iret_le
  have hdata := r.data.len_lt
  have hrest : r.rest.length = r.data.len - r.iret := rest_length
  -- every branch leaves the stream as it is and goes to a later point
  have hsteps : ∀ r' : Recv, Inv r' → r'.stream = r.stream → r'.out = r.out →
      SameConfig r.ps r'.ps → r'.data = r.data → r.iret ≤ r'.iret →
      weight r'.pc < 2 → Steps r r' [] := by
    intro r' hinv' hstream hout hcfg hdeq hiret hw
    have hrest' : r'.rest.length = r'.data.len - r'.iret := rest_length
    rw [hdeq] at hrest'
    refine ⟨hinv', ?_, ?_, hcfg, hdeq, ?_⟩
    · rw [hstream]
      exact Advance.refl _
    · rw [hout, deliveries_nil, List.append_nil]
    · have hw₂ : weight r.pc = 2 := by rw [hpc]; rfl
      rw [measure, measure, hstream, hw₂]
      omega
  rw [takePayload]
  simp only [hneed, remaining_eq hi]
  by_cases hlt : r.ps.getdatalen < r.ps.theNexPacket.datalen.toNat + 1
  · rw [if_pos hlt, szAdd_eq (by omega)]
    by_cases hpart : r.ps.getdatalen + r.rest.length < r.ps.theNexPacket.datalen.toNat + 1
    · -- the chunk ends inside the frame
      rw [if_pos hpart]
      obtain ⟨b, hblen, hread, hw, hframe', hstream⟩ :=
        copy_ok hframe hp hi (Nat.le_refl _) hlt (by omega)
      rw [hread, ok_bind, hw, ok_bind]
      have hend : r.iret + r.rest.length = r.data.len := by omega
      refine ⟨_, rfl, hsteps _ ?_ ?_ rfl ⟨rfl, rfl, rfl⟩ rfl hi Nat.zero_lt_two⟩
      · exact {
          shape := hinv.shape.of_len rfl hblen hinv.shape.true_le
          iret_le := Nat.le_refl _
          frame := fun _ => ⟨_, _, _, hframe'⟩
          inside := fun _ => hp
          complete := fun h => by cases h
          waiting := fun _ _ => hpart
          drained := fun _ => ⟨rfl, fun h => by rw [hp] at h; cases h⟩ }
      · have := hstream .done
        rwa [hend] at this
    · -- the chunk holds the rest of the frame
      rw [if_neg hpart]
      have hmissing : szSub (r.ps.theNexPacket.datalen.toNat + 1) r.ps.getdatalen =
          r.ps.theNexPacket.datalen.toNat + 1 - r.ps.getdatalen :=
        szSub_eq (by omega) (by omega)
      obtain ⟨b, hblen, hread, hw, hframe', hstream⟩ :=
        copy_ok (k := r.ps.theNexPacket.datalen.toNat + 1 - r.ps.getdatalen)
          hframe hp hi (by omega) hlt (by omega)
      have hall : r.ps.getdatalen +
          (r.ps.theNexPacket.datalen.toNat + 1 - r.ps.getdatalen) =
            r.ps.theNexPacket.datalen.toNat + 1 := by omega
      rw [hall] at hframe' hstream
      rw [hmissing, hread, ok_bind, hw, ok_bind, szAdd_eq (by omega)]
      refine ⟨_, rfl, hsteps _ ?_ (hstream .tailTest) rfl ⟨rfl, rfl, rfl⟩ rfl
        (Nat.le_add_right _ _) Nat.one_lt_two⟩
      exact {
        shape := hinv.shape.of_len rfl hblen hinv.shape.true_le
        iret_le := by change r.iret + _ ≤ r.data.len; omega
        frame := fun _ => ⟨_, _, _, hframe'⟩
        inside := fun _ => hp
        complete := fun _ => rfl
        waiting := fun h => by rcases h with h | h <;> cases h
        drained := fun h => by cases h }
  · -- the frame was complete in the read buffer
    rw [if_neg hlt]
    refine ⟨_, rfl, hsteps _ ?_ rfl rfl ⟨rfl, rfl, rfl⟩ rfl (Nat.le_refl _)
      Nat.one_lt_two⟩
    have hgot := hframe.got_le
    exact {
      shape := hinv.shape
      iret_le := hi
      frame := fun _ => ⟨_, _, _, hframe⟩
      inside := fun _ => hp
      complete := fun _ => Nat.le_antisymm hgot (Nat.le_of_not_lt hlt)
      waiting := fun h => by rcases h with h | h <;> cases h
      drained := fun h => by cases h }

/-! ## The tail byte -/

/-- A complete frame with the byte `c` at its tail: the stream behind the
head byte, and what the scanner looks at in it. -/
structure Complete (r : Recv) (n hd body : List UInt8) (c : UInt8) : Prop where
  frame : InFrame r.ps n hd body
  got_eq : r.ps.getdatalen = r.ps.theNexPacket.datalen.toNat + 1
  tail_get : r.ps.threadPacketdata.get r.ps.theNexPacket.datalen.toNat = .ok c
  stream_eq : r.stream = n ++ r.ps.head :: (hd ++ (r.ps.gotBytes ++
    (body.drop (r.ps.theNexPacket.datalen.toNat + 1) ++ r.rest)))
  tail_byte : r.ps.gotBytes[r.ps.theNexPacket.datalen.toNat]? = some c

theorem complete_ok {r : Recv} (hinv : Inv r) (hpc : r.pc = .tailTest) :
    ∃ n hd body c, Complete r n hd body c := by
  have hp := hinv.inside (Or.inr hpc)
  obtain ⟨n, hd, body, hframe⟩ := hinv.frame hp
  have hgot := hinv.complete hpc
  have hlen := hframe.got_length
  have hlt : r.ps.theNexPacket.datalen.toNat < r.ps.gotBytes.length := by omega
  have hbyte : r.ps.gotBytes[r.ps.theNexPacket.datalen.toNat]? =
      some r.ps.gotBytes[r.ps.theNexPacket.datalen.toNat] := List.getElem?_eq_getElem hlt
  have hinit : r.ps.threadPacketdata.init[r.ps.theNexPacket.datalen.toNat]? =
      some r.ps.gotBytes[r.ps.theNexPacket.datalen.toNat] := by
    rw [← hbyte, gotBytes, List.getElem?_take, if_pos (by omega)]
  exact ⟨n, hd, body, _, hframe, hgot, Block.get_eq hinit, hgot ▸ stream_of_head hframe hp,
    hbyte⟩

namespace Complete

variable {r : Recv} {n hd body : List UInt8} {c : UInt8}

/-- The bytes behind the head byte. -/
theorem header_eq (h : Complete r n hd body c) (s : List UInt8) :
    charToNetPacket (hd ++ s) = r.ps.theNexPacket := by
  rw [charToNetPacket_append (Nat.le_of_eq h.frame.hd_length.symm), h.frame.packet_eq]

theorem tail_eq (h : Complete r n hd body c) (s : List UInt8) :
    (hd ++ (r.ps.gotBytes ++ s))[headLen + r.ps.theNexPacket.datalen.toNat]? = some c := by
  have hlen := h.frame.got_length
  have hgot := h.got_eq
  rw [List.getElem?_append_right (by rw [h.frame.hd_length]; omega), h.frame.hd_length,
    Nat.add_sub_cancel_left, List.getElem?_append_left (by omega), h.tail_byte]

/-- A wrong tail byte gives back the bytes behind the head byte. -/
theorem advance_reject (h : Complete r n hd body c) (hc : c ≠ r.ps.tail) :
    Advance r.ps.head r.ps.tail r.stream [.reject r.ps.theNexPacket]
      (hd ++ (r.ps.gotBytes ++
        (body.drop (r.ps.theNexPacket.datalen.toNat + 1) ++ r.rest))) := by
  rw [h.stream_eq]
  have hadv := @Advance.badTail r.ps.head r.ps.tail n
    (hd ++ (r.ps.gotBytes ++
      (body.drop (r.ps.theNexPacket.datalen.toNat + 1) ++ r.rest))) c h.frame.noise
    (by rw [List.length_append, h.frame.hd_length]; omega)
    (by rw [h.header_eq]; exact h.frame.accepts) (by rw [h.header_eq, h.tail_eq]) hc
  rwa [h.header_eq] at hadv

/-- A right tail byte gives the frame, and leaves what lies behind it. -/
theorem advance_frame (h : Complete r n hd body r.ps.tail) :
    Advance r.ps.head r.ps.tail r.stream
      [.frame r.ps.theNexPacket (r.ps.gotBytes.take r.ps.theNexPacket.datalen.toNat)]
      (body.drop (r.ps.theNexPacket.datalen.toNat + 1) ++ r.rest) := by
  have hlen : r.ps.gotBytes.length = r.ps.theNexPacket.datalen.toNat + 1 :=
    h.frame.got_length.trans h.got_eq
  have hdata : ∀ x, ((hd ++ (r.ps.gotBytes ++ x)).drop headLen).take
      r.ps.theNexPacket.datalen.toNat =
        r.ps.gotBytes.take r.ps.theNexPacket.datalen.toNat := by
    intro x
    rw [← h.frame.hd_length, List.drop_left, List.take_append_of_le_length (by omega)]
  have hbehind : ∀ x, (hd ++ (r.ps.gotBytes ++ x)).drop
      (headLen + r.ps.theNexPacket.datalen.toNat + 1) = x := by
    intro x
    rw [Nat.add_assoc, ← h.frame.hd_length, ← hlen, ← List.drop_drop, List.drop_left,
      List.drop_left]
  rw [h.stream_eq]
  have hadv := @Advance.frame r.ps.head r.ps.tail n
    (hd ++ (r.ps.gotBytes ++
      (body.drop (r.ps.theNexPacket.datalen.toNat + 1) ++ r.rest))) h.frame.noise
    (by rw [List.length_append, h.frame.hd_length]; omega)
    (by rw [h.header_eq]; exact h.frame.accepts) (by rw [h.header_eq, h.tail_eq])
  rwa [h.header_eq, hdata, hbehind] at hadv

end Complete

/-- Leaving the frame: the framer goes back to the loop test with fewer
bytes to decide. -/
theorem Steps.of_leave {r r' : Recv} {evs : List ScanEvent} (hpc : r.pc = .tailTest)
    (hs : Shape r'.ps) (hi : r'.iret ≤ r'.data.len) (hpc' : r'.pc = .loopTest)
    (hp' : r'.ps.parsetype = .nothing)
    (hadv : Advance r.ps.head r.ps.tail r.stream evs (r'.ps.readBytes ++ r.rest))
    (hout : r'.out = r.out ++ deliveries r.ps.packetCb evs) (hcfg : SameConfig r.ps r'.ps)
    (hdata : r'.data = r.data) (hiret : r'.iret = r.iret) (hne : evs ≠ []) :
    Steps r r' evs := by
  have hrest : r'.rest = r.rest := by rw [rest, rest, hdata, hiret]
  rw [← hrest, ← stream_of_nothing hp'] at hadv
  refine ⟨.of_nothing hs hi hpc' hp', hadv, hout, hcfg, hdata, ?_⟩
  have hless := hadv.length_lt hne
  have hw : weight r.pc = 1 := by rw [hpc]; rfl
  have hw' : weight r'.pc = 3 := by rw [hpc']; rfl
  rw [measure, measure, hw, hw', hrest]
  omega

/-- The tail byte is wrong. -/
theorem rejectTail_ok {r : Recv} {n hd body : List UInt8} {c : UInt8} (hinv : Inv r)
    (hpc : r.pc = .tailTest) (h : Complete r n hd body c) (hc : c ≠ r.ps.tail) :
    ∃ r', r.rejectTail = .ok r' ∧ Steps r r' [.reject r.ps.theNexPacket] := by
  have hL : headLen = 8 := rfl
  have hs := hinv.shape
  have hlt := hs.true_lt
  have htrue := h.frame.true_eq hs
  have hsmall := h.frame.small
  have hadv := h.advance_reject hc
  have hoff : szAdd n.length 1 = n.length + 1 := szAdd_eq (by omega)
  have hread : r.ps.readBytes.drop (n.length + 1) = hd ++ body := by
    rw [h.frame.read_eq, ← List.drop_drop, List.drop_left]
    rfl
  rw [rejectTail]
  simp only [need_eq hsmall, h.frame.buffered_eq hs, h.frame.headpos_eq, hoff]
  by_cases hle : r.ps.theNexPacket.datalen.toNat + 1 ≤ body.length
  · -- the whole frame is in the read buffer
    rw [if_pos hle]
    have hafter : szSub (szSub r.ps.truepacketlen n.length) 1 = headLen + body.length := by
      rw [szSub_eq (a := r.ps.truepacketlen) (by omega) (by omega),
        szSub_eq (by omega) (by omega)]
      omega
    have hafter' : szSub r.ps.truepacketlen (n.length + 1) = headLen + body.length := by
      rw [szSub_eq (by omega) (by omega)]
      omega
    obtain ⟨b, hmove, hblen, hinit, htake⟩ :=
      Block.memmove_drop (b := r.ps.threadReaddata) (o := n.length + 1)
        (t := r.ps.truepacketlen) (by omega) hs.true_le
    rw [show r.ps.truepacketlen - (n.length + 1) = headLen + body.length by omega]
      at hmove hinit htake
    change _ = r.ps.readBytes.drop (n.length + 1) at htake
    rw [hread] at htake
    rw [hafter, hafter', hmove, ok_bind]
    obtain ⟨more, hmore, hgot⟩ := h.frame.more_of_le hle
    have hbody : r.ps.gotBytes ++ body.drop (r.ps.theNexPacket.datalen.toNat + 1) = body := by
      rw [← hgot, ← h.frame.got_length]
      conv_lhs => rw [hmore, List.drop_left]
      exact hmore.symm
    refine ⟨_, rfl, .of_leave hpc (hs.of_len hblen rfl hinit)
      hinv.iret_le rfl rfl ?_ ?_ ⟨rfl, rfl, rfl⟩ rfl rfl (List.cons_ne_nil _ _)⟩
    · show Advance _ _ _ _ (b.init.take (headLen + body.length) ++ r.rest)
      rw [htake, List.append_assoc]
      rwa [← List.append_assoc r.ps.gotBytes, hbody] at hadv
    · rw [deliveries_reject, List.append_nil]
  · -- the read buffer gets the header and the packet buffer
    rw [if_neg hle]
    have hgot := h.got_eq
    have hlen := h.frame.got_length
    have hsize : szAdd (szAdd headLen r.ps.theNexPacket.datalen.toNat) 1 =
        headLen + r.ps.theNexPacket.datalen.toNat + 1 := by
      rw [szAdd_eq (a := headLen) (by omega), szAdd_eq (by omega)]
    have hnew : szAdd headLen (r.ps.theNexPacket.datalen.toNat + 1) =
        headLen + (r.ps.theNexPacket.datalen.toNat + 1) := szAdd_eq (by omega)
    rw [hsize, hnew]
    have hlo := hs.read_lo
    have hhi := hs.read_hi
    obtain ⟨b₀, hb₀, hinit₀, hlo₀, hhi₀, hsize₀⟩ : ∃ b₀ : Block,
        (if r.ps.threadReaddata.len < headLen + r.ps.theNexPacket.datalen.toNat + 1 then
          r.ps.threadReaddata.realloc (headLen + r.ps.theNexPacket.datalen.toNat + 1)
          else r.ps.threadReaddata) = b₀ ∧
        b₀.init = r.ps.threadReaddata.init ∧ bufferSize ≤ b₀.len ∧
        b₀.len ≤ 2 ^ 31 + 7 ∧ headLen + r.ps.theNexPacket.datalen.toNat + 1 ≤ b₀.len := by
      refine ⟨_, rfl, ?_⟩
      split
      · rw [Block.realloc_init_of_le (by omega), Block.realloc_len]
        refine ⟨rfl, ?_, ?_, Nat.le_refl _⟩ <;> omega
      · refine ⟨rfl, hlo, hhi, ?_⟩
        omega
    obtain ⟨b₁, hmove, hb₁len, hinit₁, htake₁⟩ :=
      Block.memmove_take (b := b₀) (o := n.length + 1) (n := headLen)
        (t := r.ps.truepacketlen) (by omega) (hinit₀ ▸ hs.true_le)
    rw [hinit₀] at htake₁
    change _ = (r.ps.readBytes.drop (n.length + 1)).take headLen at htake₁
    rw [hread, ← h.frame.hd_length, List.take_left] at htake₁
    have hcopy : r.ps.threadPacketdata.read 0 (r.ps.theNexPacket.datalen.toNat + 1) =
        .ok r.ps.gotBytes := by
      rw [← hgot, Block.read_take (Nat.le_of_eq (Nat.zero_add _)) h.frame.got_init,
        List.drop_zero, List.take_take, Nat.min_self]
      rfl
    obtain ⟨b₂, hw, hb₂len, hinit₂, htake₂⟩ :=
      Block.write_take (b := b₁) (o := headLen) (l := r.ps.gotBytes) (by omega) hinit₁
    rw [hlen, hgot] at hinit₂ htake₂
    rw [hb₀, hmove, ok_bind, hcopy, ok_bind, hw, ok_bind]
    have hnil : body.drop (r.ps.theNexPacket.datalen.toNat + 1) = [] :=
      List.drop_eq_nil_of_le (by omega)
    rw [hnil, List.nil_append] at hadv
    refine ⟨_, rfl, .of_leave hpc ⟨?_, ?_, hinit₂, hs.packet_hi⟩ hinv.iret_le rfl rfl ?_ ?_
      ⟨rfl, rfl, rfl⟩ rfl rfl (List.cons_ne_nil _ _)⟩
    · rw [hb₂len, hb₁len]
      exact hlo₀
    · rw [hb₂len, hb₁len]
      exact hhi₀
    · show Advance _ _ _ _
        (b₂.init.take (headLen + (r.ps.theNexPacket.datalen.toNat + 1)) ++ r.rest)
      rw [htake₂, ← h.frame.hd_length, htake₁, List.append_assoc]
      exact hadv
    · rw [deliveries_reject, List.append_nil]

/-- The callback gets the payload. -/
theorem callPacketCb_ok {ps : PacketSync} {n hd body : List UInt8}
    (h : InFrame ps n hd body) (hgot : ps.getdatalen = ps.theNexPacket.datalen.toNat + 1)
    (out : List Delivery) :
    callPacketCb ps out = .ok (out ++ deliveries ps.packetCb
      [.frame ps.theNexPacket (ps.gotBytes.take ps.theNexPacket.datalen.toNat)]) := by
  rw [callPacketCb]
  cases ps.packetCb with
  | none =>
    show Except.ok out = .ok (out ++ [])
    rw [List.append_nil]
  | some userdata =>
    simp only
    rw [Block.read_take (t := ps.getdatalen) (by omega) h.got_init, List.drop_zero]
    rfl

/-- What lies behind the frame moves to the front of the read buffer. -/
theorem dropFrame_ok {ps : PacketSync} {n hd body : List UInt8} (hs : Shape ps)
    (h : InFrame ps n hd body) :
    ∃ (b : Block) (t : Nat),
      dropFrame ps = .ok { ps with threadReaddata := b, truepacketlen := t } ∧
      Shape { ps with threadReaddata := b, truepacketlen := t } ∧
      b.init.take t = body.drop (ps.theNexPacket.datalen.toNat + 1) := by
  have hL : headLen = 8 := rfl
  have hlt := hs.true_lt
  have htrue := h.true_eq hs
  have hsmall := h.small
  have hnext : szAdd (szAdd (szAdd n.length headLen) ps.theNexPacket.datalen.toNat) 2 =
      n.length + headLen + ps.theNexPacket.datalen.toNat + 2 := by
    rw [szAdd_eq (a := n.length) (by omega), szAdd_eq (a := n.length + headLen) (by omega),
      szAdd_eq (by omega)]
  rw [dropFrame]
  simp only [need_eq hsmall, h.buffered_eq hs, h.headpos_eq, hnext]
  by_cases hle : ps.theNexPacket.datalen.toNat + 1 ≤ body.length
  · obtain ⟨b, hmove, hblen, hinit, htake⟩ :=
      Block.memmove_drop (b := ps.threadReaddata)
        (o := n.length + headLen + ps.theNexPacket.datalen.toNat + 2)
        (t := ps.truepacketlen) (by omega) hs.true_le
    have hafter : szSub ps.truepacketlen
        (n.length + headLen + ps.theNexPacket.datalen.toNat + 2) =
          ps.truepacketlen - (n.length + headLen + ps.theNexPacket.datalen.toNat + 2) :=
      szSub_eq (by omega) (by omega)
    have hread : ps.readBytes.drop
        (n.length + headLen + ps.theNexPacket.datalen.toNat + 2) =
          body.drop (ps.theNexPacket.datalen.toNat + 1) := by
      rw [h.read_eq, show n.length + headLen + ps.theNexPacket.datalen.toNat + 2 =
        n.length + (headLen + (ps.theNexPacket.datalen.toNat + 1) + 1) by omega,
        ← List.drop_drop, List.drop_left, List.drop_succ_cons, ← h.hd_length,
        ← List.drop_drop, List.drop_left]
    rw [if_pos hle, hafter, hmove, ok_bind]
    refine ⟨b, _, by rw [← h.headpos_eq]; rfl,
      (hs.of_len hblen rfl hinit), ?_⟩
    rw [← hread]
    exact htake
  · rw [if_neg hle, List.drop_eq_nil_of_le (by omega)]
    exact ⟨_, 0, by rw [← h.headpos_eq]; rfl, (hs.of_len rfl rfl (Nat.zero_le _)), rfl⟩

/-- The tail byte is right. -/
theorem deliver_ok {r : Recv} {n hd body : List UInt8} (hinv : Inv r)
    (hpc : r.pc = .tailTest) (h : Complete r n hd body r.ps.tail) :
    ∃ r', r.deliver = .ok r' ∧
      Steps r r' [.frame r.ps.theNexPacket
        (r.ps.gotBytes.take r.ps.theNexPacket.datalen.toNat)] := by
  obtain ⟨b, t, hdrop, hshape, htake⟩ := dropFrame_ok hinv.shape h.frame
  -- the callback looks at the packet buffer only
  have hcall := callPacketCb_ok h.frame h.got_eq r.out
  change callPacketCb { r.ps with threadReaddata := b, truepacketlen := t } r.out = _
    at hcall
  rw [deliver, hdrop, ok_bind, hcall, ok_bind]
  refine ⟨_, rfl, .of_leave hpc (hshape.of_len rfl rfl hshape.true_le)
    hinv.iret_le rfl rfl ?_ rfl ⟨rfl, rfl, rfl⟩ rfl rfl (List.cons_ne_nil _ _)⟩
  show Advance _ _ _ _ (b.init.take t ++ r.rest)
  rw [htake]
  exact h.advance_frame

/-! ## One step -/

/-- A call that has returned stays where it is. -/
theorem step_done {r : Recv} (h : r.pc = .done) : r.step = .ok r := by
  rw [step, h]

/-- Everything that a step does when the header it accepts is small. -/
theorem step_ok {r : Recv} (hinv : Inv r) (hpc : r.pc ≠ .done) (hsmall : SmallHead r) :
    ∃ r' evs, r.step = .ok r' ∧ Steps r r' evs := by
  rw [step]
  cases hr : r.pc with
  | done => exact absurd hr hpc
  | payload =>
    obtain ⟨r', hr', hsteps⟩ := takePayload_ok hinv hr
    exact ⟨r', [], hr', hsteps⟩
  | tailTest =>
    obtain ⟨n, hd, body, c, hc⟩ := complete_ok hinv hr
    simp only [hc.tail_get, ok_bind]
    by_cases hne : c = r.ps.tail
    · subst hne
      obtain ⟨r', hr', hsteps⟩ := deliver_ok hinv hr hc
      exact ⟨r', _, by rw [if_neg (not_not_intro rfl), hr'], hsteps⟩
    · obtain ⟨r', hr', hsteps⟩ := rejectTail_ok hinv hr hc hne
      exact ⟨r', _, by rw [if_pos hne, hr'], hsteps⟩
  | loopTest =>
    simp only
    by_cases hmore : r.iret < r.data.len ∨ headLen + 2 ≤ r.ps.truepacketlen
    · rw [if_pos hmore]
      cases hp : r.ps.parsetype with
      | nothing =>
        obtain ⟨r', hr', hsteps⟩ := parseNothing_ok hinv hr hp hmore hsmall
        exact ⟨r', [], hr', hsteps⟩
      | head =>
        refine ⟨_, [], rfl, ?_, Advance.refl _, by rw [deliveries_nil, List.append_nil],
          SameConfig.refl _, rfl, ?_⟩
        · exact {
            shape := hinv.shape
            iret_le := hinv.iret_le
            frame := hinv.frame
            inside := fun _ => hp
            complete := fun h => by cases h
            waiting := fun h => by rcases h with h | h <;> cases h
            drained := fun h => by cases h }
        · rw [measure, measure, hr]
          show 4 * (r.stream.length + r.rest.length) + 2 <
            4 * (r.stream.length + r.rest.length) + 3
          omega
    · rw [if_neg hmore]
      rw [not_or, not_lt, not_le] at hmore
      refine ⟨_, [], rfl, ?_, Advance.refl _, by rw [deliveries_nil, List.append_nil],
        SameConfig.refl _, rfl, ?_⟩
      · exact {
          shape := hinv.shape
          iret_le := hinv.iret_le
          frame := hinv.frame
          inside := fun h => by rcases h with h | h <;> cases h
          complete := fun h => by cases h
          waiting := fun _ => hinv.waiting (Or.inl hr)
          drained := fun _ =>
            ⟨Nat.le_antisymm hinv.iret_le hmore.1, fun _ => hmore.2⟩ }
      · rw [measure, measure, hr]
        show 4 * (r.stream.length + r.rest.length) + 0 <
          4 * (r.stream.length + r.rest.length) + 3
        omega

end Recv

end OCServer
