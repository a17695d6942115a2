import OCServer.Lib.Merge
import OCServer.PacketSync.Step

/-!
# Whole runs of the framer

`recvdata_ok` joins the steps of one call of `recvdata`: on a sane stream
the loop ends, and the call decides what the reference scanner decides.
`recvAll_decides` is the same for any list of chunks.

The results about a freshly constructed framer follow: it delivers the
frames that `scan` finds in the concatenation of the chunks, and on the
output of `PacketData` it delivers the packets that were encoded.
-/

namespace OCServer

open MachineInt Loop PacketSync

namespace Recv

/-- What holds after some steps of a call that started in `r₀`. -/
structure Going (r₀ r : Recv) (evs : List ScanEvent) : Prop where
  inv : Inv r
  advances : Advances r₀.ps.head r₀.ps.tail r₀.stream evs r.stream
  out_eq : r.out = r₀.out ++ deliveries r₀.ps.packetCb evs
  config : SameConfig r₀.ps r.ps
  data_eq : r.data = r₀.data

theorem Going.refl {r : Recv} (h : Inv r) : Going r r [] :=
  ⟨h, .refl _, by rw [deliveries_nil, List.append_nil], SameConfig.refl _, rfl⟩

/-- One more step. -/
theorem Going.step {r₀ r r' : Recv} {evs evs' : List ScanEvent} (h : Going r₀ r evs)
    (hs : Steps r r' evs') : Going r₀ r' (evs ++ evs') where
  inv := hs.inv
  advances := by
    have hadv := hs.advance
    rw [h.config.head_eq, h.config.tail_eq] at hadv
    have hone := Advances.step hadv (.refl _)
    rw [List.append_nil] at hone
    exact h.advances.trans hone
  out_eq := by
    rw [hs.out_eq, h.out_eq, h.config.cb_eq, deliveries_append, List.append_assoc]
  config := h.config.trans hs.config
  data_eq := hs.data_eq.trans h.data_eq

/-- The next header stays small along a sane stream. -/
theorem Going.smallHead {r₀ r : Recv} {evs : List ScanEvent} (h : Going r₀ r evs)
    (hsane : Sane r₀.ps.head r₀.ps.tail r₀.stream) : SmallHead r := by
  apply smallHead_of_sane
  rw [h.config.head_eq, h.config.tail_eq]
  exact h.advances.sane hsane

/-- The loop ends on a sane stream, for any fuel from the measure up. -/
theorem iterate_ok {r₀ : Recv} (hinv : Inv r₀)
    (hsane : Sane r₀.ps.head r₀.ps.tail r₀.stream) {fuel : Nat}
    (hfuel : r₀.measure ≤ fuel) :
    ∃ r evs, iterate Recv.step fuel r₀ = .ok r ∧ Going r₀ r evs ∧ r.pc = .done := by
  obtain ⟨r, hr, ⟨evs, hgoing⟩, hdone⟩ :=
    iterate_done (fun r => ∃ evs, Going r₀ r evs) (fun r => r.pc = .done) measure
      (fun _ => step_done)
      (by
        rintro r ⟨evs, hgoing⟩ hne
        obtain ⟨r', evs', hstep, hsteps⟩ := step_ok hgoing.inv hne (hgoing.smallHead hsane)
        exact ⟨r', hstep, ⟨_, hgoing.step hsteps⟩, hsteps.less⟩)
      fuel r₀ ⟨[], .refl hinv⟩ hfuel
  exact ⟨r, evs, hr, hgoing, hdone⟩

end Recv

namespace PacketSync

/-- A call starts in a state that keeps the invariant of the machine. -/
theorem Inv.enter {ps : PacketSync} (h : Inv ps) (data : Chunk) :
    Recv.Inv (Recv.enter ps data) where
  shape := h.shape
  iret_le := Nat.zero_le _
  frame hp := by
    obtain ⟨n, hd, body, hframe, _⟩ := h.frame hp
    exact ⟨n, hd, body, hframe⟩
  inside hpc := by rcases hpc with hpc | hpc <;> cases hpc
  complete hpc := by cases hpc
  waiting _ hp := by
    obtain ⟨_, _, _, _, hlt⟩ := h.frame hp
    exact hlt
  drained hpc := by cases hpc

/-- A call that has returned leaves the invariant between two calls. -/
theorem Inv.of_done {r : Recv} (h : Recv.Inv r) (hpc : r.pc = .done) : Inv r.ps where
  shape := h.shape
  frame hp := by
    obtain ⟨n, hd, body, hframe⟩ := h.frame hp
    exact ⟨n, hd, body, hframe, h.waiting (Or.inr hpc) hp⟩
  settled := (h.drained hpc).2

/-- The undecided bytes are not more than the two buffers count. -/
theorem Inv.pending_length {ps : PacketSync} (h : Inv ps) :
    ps.pending.length ≤ ps.truepacketlen + ps.getdatalen := by
  cases hp : ps.parsetype with
  | nothing =>
    rw [pending_of_nothing hp, h.shape.readBytes_length]
    omega
  | head =>
    obtain ⟨n, hd, body, hframe, hlt⟩ := h.frame hp
    have htrue := hframe.true_eq h.shape
    rw [hframe.pending_eq hp, hframe.drop_eq_nil hlt]
    simp only [List.length_append, List.length_cons, hframe.hd_length, hframe.got_length,
      List.length_nil]
    omega

/-- The fuel of `recvdata` covers the measure of its first state. -/
theorem Inv.measure_le {ps : PacketSync} (h : Inv ps) (data : Chunk) :
    (Recv.enter ps data).measure ≤ ps.fuel data := by
  have hle := h.pending_length
  have hstream : (Recv.enter ps data).stream.length = ps.pending.length + data.len := by
    rw [Recv.stream, List.length_append, Recv.rest_length]
    rfl
  have hrest : (Recv.enter ps data).rest.length = data.len := Recv.rest_length
  have hw : Recv.weight (Recv.enter ps data).pc = 3 := rfl
  rw [Recv.measure, hstream, hrest, hw, fuel]
  omega

/-- One call of `recvdata` on a sane stream. -/
theorem recvdata_ok {ps : PacketSync} (data : Chunk) (hinv : Inv ps)
    (hsane : Sane ps.head ps.tail (ps.pending ++ data.bytes)) :
    ∃ ps' evs, ps.recvdata data = .ok (ps', deliveries ps.packetCb evs) ∧ Inv ps' ∧
      SameConfig ps ps' ∧
      Advances ps.head ps.tail (ps.pending ++ data.bytes) evs ps'.pending := by
  obtain ⟨r, evs, hr, hgoing, hdone⟩ :=
    Recv.iterate_ok (hinv.enter data) hsane (hinv.measure_le data)
  have hrest : r.rest = [] := by
    apply List.drop_eq_nil_of_le
    rw [(hgoing.inv.drained hdone).1]
  have hadv := hgoing.advances
  rw [Recv.stream, Recv.stream, hrest, List.append_nil] at hadv
  refine ⟨r.ps, evs, ?_, .of_done hgoing.inv hdone, hgoing.config, hadv⟩
  rw [recvdata, hr, ok_bind, if_pos hdone, hgoing.out_eq]
  rfl

/-- Between two calls nothing more can be decided. -/
theorem Inv.quiet {ps : PacketSync} (h : Inv ps) :
    (scan ps.head ps.tail ps.pending).1 = [] := by
  cases hp : ps.parsetype with
  | nothing =>
    rw [pending_of_nothing hp]
    exact scan_events_of_short (by rw [h.shape.readBytes_length]; exact h.settled hp)
  | head =>
    obtain ⟨n, hd, body, hframe, hlt⟩ := h.frame hp
    have hheader : charToNetPacket (hd ++ ps.gotBytes) = ps.theNexPacket := by
      rw [charToNetPacket_append (Nat.le_of_eq hframe.hd_length.symm), hframe.packet_eq]
    rw [hframe.pending_eq hp, hframe.drop_eq_nil hlt, List.append_nil,
      scan_noise hframe.noise, scan_wait]
    · rw [List.length_append, hframe.hd_length]
      omega
    · rw [hheader]
      exact hframe.accepts
    · rw [hheader, List.length_append, hframe.hd_length, hframe.got_length]
      omega

/-- The bytes of some chunks, in order. -/
def concat (chunks : List Chunk) : List UInt8 := (chunks.map Chunk.bytes).flatten

/-- Any number of calls of `recvdata` on a sane stream. -/
theorem recvAll_decides {ps : PacketSync} (chunks : List Chunk) (hinv : Inv ps)
    (hsane : Sane ps.head ps.tail (ps.pending ++ concat chunks)) :
    ∃ ps' evs, ps.recvAll chunks = .ok (ps', deliveries ps.packetCb evs) ∧ Inv ps' ∧
      SameConfig ps ps' ∧
      Advances ps.head ps.tail (ps.pending ++ concat chunks) evs ps'.pending := by
  obtain ⟨ps', evs, hrun, ⟨hinv', hcfg⟩, hadv⟩ :=
    Incremental.feedAll_decides (decider ps.head ps.tail) (deliveries ps.packetCb)
      Chunk.bytes recvdata (fun st => Inv st ∧ SameConfig ps st) pending
      (Sane ps.head ps.tail) (deliveries_nil _) (deliveries_append _)
      (fun _ _ => sane_left) (fun h => Advances.sane h)
      (by
        rintro st c ⟨hst, hcfg⟩ hs
        rw [← hcfg.head_eq, ← hcfg.tail_eq] at hs
        obtain ⟨st', evs, hfeed, hst', hcfg', hadv⟩ := recvdata_ok c hst hs
        rw [hcfg.cb_eq] at hfeed
        rw [hcfg.head_eq, hcfg.tail_eq] at hadv
        exact ⟨st', evs, hfeed, ⟨hst', hcfg.trans hcfg'⟩, hadv⟩)
      chunks ps ⟨hinv, SameConfig.refl ps⟩ hsane
  exact ⟨ps', evs, hrun, hinv', hcfg, hadv⟩

/-! ## A fresh framer -/

/-- A freshly constructed framer with its callback. -/
def fresh (uninit : NetPacket) (head tail : UInt8) (userdata : Nat) : PacketSync :=
  ((new uninit).setHaT head tail).setPacketCB userdata

/-- A framer that holds no byte keeps the invariant. -/
theorem inv_fresh (uninit : NetPacket) (head tail : UInt8) (userdata : Nat) :
    Inv (fresh uninit head tail userdata) where
  shape := ⟨Nat.le_refl _, by show bufferSize ≤ _; decide, Nat.zero_le _,
    by show bufferSize ≤ _; decide⟩
  frame hp := by cases hp
  settled _ := Nat.zero_lt_succ _

@[simp] theorem pending_fresh (uninit : NetPacket) (head tail : UInt8) (userdata : Nat) :
    (fresh uninit head tail userdata).pending = [] := rfl

/-- The calls of the callback for the frames that `scan` finds. -/
def scanned (userdata : Nat) (head tail : UInt8) (s : List UInt8) : List Delivery :=
  deliveries (some userdata) (scan head tail s).1

/-- A fresh framer delivers the frames that the scanner finds. -/
theorem recvAll_fresh (uninit : NetPacket) (head tail : UInt8) (userdata : Nat)
    (chunks : List Chunk) (hsane : Sane head tail (concat chunks)) :
    ∃ ps, (fresh uninit head tail userdata).recvAll chunks =
      .ok (ps, scanned userdata head tail (concat chunks)) := by
  obtain ⟨ps, evs, hrun, hinv, hcfg, hadv⟩ :=
    recvAll_decides chunks (inv_fresh uninit head tail userdata) hsane
  have hquiet := hinv.quiet
  rw [hcfg.head_eq, hcfg.tail_eq] at hquiet
  have hscan := hadv.scan
  rw [hquiet, List.append_nil] at hscan
  refine ⟨ps, ?_⟩
  rw [hrun, scanned]
  show Except.ok (ps, deliveries (some userdata) evs) = _
  exact congrArg (fun e => Except.ok (ps, deliveries (some userdata) e))
    (congrArg Prod.fst hscan).symm

/-- On every sane byte string and every cut into chunks, every call of
`recvdata` returns, and the packets delivered so far are those that `scan`
finds in the chunks so far.  Two cuts deliver the same packets. -/
theorem recvAll_eq_scan (uninit : NetPacket) (head tail : UInt8) (userdata : Nat)
    (s : List UInt8) (hsane : Sane head tail s) :
    (∀ chunks, concat chunks = s → ∀ k,
      ∃ ps, (fresh uninit head tail userdata).recvAll (chunks.take k) =
        .ok (ps, scanned userdata head tail (concat (chunks.take k)))) ∧
    ∀ chunks chunks', concat chunks = s → concat chunks' = s →
      ∃ ps ps' out, (fresh uninit head tail userdata).recvAll chunks = .ok (ps, out) ∧
        (fresh uninit head tail userdata).recvAll chunks' = .ok (ps', out) := by
  constructor
  · intro chunks hs k
    apply recvAll_fresh
    have hsplit : concat chunks = concat (chunks.take k) ++ concat (chunks.drop k) := by
      rw [concat, concat, concat, ← List.flatten_append, ← List.map_append,
        List.take_append_drop]
    rw [← hs, hsplit] at hsane
    exact sane_left hsane
  · intro chunks chunks' hs hs'
    obtain ⟨ps, hps⟩ := recvAll_fresh uninit head tail userdata chunks (by rwa [hs])
    obtain ⟨ps', hps'⟩ := recvAll_fresh uninit head tail userdata chunks' (by rwa [hs'])
    rw [hs] at hps
    rw [hs'] at hps'
    exact ⟨ps, ps', _, hps, hps'⟩

/-- Noise, a header with a wrong tail, and a frame behind it, cut in two. -/
theorem recvAll_eq_scan_noise :
    (∀ chunks, concat chunks = [0xFF, 0x0C, 0x0C, 1, 0x0C, 0xEA, 9, 0, 0, 0, 0, 0xEA] →
      ∀ k, ∃ ps, (fresh (charToNetPacket []) 0x0C 0xEA 7).recvAll (chunks.take k) =
        .ok (ps, scanned 7 0x0C 0xEA (concat (chunks.take k)))) ∧
    ∀ chunks chunks',
      concat chunks = [0xFF, 0x0C, 0x0C, 1, 0x0C, 0xEA, 9, 0, 0, 0, 0, 0xEA] →
      concat chunks' = [0xFF, 0x0C, 0x0C, 1, 0x0C, 0xEA, 9, 0, 0, 0, 0, 0xEA] →
      ∃ ps ps' out, (fresh (charToNetPacket []) 0x0C 0xEA 7).recvAll chunks = .ok (ps, out) ∧
        (fresh (charToNetPacket []) 0x0C 0xEA 7).recvAll chunks' = .ok (ps', out) :=
  recvAll_eq_scan (charToNetPacket []) 0x0C 0xEA 7
    [0xFF, 0x0C, 0x0C, 1, 0x0C, 0xEA, 9, 0, 0, 0, 0, 0xEA] (by decide)

/-! ## The round trip of `PacketData` -/

/-- A packet that fits the framer, with its payload. -/
structure Frame (head tail : UInt8) where
  packet : NetPacket
  data : List UInt8
  accepts : Accepts head tail packet
  length_eq : data.length = packet.datalen.toNat
  small : packet.datalen.toNat < 2 ^ 31 - 1

namespace Frame

variable {head tail : UInt8}

/-- The bytes of a frame on the wire. -/
def encode (f : Frame head tail) : List UInt8 := packetData f.packet f.data

/-- The bytes of some frames, in order. -/
def encodeAll (fs : List (Frame head tail)) : List UInt8 := (fs.map encode).flatten

/-- The event of a frame. -/
def event (f : Frame head tail) : ScanEvent := .frame f.packet f.data

@[simp] theorem encodeAll_nil : encodeAll ([] : List (Frame head tail)) = [] := rfl

/-- The bytes behind the head byte of a frame. -/
def behind (f : Frame head tail) (s : List UInt8) : List UInt8 :=
  netPacketToChar f.packet ++ (f.data ++ tail :: s)

theorem encodeAll_cons (f : Frame head tail) (fs : List (Frame head tail)) :
    encodeAll (f :: fs) = head :: f.behind (encodeAll fs) := by
  have hdata : f.data.take f.packet.datalen.toNat = f.data :=
    List.take_of_length_le (Nat.le_of_eq f.length_eq)
  rw [encodeAll, List.map_cons, List.flatten_cons, encode, packetData, f.accepts.1,
    f.accepts.2, hdata]
  simp only [behind, encodeAll, List.append_assoc, List.cons_append, List.nil_append]

theorem header_behind (f : Frame head tail) (s : List UInt8) :
    charToNetPacket (f.behind s) = f.packet :=
  charToNetPacket_netPacketToChar f.packet _

theorem behind_length (f : Frame head tail) (s : List UInt8) :
    headLen ≤ (f.behind s).length := by
  rw [behind, List.length_append, netPacketToChar_length]
  omega

theorem tail_behind (f : Frame head tail) (s : List UInt8) :
    (f.behind s)[headLen + (charToNetPacket (f.behind s)).datalen.toNat]? = some tail := by
  rw [header_behind, ← f.length_eq, behind, List.getElem?_append_right
    (by rw [netPacketToChar_length]; omega), netPacketToChar_length,
    Nat.add_sub_cancel_left, List.getElem?_append_right (Nat.le_refl _), Nat.sub_self]
  rfl

theorem drop_behind (f : Frame head tail) (s : List UInt8) :
    (f.behind s).drop (headLen + (charToNetPacket (f.behind s)).datalen.toNat + 1) = s := by
  rw [header_behind, ← f.length_eq, Nat.add_assoc, ← List.drop_drop, behind,
    ← netPacketToChar_length f.packet, List.drop_left, ← List.drop_drop, List.drop_left]
  rfl

theorem data_behind (f : Frame head tail) (s : List UInt8) :
    ((f.behind s).drop headLen).take (charToNetPacket (f.behind s)).datalen.toNat =
      f.data := by
  rw [header_behind, ← f.length_eq, behind, ← netPacketToChar_length f.packet,
    List.drop_left, List.take_left]

/-- The scanner finds the frames that were encoded, and nothing is left. -/
theorem scan_encodeAll (fs : List (Frame head tail)) :
    scan head tail (encodeAll fs) = (fs.map event, []) := by
  induction fs with
  | nil => rfl
  | cons f fs ih =>
    rw [encodeAll_cons, scan_frame (f.behind_length _)
      (by rw [header_behind]; exact f.accepts) (f.tail_behind _), drop_behind, data_behind,
      header_behind, ih]
    rfl

/-- The output of `PacketData` is sane. -/
theorem sane_encodeAll (fs : List (Frame head tail)) : Sane head tail (encodeAll fs) := by
  intro p hp
  rw [scanHeads, scan_encodeAll, pendingHead, List.append_nil, List.map_map] at hp
  obtain ⟨f, _, hf⟩ := List.mem_map.mp hp
  rw [← hf]
  exact f.small

/-- One decision about encoded frames leaves encoded frames. -/
theorem advance_encodeAll {s t : List UInt8} {e : List ScanEvent}
    (h : Advance head tail s e t) (fs : List (Frame head tail)) (hs : s = encodeAll fs) :
    ∃ gs : List (Frame head tail), t = encodeAll gs := by
  -- there is no noise in front of a frame
  have hfront : ∀ {n t : List UInt8}, head ∉ n → n ++ t = encodeAll fs → n = [] := by
    intro n t hn heq
    cases n with
    | nil => rfl
    | cons b n =>
      cases fs with
      | nil => cases heq
      | cons f fs =>
        rw [encodeAll_cons, List.cons_append] at heq
        exact absurd (List.mem_cons.mpr (Or.inl (List.cons.inj heq).1.symm)) hn
  cases h with
  | noise n t hn =>
    rw [hfront hn hs] at hs
    exact ⟨fs, hs⟩
  | badHead n t hn hlong hacc =>
    rw [hfront hn hs] at hs
    cases fs with
    | nil => cases hs
    | cons f fs =>
      rw [encodeAll_cons, List.nil_append] at hs
      rw [(List.cons.inj hs).2, header_behind] at hacc
      exact absurd f.accepts hacc
  | badTail n t c hn hlong hacc hc hne =>
    rw [hfront hn hs] at hs
    cases fs with
    | nil => cases hs
    | cons f fs =>
      rw [encodeAll_cons, List.nil_append] at hs
      rw [(List.cons.inj hs).2, tail_behind] at hc
      exact absurd (Option.some.inj hc).symm hne
  | frame n t hn hlong hacc hc =>
    rw [hfront hn hs] at hs
    cases fs with
    | nil => cases hs
    | cons f fs =>
      rw [encodeAll_cons, List.nil_append] at hs
      rw [(List.cons.inj hs).2, drop_behind]
      exact ⟨fs, rfl⟩

/-- Any number of decisions about encoded frames leaves encoded frames. -/
theorem advances_encodeAll {s t : List UInt8} {e : List ScanEvent}
    (h : Advances head tail s e t) :
    ∀ fs : List (Frame head tail), s = encodeAll fs →
      ∃ gs : List (Frame head tail), t = encodeAll gs := by
  induction h with
  | refl s => exact fun fs hs => ⟨fs, hs⟩
  | step hadv _ ih =>
    intro fs hs
    obtain ⟨gs, hgs⟩ := advance_encodeAll hadv fs hs
    exact ih gs hgs

end Frame

/-- A framer with nothing pending is in `PARSE_NOTHING` with an empty read
buffer. -/
theorem Inv.idle {ps : PacketSync} (h : Inv ps) (hp : ps.pending = []) :
    ps.parsetype = .nothing ∧ ps.truepacketlen = 0 := by
  cases hpt : ps.parsetype with
  | nothing =>
    rw [pending_of_nothing hpt] at hp
    exact ⟨rfl, by rw [← h.shape.readBytes_length, hp]; rfl⟩
  | head =>
    obtain ⟨n, hd, body, hframe, _⟩ := h.frame hpt
    rw [hframe.pending_eq hpt] at hp
    exact absurd hp (List.append_ne_nil_of_right_ne_nil _ (List.cons_ne_nil _ _))

/-- What `PacketData` encodes, cut into any chunks, comes out of a fresh
framer packet by packet, and the framer is idle again. -/
theorem recvAll_packetData (uninit : NetPacket) (head tail : UInt8) (userdata : Nat)
    (packets : List (Frame head tail)) (chunks : List Chunk)
    (hchunks : concat chunks = (packets.map fun f => packetData f.packet f.data).flatten) :
    ∃ ps, (fresh uninit head tail userdata).recvAll chunks =
        .ok (ps, packets.map fun f => { userdata, packet := f.packet, data := f.data }) ∧
      ps.parsetype = .nothing ∧ ps.truepacketlen = 0 := by
  have hencode : concat chunks = Frame.encodeAll packets := hchunks
  obtain ⟨ps, evs, hrun, hinv, hcfg, hadv⟩ :=
    recvAll_decides chunks (inv_fresh uninit head tail userdata)
      (by rw [pending_fresh, List.nil_append, hencode]; exact Frame.sane_encodeAll packets)
  rw [pending_fresh, List.nil_append, hencode] at hadv
  change Advances head tail _ _ _ at hadv
  have hquiet := hinv.quiet
  rw [hcfg.head_eq, hcfg.tail_eq] at hquiet
  -- what is pending is encoded frames without an event, so there are none
  obtain ⟨gs, hgs⟩ := Frame.advances_encodeAll hadv packets rfl
  have hnone : gs.map Frame.event = [] := by
    have hscan := congrArg Prod.fst (Frame.scan_encodeAll gs)
    rw [← hgs] at hscan
    exact hscan.symm.trans hquiet
  rw [List.map_eq_nil_iff.mp hnone, Frame.encodeAll_nil] at hgs
  have hevs : evs = packets.map Frame.event := by
    have hscan := congrArg Prod.fst hadv.scan
    rw [Frame.scan_encodeAll, hgs, scan_nil, List.append_nil] at hscan
    exact hscan.symm
  refine ⟨ps, ?_, hinv.idle hgs⟩
  have hout : ∀ fs : List (Frame head tail), deliveries (some userdata) (fs.map Frame.event) =
      fs.map fun f => { userdata, packet := f.packet, data := f.data } := by
    intro fs
    induction fs with
    | nil => rfl
    | cons f fs ih =>
      rw [List.map_cons, List.map_cons, ← ih]
      rfl
  rw [hrun, ← hout, ← hevs]
  rfl

namespace Frame

/-- The call of the callback for a frame. -/
def delivery {head tail : UInt8} (userdata : Nat) (f : Frame head tail) : Delivery :=
  { userdata, packet := f.packet, data := f.data }

theorem deliveries_event {head tail : UInt8} (userdata : Nat) (fs : List (Frame head tail)) :
    deliveries (some userdata) (fs.map event) = fs.map (delivery userdata) := by
  induction fs with
  | nil => rfl
  | cons f fs ih =>
    rw [List.map_cons, List.map_cons, ← ih]
    rfl

/-- The bytes of a frame. -/
def size {head tail : UInt8} (f : Frame head tail) : Nat := f.encode.length

/-- The frames whose last byte is among the first `n` bytes. -/
def complete {head tail : UInt8} : List (Frame head tail) → Nat → List (Frame head tail) :=
  Merge.complete size

theorem encode_append {head tail : UInt8} (f : Frame head tail) (s : List UInt8) :
    f.encode ++ s = head :: f.behind s := by
  have hone := encodeAll_cons f []
  rw [encodeAll, List.map_singleton, List.flatten_singleton] at hone
  rw [hone]
  simp [behind]

/-- A frame without its last byte is not decided. -/
theorem scan_cut {head tail : UInt8} (f : Frame head tail) {s rest : List UInt8}
    (h : s ++ rest = f.encode) (hrest : rest ≠ []) : (scan head tail s).1 = [] := by
  rw [← List.append_nil f.encode, encode_append] at h
  cases s with
  | nil => rfl
  | cons b s =>
    obtain ⟨rfl, hbehind⟩ := List.cons.inj h
    change s ++ rest = f.behind [] at hbehind
    by_cases hlong : headLen ≤ s.length
    · have hheader : charToNetPacket s = f.packet := by
        rw [← charToNetPacket_append hlong rest, hbehind, header_behind]
      have hlen : s.length + rest.length = headLen + (f.packet.datalen.toNat + 1) := by
        rw [← List.length_append, hbehind, behind, List.length_append, netPacketToChar_length,
          List.length_append, f.length_eq]
        rfl
      have hpos := List.length_pos_iff.mpr hrest
      rw [scan_wait hlong (hheader ▸ f.accepts) (by rw [hheader]; omega)]
    · rw [scan_short (Nat.not_le.mp hlong)]

/-- Of a part of what `PacketData` encodes, the scanner finds the frames that are complete.  By
induction on the frames. -/
theorem scan_prefix {head tail : UInt8} (fs : List (Frame head tail)) {s missing : List UInt8}
    (h : s ++ missing = encodeAll fs) :
    (scan head tail s).1 = (complete fs s.length).map event := by
  induction fs generalizing s with
  | nil =>
    rw [encodeAll_nil, List.append_eq_nil_iff] at h
    rw [h.1]
    rfl
  | cons f fs ih =>
    have hall : s ++ missing = f.encode ++ encodeAll fs := by rw [h, encodeAll_cons, encode_append]
    have hs : s <+: f.encode ++ encodeAll fs := ⟨missing, hall⟩
    by_cases hlen : f.encode.length ≤ s.length
    · obtain ⟨t, rfl⟩ := List.prefix_of_prefix_length_le (List.prefix_append _ _) hs hlen
      rw [List.append_assoc] at hall
      rw [encode_append, scan_frame (f.behind_length _)
        (by rw [header_behind]; exact f.accepts) (f.tail_behind _), drop_behind, data_behind,
        header_behind, ih (List.append_cancel_left hall), ← encode_append,
        show complete (f :: fs) _ = _ from Merge.complete_cons_of_le size hlen fs,
        List.length_append, size, Nat.add_sub_cancel_left]
      rfl
    · obtain ⟨rest, hcut⟩ := List.prefix_of_prefix_length_le hs (List.prefix_append _ _)
        (Nat.le_of_not_le hlen)
      rw [show complete (f :: fs) s.length = [] from
        Merge.complete_cons_of_lt size (Nat.not_le.mp hlen) fs]
      refine scan_cut f hcut ?_
      rintro rfl
      rw [List.append_nil] at hcut
      exact hlen (Nat.le_of_eq (congrArg List.length hcut.symm))

end Frame

/-- Of a part of what `PacketData` encodes, a fresh framer delivers the first packets, and all of
them only if nothing is missing. -/
theorem recvAll_encodeAll (uninit : NetPacket) (head tail : UInt8) (userdata : Nat)
    (packets : List (Frame head tail)) (chunks : List Chunk) {missing : List UInt8}
    (h : concat chunks ++ missing = Frame.encodeAll packets) :
    ∃ k ps, (fresh uninit head tail userdata).recvAll chunks =
        .ok (ps, (packets.take k).map (Frame.delivery userdata)) ∧ k ≤ packets.length ∧
      (k = packets.length ↔ missing = []) := by
  have hsane : Sane head tail (concat chunks ++ missing) := h ▸ Frame.sane_encodeAll packets
  obtain ⟨ps, evs, hrun, hinv, hcfg, hadv⟩ :=
    recvAll_decides chunks (inv_fresh uninit head tail userdata) (sane_left hsane)
  rw [pending_fresh, List.nil_append] at hadv
  change Advances head tail _ _ _ at hadv
  have hquiet := hinv.quiet
  rw [hcfg.head_eq, hcfg.tail_eq] at hquiet
  change (scan head tail ps.pending).1 = [] at hquiet
  -- what the framer has decided are the packets that are complete
  have hevs : evs = (Frame.complete packets (concat chunks).length).map Frame.event := by
    rw [← Frame.scan_prefix packets h, hadv.scan, hquiet, List.append_nil]
  have hprefix : Frame.complete packets (concat chunks).length <+: packets :=
    Merge.complete_prefix _ _ _
  have hsum : (concat chunks).length + missing.length =
      (packets.map Frame.size).sum := by
    rw [← List.length_append, h, Frame.encodeAll, List.length_flatten, List.map_map]
    rfl
  refine ⟨(Frame.complete packets (concat chunks).length).length, ps, ?_, hprefix.length_le, ?_⟩
  · rw [← List.prefix_iff_eq_take.mp hprefix, ← Frame.deliveries_event, ← hevs]
    exact hrun
  · rw [Frame.complete, Merge.length_complete_iff _ _ (by omega), ← List.length_eq_zero_iff]
    omega

/-- A frame whose payload is a head byte and a tail byte. -/
def shortFrame : Frame 0x0C 0xEA where
  packet := { version := 1, header := 0x0C, tail := 0xEA, type := 9, datalen := 2 }
  data := [0x0C, 0xEA]
  accepts := by decide
  length_eq := rfl
  small := by decide

/-- Two frames, cut inside the header of the first. -/
theorem recvAll_packetData_cut :
    ∃ ps, (fresh (charToNetPacket []) 0x0C 0xEA 7).recvAll
        [⟨[0x0C, 1, 0x0C], by decide⟩,
          ⟨[0xEA, 9, 0, 0, 0, 2, 0x0C, 0xEA, 0xEA,
            0x0C, 1, 0x0C, 0xEA, 9, 0, 0, 0, 2, 0x0C, 0xEA, 0xEA], by decide⟩] =
        .ok (ps, [shortFrame, shortFrame].map fun f =>
          { userdata := 7, packet := f.packet, data := f.data }) ∧
      ps.parsetype = .nothing ∧ ps.truepacketlen = 0 :=
  recvAll_packetData (charToNetPacket []) 0x0C 0xEA 7 [shortFrame, shortFrame]
    [⟨[0x0C, 1, 0x0C], by decide⟩,
      ⟨[0xEA, 9, 0, 0, 0, 2, 0x0C, 0xEA, 0xEA,
        0x0C, 1, 0x0C, 0xEA, 9, 0, 0, 0, 2, 0x0C, 0xEA, 0xEA], by decide⟩] (by decide)

end PacketSync

end OCServer
