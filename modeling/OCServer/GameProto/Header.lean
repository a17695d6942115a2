import OCServer.GameProto.Follow
import OCServer.Proto.CppRound

/-!
# The round trip of a message header

`writeHeader` writes the four fields of a message as the client does, with
the writers of `ProtoOut`, and `headerReads_iff` says for which headers
`bufFromMsg` gives them back: integers below `2 ^ 31`, which the writer does
not widen to a `LONG`, and strings whose length byte is not negative.
-/

namespace OCServer.GameProto

open BigEndian ByteIO ByteSource Cpp

/-- The fields of a header at the tags 0 to 3. -/
def writeHeader (h : Header) : CppOut Unit := do
  writeUInt h.UID 0
  writeString h.cmd 1
  writeUInt h.packSeq 2
  write .strMap h.attrib 3

/-- The bytes of a header. -/
def headerBytes (h : Header) : List UInt8 :=
  encInt 0 h.UID.toNat ++ (encString 1 h.cmd ++ (encInt 2 h.packSeq.toNat ++
    enc id .strMap 3 h.attrib))

/-- The headers that come back. -/
def KeptHeader (h : Header) : Prop :=
  h.UID.toNat < 2 ^ 31 ∧ h.packSeq.toNat < 2 ^ 31 ∧ KeptString h.cmd ∧
    ∀ e ∈ h.attrib, KeptString e.1 ∧ KeptString e.2

/-! ## The header -/

theorem writeHeader_writes (h : Header) (hcmd : h.cmd.length ≤ protoMaxStringLength)
    (hattrib : Ok .strMap h.attrib) : Writes (writeHeader h) (headerBytes h) :=
  Writes.bind (writeUInt_writes h.UID (by decide)) (Writes.bind
    (writeString_writes hcmd (by decide)) (Writes.bind (writeUInt_writes h.packSeq (by decide))
      (write_writes .strMap h.attrib (by decide) hattrib trivial)))

/-- A map of at least four bytes an entry has less than `2 ^ 31` entries. -/
theorem attrib_length {h : Header} (hsize : (headerBytes h).length < 2 ^ 32) :
    h.attrib.length < 2 ^ 31 := by
  have hle := mul_length_le_flatMap (k := 4)
    (f := fun e : List UInt8 × List UInt8 => encString 0 e.1 ++ encString 1 e.2)
    (fun e => by
      have hk := two_le_encString_length 0 e.1
      have hv := two_le_encString_length 1 e.2
      rw [List.length_append]
      omega) h.attrib
  unfold headerBytes enc at hsize
  simp only [List.length_append] at hsize
  omega

section

variable [FloatOps]

theorem readHeader_reads {h : Header} (hcmd : h.cmd.length ≤ protoMaxStringLength)
    (hattrib : Ok .strMap h.attrib) (hsize : h.attrib.length < 2 ^ 31) (hkept : KeptHeader h) :
    Reads readHeader (headerBytes h) h := by
  obtain ⟨hUID, hseq, hstring, hstrings⟩ := hkept
  unfold readHeader headerBytes
  refine (readUInt_reads 0 hUID).bind ?_
  refine (readString_reads 1 hcmd hstring).bind ?_
  refine (readUInt_reads 2 hseq).bind ?_
  refine Reads.then (readMap_reads 3 hsize hattrib.1 fun e he => ?_) (Reads.pure h)
  exact ⟨readString_reads 0 (hattrib.2 e he).1 (hstrings e he).1,
    readString_reads 1 (hattrib.2 e he).2 (hstrings e he).2⟩

/-- Any other header is not read at all. -/
theorem readHeader_misses {h : Header} (hcmd : h.cmd.length ≤ protoMaxStringLength)
    (hattrib : Ok .strMap h.attrib) (hsize : h.attrib.length < 2 ^ 31) (hkept : ¬KeptHeader h)
    (P : Header → Prop) : Misses readHeader (headerBytes h) P := by
  unfold readHeader headerBytes
  by_cases hUID : h.UID.toNat < 2 ^ 31
  · refine (readUInt_reads 0 hUID).bind_misses ?_
    by_cases hstring : KeptString h.cmd
    · refine (readString_reads 1 hcmd hstring).bind_misses ?_
      by_cases hseq : h.packSeq.toNat < 2 ^ 31
      · refine (readUInt_reads 2 hseq).bind_misses ?_
        have hbad : ¬∀ e ∈ h.attrib, KeptString e.1 ∧ KeptString e.2 :=
          fun hall => hkept ⟨hUID, hseq, hstring, hall⟩
        have hmap := (readMap_misses 3 hsize (fun e he => (readEntry_strings (hattrib.2 e he)).1)
          (fun e he => (readEntry_strings (hattrib.2 e he)).2) hbad fun _ => True).bind
          (f := fun p => pure (⟨h.UID, h.cmd, h.packSeq, p.1⟩ : Header)) (Q := P)
          (fun _ _ _ _ _ _ => trivial) []
        rwa [List.append_nil] at hmap
      · exact (readUInt_misses 2 hseq fun _ => True).bind (fun _ _ _ _ _ _ => trivial) _
    · exact (readString_misses 1 hstring fun _ => True).bind (fun _ _ _ _ _ _ => trivial) _
  · exact (readUInt_misses 0 hUID fun _ => True).bind (fun _ _ _ _ _ _ => trivial) _

/-! ## The round trip -/

/-- What the client writes for `h` is accepted, whatever follows it, and gives
the fields of `h`. -/
def HeaderReads (h : Header) : Prop :=
  ∃ payload, writeHeader h [] = .ok () payload ∧
    ∀ (packet : NetPacket) (rest : List UInt8) (msg : FromMsg) (junk : Nat → UInt8),
      (payload ++ rest).length = packet.datalen.toNat →
      bufFromMsg packet (payload ++ rest) msg junk = .ok (true, msg.withHeader h)

/-- Exactly the kept headers come back. -/
theorem headerReads_iff (h : Header) (hcmd : h.cmd.length ≤ protoMaxStringLength)
    (hattrib : Ok .strMap h.attrib)
    (hsize : ∀ payload, writeHeader h [] = .ok () payload → payload.length < 2 ^ 32) :
    HeaderReads h ↔ KeptHeader h := by
  obtain ⟨payload, hwrite, hbytes⟩ := writeHeader_writes h hcmd hattrib []
  have hbytes : payload = headerBytes h := hbytes
  subst hbytes
  have hlen := hsize _ hwrite
  have hat : ∀ (rest : List UInt8) junk,
      At (membuf (headerBytes h ++ rest) junk) (headerBytes h ++ rest) :=
    fun rest junk => ⟨rfl, Nat.zero_le _, rfl⟩
  constructor
  · intro h
    rcases h with ⟨payload, hwrite', hread⟩
    rw [hwrite] at hwrite'
    cases hwrite'
    by_contra hbad
    let packet : NetPacket := ⟨0, 0, 0, 0, UInt32.ofNat (headerBytes h).length⟩
    have hdatalen : packet.datalen.toNat = (headerBytes h).length :=
      UInt32.toNat_ofNat_of_lt' hlen
    have hrun := hread packet [] { client := 0 } (fun _ => 0)
      (by rw [List.append_nil, hdatalen])
    unfold bufFromMsg at hrun
    rw [hdatalen, List.append_nil, List.take_length] at hrun
    cases hres : readHeader (membuf (headerBytes h) fun _ => 0) with
    | ok a s' =>
      have hmiss := readHeader_misses hcmd hattrib (attrib_length hlen) hbad fun _ => True
      have hs := hat [] fun _ => 0
      rw [List.append_nil] at hs
      exact hmiss _ [] a s' (by rw [List.append_nil]; exact hs) hres trivial
    | error e s' =>
      rw [hres] at hrun
      cases e <;> cases hrun
  · intro hkept
    refine ⟨_, hwrite, fun packet rest msg junk hdatalen => ?_⟩
    obtain ⟨s', hrun, _⟩ := readHeader_reads hcmd hattrib (attrib_length hlen) hkept
      (membuf (headerBytes h ++ rest) junk) rest (hat rest junk)
    unfold bufFromMsg
    rw [← hdatalen, List.take_length, hrun]

end

theorem headerReads_iff_hi :
    @HeaderReads ⟨fun v => v.setWidth 64, fun _ => [], fun _ => []⟩
        ⟨5, [104, 105], 7, [([97], [98])]⟩ ↔ KeptHeader ⟨5, [104, 105], 7, [([97], [98])]⟩ := by
  refine @headerReads_iff ⟨fun v => v.setWidth 64, fun _ => [], fun _ => []⟩
    ⟨5, [104, 105], 7, [([97], [98])]⟩ (by decide) ⟨by decide, ?_⟩ ?_
  · intro e he
    rw [List.mem_singleton.mp he]
    exact ⟨by decide, by decide⟩
  · intro payload hwrite
    have hbytes : writeHeader ⟨5, [104, 105], 7, [([97], [98])]⟩ [] = .ok ()
        [0x00, 5, 0x16, 2, 104, 105, 0x20, 7, 0x38, 0x00, 1, 0x06, 1, 97, 0x16, 1, 98] := rfl
    rw [hbytes] at hwrite
    cases hwrite
    decide

/-- The UID `2 ^ 31` is written as a `LONG` and rejected. -/
theorem not_headerReads_half :
    ¬ @HeaderReads ⟨fun v => v.setWidth 64, fun _ => [], fun _ => []⟩
      ⟨0x80000000, [], 0, []⟩ := by
  intro h
  rcases h with ⟨payload, hwrite, hread⟩
  have hbytes : writeHeader ⟨0x80000000, [], 0, []⟩ [] = .ok ()
      [0x03, 0, 0, 0, 0, 0x80, 0, 0, 0, 0x16, 0, 0x2C, 0x38, 0x0C] := rfl
  rw [hbytes] at hwrite
  cases hwrite
  have hrun := hread ⟨1, 4, 5, 0, 14⟩ [] { client := 0 } (fun _ => 0) rfl
  have hfalse : @bufFromMsg ⟨fun v => v.setWidth 64, fun _ => [], fun _ => []⟩ ⟨1, 4, 5, 0, 14⟩
      [0x03, 0, 0, 0, 0, 0x80, 0, 0, 0, 0x16, 0, 0x2C, 0x38, 0x0C] { client := 0 } (fun _ => 0) =
      .ok (false, { client := 0 }) := rfl
  have hne := hfalse.symm.trans hrun
  cases hne

end OCServer.GameProto
