import OCServer.Channel.Login
import OCServer.Dispatch.Requests
import OCServer.Proto.Message

/-!
# The logins of clients

A client writes the header of a message and the fields of a login behind it.  The server reads
the header in C++, one field after the other, and gives the same bytes to the login service,
which looks for its fields by their tags.  `asked_iff` says for which messages of clients the
account manager is asked what the client asks for, and `logins_asked` what it is asked in a
whole run of the server.

A client may write no attributes, as `login_test_data` does (`Core/tests/java_test.cpp`).  The
service does not need them.
-/

namespace OCServer.LoginSvc

open BigEndian ByteIO ByteSource Database GameProto Java SqlLex

/-- What a client asks for. -/
inductive Login
  | byUID (UID : Long) (pwdMD5 : List UInt8)
  | byEmail (Email pwdMD5 : List UInt8)

/-- What a client sends. -/
structure ClientMsg where
  UID : BitVec 32
  cmd : List UInt8
  packSeq : BitVec 32
  attrib : Option HashMap
  login : Login

namespace Login

/-- The fields behind the header. -/
def fields : Login → List MessageField
  | byUID UID pwdMD5 => [⟨4, .byte, 0⟩, ⟨5, .prim .long, UID⟩, ⟨6, .string, pwdMD5⟩]
  | byEmail Email pwdMD5 => [⟨4, .byte, 1⟩, ⟨5, .string, Email⟩, ⟨6, .string, pwdMD5⟩]

def write : Login → Cpp.CppOut Unit
  | byUID UID pwdMD5 => do
    Cpp.writeChar 0 4
    Cpp.writeLong UID 5
    Cpp.writeString pwdMD5 6
  | byEmail Email pwdMD5 => do
    Cpp.writeChar 1 4
    Cpp.writeString Email 5
    Cpp.writeString pwdMD5 6

/-- The strings are not too long. -/
def Fits (login : Login) : Prop := ∀ f ∈ login.fields, Ok f.type f.value

/-- What the account manager is asked.  The service drops its answer. -/
def ask {δ : Type} (drv : Driver δ) (md5 : MD5) (utf8 : List UInt8 → Text) : Login → DbM δ Unit
  | byUID UID pwdMD5 => do
    let _result ← AuthPassword drv md5 UID (utf8 pwdMD5)
    pure ()
  | byEmail Email pwdMD5 => do
    let UID ← getUIDbyEmail drv (utf8 Email)
    let _result ← AuthPassword drv md5 UID (utf8 pwdMD5)
    pure ()

end Login

namespace ClientMsg

/-- The fields of the header. -/
def headFields (q : ClientMsg) : List MessageField :=
  [⟨0, .prim .long, q.UID.setWidth 64⟩, ⟨1, .string, q.cmd⟩,
    ⟨2, .prim .long, q.packSeq.setWidth 64⟩] ++
    q.attrib.toList.map fun attrib => ⟨3, .strMap, attrib⟩

def fields (q : ClientMsg) : List MessageField := q.headFields ++ q.login.fields

/-- The calls of `ProtoOut` that a client makes. -/
def write (q : ClientMsg) : Cpp.CppOut Unit := do
  Cpp.writeUInt q.UID 0
  Cpp.writeString q.cmd 1
  Cpp.writeUInt q.packSeq 2
  match q.attrib with
  | some attrib => do
    Cpp.write .strMap attrib 3
    q.login.write
  | none => q.login.write

def bytes (q : ClientMsg) : List UInt8 := encMessage id q.fields

/-- The writers of `ProtoOut` throw at any other message. -/
structure Fits (q : ClientMsg) : Prop where
  cmd : q.cmd.length ≤ protoMaxStringLength
  attrib : ∀ attrib, q.attrib = some attrib → Ok .strMap attrib
  login : q.login.Fits

/-- It has attributes, and its header comes back. -/
def Kept (q : ClientMsg) : Prop :=
  ∃ attrib, q.attrib = some attrib ∧ KeptHeader ⟨q.UID, q.cmd, q.packSeq, attrib⟩

/-! ## What is written -/

variable {q : ClientMsg}

theorem ascending_fields (q : ClientMsg) : Ascending q.fields := by
  obtain ⟨UID, cmd, packSeq, attrib, login⟩ := q
  unfold Ascending fields headFields
  cases attrib <;> cases login <;> simp [Login.fields]

theorem encMessage_cons (f : MessageField) (fs : List MessageField) :
    encMessage id (f :: fs) = enc id f.type f.tag f.value ++ encMessage id fs := List.flatMap_cons

theorem password_writes {pwdMD5 : List UInt8} (h : pwdMD5.length ≤ protoMaxStringLength) :
    Writes (Cpp.writeString pwdMD5 6) (encMessage id [⟨6, .string, pwdMD5⟩]) := by
  rw [encMessage_cons]
  show Writes _ (encString 6 pwdMD5 ++ [])
  rw [List.append_nil]
  exact Cpp.writeString_writes h (by decide)

theorem login_writes (login : Login) (h : login.Fits) :
    Writes login.write (encMessage id login.fields) := by
  cases login with
  | byUID UID pwdMD5 =>
    have hpwd := h ⟨6, .string, pwdMD5⟩ (by simp [Login.fields])
    refine Writes.bind (Cpp.writeChar_writes 0 (by decide)) ?_
    refine Writes.bind (Cpp.writeLong_writes UID (by decide)) ?_
    exact password_writes hpwd
  | byEmail Email pwdMD5 =>
    have hmail := h ⟨5, .string, Email⟩ (by simp [Login.fields])
    have hpwd := h ⟨6, .string, pwdMD5⟩ (by simp [Login.fields])
    refine Writes.bind (Cpp.writeChar_writes 1 (by decide)) ?_
    refine Writes.bind (Cpp.writeString_writes hmail (by decide)) ?_
    exact password_writes hpwd

/-- The bytes without the attributes, and behind them. -/
def plainBytes (q : ClientMsg) : List UInt8 :=
  encInt 0 q.UID.toNat ++ (encString 1 q.cmd ++ encInt 2 q.packSeq.toNat)

theorem bytes_eq (q : ClientMsg) : q.bytes = q.plainBytes ++
    ((q.attrib.toList.flatMap fun attrib => enc id .strMap 3 attrib) ++
      encMessage id q.login.fields) := by
  obtain ⟨UID, cmd, packSeq, attrib, login⟩ := q
  have hUID := toInt_widen (k := 64) UID (by decide)
  have hseq := toInt_widen (k := 64) packSeq (by decide)
  unfold bytes fields headFields plainBytes encMessage
  simp only [List.flatMap_append, List.flatMap_cons, List.flatMap_nil, List.flatMap_map, enc,
    encPrim]
  rw [hUID, hseq]
  simp only [List.append_assoc, List.append_nil]

theorem write_writes (h : q.Fits) : Writes q.write q.bytes := by
  obtain ⟨UID, cmd, packSeq, attrib, login⟩ := q
  have hlogin := login_writes login h.login
  rw [bytes_eq]
  unfold plainBytes
  simp only [List.append_assoc]
  refine Writes.bind (Cpp.writeUInt_writes UID (by decide)) ?_
  refine Writes.bind (Cpp.writeString_writes h.cmd (by decide)) ?_
  refine Writes.bind (Cpp.writeUInt_writes packSeq (by decide)) ?_
  cases attrib with
  | none => exact hlogin
  | some attrib =>
    rw [Option.toList_some, List.flatMap_singleton]
    exact Writes.bind (Cpp.write_writes .strMap attrib (by decide) (h.attrib attrib rfl) trivial)
      hlogin

theorem bytes_of_attrib {attrib : HashMap} (h : q.attrib = some attrib) :
    q.bytes = headerBytes ⟨q.UID, q.cmd, q.packSeq, attrib⟩ ++ encMessage id q.login.fields := by
  rw [q.bytes_eq, h, Option.toList_some, List.flatMap_singleton]
  unfold plainBytes headerBytes
  simp only [List.append_assoc]

/-- A login begins with a scalar. -/
theorem login_head (login : Login) : ∃ type rest, type.toNat < 16 ∧ type ≠ protoMap ∧
    encMessage id login.fields = encHead type 4 ++ rest := by
  cases login with
  | byUID UID pwdMD5 => exact ⟨protoZeroTag, _, by decide, by decide, rfl⟩
  | byEmail Email pwdMD5 => exact ⟨protoByte, _, by decide, by decide, rfl⟩

theorem cmd_mem_fields (q : ClientMsg) : ⟨1, .string, q.cmd⟩ ∈ q.fields := by
  unfold fields headFields
  simp

end ClientMsg

/-! ## What the service reads -/

section

variable {fuel : Nat} {b : JBuf} {fs : List MessageField}

/-- The stream stands before these fields. -/
structure StandsAt (fuel : Nat) (b : JBuf) (fs : List MessageField) : Prop where
  ascending : Ascending fs
  fuel_lt : 2 * (encMessage id fs).length < fuel
  at_bytes : At b (encMessage id fs)

/-- A field that is there is read, and the fields behind it are left. -/
theorem StandsAt.optional {α : Type} {body : JIn α} {a : α} (h : StandsAt fuel b fs)
    {t : UInt8} {type : Ty} {v : Val type} (hf : ⟨t, type, v⟩ ∈ fs)
    (hbody : Reads body (enc id type t v) a) (dflt : α) :
    ∃ b' gs, Java.optional (skipToTag fuel t.toNat) true dflt body b = .ok a b' ∧
      StandsAt fuel b' gs ∧ ∀ (t' : UInt8) (type' : Ty) (v' : Val type'),
        t.toNat < t'.toNat → ⟨t', type', v'⟩ ∈ fs → ⟨t', type', v'⟩ ∈ gs := by
  obtain ⟨hasc, hfuel, hb⟩ := h
  rw [← List.append_nil (encMessage id fs)] at hb
  obtain ⟨b₁, hskip, hb₁, hsame₁⟩ :=
    skipToTag_message id (Or.inl rfl) t.toNat fs hasc fuel b hfuel hb
  have hhas : hasTag t.toNat fs = true := hasTag_iff.mpr ⟨⟨t, type, v⟩, hf, rfl⟩
  have hsuffix : fieldsFrom t.toNat fs <:+ fs := List.dropWhile_suffix _
  obtain ⟨gs, hgs⟩ := fieldsFrom_eq_cons hasc hf
  change fieldsFrom t.toNat fs = _ at hgs
  rw [hgs] at hb₁ hsuffix
  rw [ClientMsg.encMessage_cons, List.append_assoc] at hb₁
  obtain ⟨b₂, hread, hb₂, hsame₂⟩ := hbody b₁ _ hb₁
  rw [List.append_nil] at hb₂
  have hgs_suffix : gs <:+ fs := (List.suffix_cons _ gs).trans hsuffix
  refine ⟨b₂, gs, ?_, ⟨hasc.sublist hgs_suffix.sublist, ?_, hb₂⟩, fun t' type' v' hlt hg => ?_⟩
  · unfold Java.optional
    rw [bind_of_ok hskip, hhas, if_pos rfl]
    exact hread
  · have hle := encMessage_length_le id hgs_suffix
    omega
  · have hle : (t.toNat : Int) ≤ t'.toNat := by omega
    have hmem := mem_fieldsFrom hg hle
    rw [hgs] at hmem
    rcases List.mem_cons.mp hmem with heq | hmem
    · cases heq
      exact absurd hlt (Nat.lt_irrefl _)
    · exact hmem

theorem byteBody_reads_bits (tag : UInt8) (v : BitVec 8) :
    Reads byteBody (encInt tag v.toInt) v := by
  have hlo := BitVec.le_toInt (x := v)
  have hhi := BitVec.toInt_lt (x := v)
  have h := byteBody_reads tag (n := v.toInt) (by omega) (by omega)
  rwa [BitVec.ofInt_toInt] at h

theorem longBody_reads (tag : UInt8) (v : Long) :
    Reads (integerBody 64 protoLong) (encInt tag v.toInt) v := by
  have hlo := BitVec.le_toInt (x := v)
  have hhi := BitVec.toInt_lt (x := v)
  have h := integerBody_reads 64 protoLong tag v.toInt (by decide)
    (fun _ => ⟨by decide, by decide⟩) (fun _ => ⟨by decide, by decide⟩)
    (fun _ => ⟨by decide, by decide, by omega, by omega⟩)
  rwa [BitVec.ofInt_toInt] at h

/-- The four reads of a login. -/
theorem StandsAt.login_reads (h : StandsAt fuel b fs) {cmd pwdMD5 : List UInt8}
    {login_type : BitVec 8} {type : Ty} {v : Val type} {α : Type} {body : JIn α} {a : α}
    (hcmd : cmd.length ≤ protoMaxStringLength) (hbody : Reads body (enc id type 5 v) a)
    (hpwd : pwdMD5.length ≤ protoMaxStringLength) (h1 : ⟨1, .string, cmd⟩ ∈ fs)
    (h4 : ⟨4, .byte, login_type⟩ ∈ fs) (h5 : ⟨5, type, v⟩ ∈ fs) (h6 : ⟨6, .string, pwdMD5⟩ ∈ fs)
    (dflt : α) :
    ∃ b₁ b₂ b₃ b₄, readString fuel 1 b = .ok cmd b₁ ∧
      Java.optional (skipToTag fuel protoAppFirstTag) true (-1) byteBody b₁ =
        .ok login_type b₂ ∧
      Java.optional (skipToTag fuel (protoAppFirstTag + 1)) true dflt body b₂ = .ok a b₃ ∧
      readString fuel (protoAppFirstTag + 2) b₃ = .ok pwdMD5 b₄ := by
  obtain ⟨b₁, gs₁, hread₁, hat₁, hkeep₁⟩ := h.optional h1 (stringBody_reads 1 hcmd) []
  have h4 := hkeep₁ 4 _ _ (by decide) h4
  have h5 := hkeep₁ 5 _ _ (by decide) h5
  have h6 := hkeep₁ 6 _ _ (by decide) h6
  obtain ⟨b₂, gs₂, hread₂, hat₂, hkeep₂⟩ := hat₁.optional h4 (byteBody_reads_bits 4 login_type) (-1)
  have h5 := hkeep₂ 5 _ _ (by decide) h5
  have h6 := hkeep₂ 6 _ _ (by decide) h6
  obtain ⟨b₃, gs₃, hread₃, hat₃, hkeep₃⟩ := hat₂.optional h5 hbody dflt
  have h6 := hkeep₃ 6 _ _ (by decide) h6
  obtain ⟨b₄, gs₄, hread₄, -⟩ := hat₃.optional h6 (stringBody_reads 6 hpwd) []
  exact ⟨b₁, b₂, b₃, b₄, hread₁, hread₂, hread₃, hread₄⟩

end

section

variable {δ : Type} (drv : Driver δ) (md5 : MD5) (utf8 : List UInt8 → Text)

/-- What `execTransact` does, when the account manager has answered. -/
def returned (b : JBuf) :
    EStateM.Result DbExc (AccountMgr δ) Unit →
      EStateM.Result LoginExc (JBuf × AccountMgr δ) Bool
  | .ok _ m => .ok true (b, m)
  | .error e m => .error (.db e) (b, m)

theorem returned_onDb {α : Type} (x : DbM δ α) (b : JBuf) (m : AccountMgr δ) :
    (onDb x >>= fun _ => pure true) (b, m) = returned b ((x >>= fun _ => pure ()) m) := by
  cases hx : x m with
  | ok a m' =>
    rw [bind_of_ok (onDb_of_ok hx), bind_of_ok hx]
    rfl
  | error e m' =>
    have hdb : onDb x (b, m) = .error (.db e) (b, m') := by
      unfold onDb
      rw [hx]
    rw [bind_of_error hdb, bind_of_error hx]
    rfl

theorem onDb_bind {α β : Type} (x : DbM δ α) (y : α → DbM δ β) :
    onDb (x >>= y) = onDb x >>= fun a => onDb (y a) := by
  funext s
  cases hx : x s.2 with
  | ok a m' =>
    have hdb : onDb x s = .ok a (s.1, m') := onDb_of_ok hx
    rw [bind_of_ok hdb]
    unfold onDb
    rw [bind_of_ok hx]
  | error e m' =>
    have hdb : onDb x s = .error (.db e) (s.1, m') := by
      unfold onDb
      rw [hx]
    rw [bind_of_error hdb]
    unfold onDb
    rw [bind_of_error hx]

variable {fuel : Nat} {b : JBuf} {fs : List MessageField} {cmd : List UInt8}

/-- For every message with a command and the fields of a login, whatever else it has: the
service asks the account manager what the login asks for. -/
theorem execTransact_login (h : StandsAt fuel b fs) {login : Login} (hfits : login.Fits)
    (hcmd : cmd.length ≤ protoMaxStringLength) (hmem : ⟨1, .string, cmd⟩ ∈ fs)
    (hlogin : ∀ f ∈ login.fields, f ∈ fs) (m : AccountMgr δ) :
    ∃ b', execTransact drv md5 utf8 fuel (b, m) = returned b' (login.ask drv md5 utf8 m) := by
  unfold execTransact transact
  cases login with
  | byUID UID pwdMD5 =>
    have hpwd := hfits ⟨6, .string, pwdMD5⟩ (by simp [Login.fields])
    simp only [Login.fields, List.forall_mem_cons] at hlogin
    obtain ⟨h4, h5, h6, -⟩ := hlogin
    obtain ⟨b₁, b₂, b₃, b₄, hread₁, hread₂, hread₃, hread₄⟩ :=
      h.login_reads hcmd (longBody_reads 5 UID) hpwd hmem h4 h5 h6 0
    refine ⟨b₄, ?_⟩
    rw [bind_of_ok (onInput_of_ok hread₁), bind_of_ok (onInput_of_ok hread₂), if_pos rfl,
      bind_of_ok (onInput_of_ok hread₃), bind_of_ok (onInput_of_ok hread₄)]
    exact returned_onDb _ b₄ m
  | byEmail Email pwdMD5 =>
    have hmail := hfits ⟨5, .string, Email⟩ (by simp [Login.fields])
    have hpwd := hfits ⟨6, .string, pwdMD5⟩ (by simp [Login.fields])
    simp only [Login.fields, List.forall_mem_cons] at hlogin
    obtain ⟨h4, h5, h6, -⟩ := hlogin
    obtain ⟨b₁, b₂, b₃, b₄, hread₁, hread₂, hread₃, hread₄⟩ :=
      h.login_reads hcmd (stringBody_reads 5 hmail) hpwd hmem h4 h5 h6 []
    have hread₃ : readString fuel (protoAppFirstTag + 1) b₂ = .ok Email b₃ := hread₃
    refine ⟨b₄, ?_⟩
    rw [bind_of_ok (onInput_of_ok hread₁), bind_of_ok (onInput_of_ok hread₂),
      if_neg (by decide), if_pos rfl, bind_of_ok (onInput_of_ok hread₃),
      bind_of_ok (onInput_of_ok hread₄), ← bind_assoc, ← onDb_bind]
    have hask := returned_onDb (getUIDbyEmail drv (utf8 Email) >>= fun UID =>
      AuthPassword drv md5 UID (utf8 pwdMD5)) b₄ m
    rwa [bind_assoc (getUIDbyEmail drv (utf8 Email))] at hask

end

/-! ## What the server gets -/

section

variable [FloatOps] {client : Nat} {packet : NetPacket} {payload : List UInt8}
  {junk : Nat → UInt8} {q : ClientMsg}

theorem message_of_kept {h : Header} {rest : List UInt8}
    (hpayload : payload = headerBytes h ++ rest)
    (hdatalen : payload.length = packet.datalen.toNat)
    (hcmd : h.cmd.length ≤ protoMaxStringLength) (hattrib : Ok .strMap h.attrib)
    (hkept : KeptHeader h) :
    Delivery.message ⟨client, packet, payload⟩ junk =
      some ((Messages.newFromMsg client packet payload).withHeader h) := by
  subst hpayload
  have hlen : (headerBytes h).length < 2 ^ 32 := by
    have hlt := packet.datalen.toNat_lt
    rw [← hdatalen, List.length_append] at hlt
    omega
  have hat : At (membuf (headerBytes h ++ rest) junk) (headerBytes h ++ rest) :=
    ⟨rfl, Nat.zero_le _, rfl⟩
  obtain ⟨s', hrun, -⟩ := readHeader_reads hcmd hattrib (attrib_length hlen) hkept _ rest hat
  unfold Delivery.message bufFromMsg
  simp only
  rw [← hdatalen, List.take_length, hrun]

theorem message_of_misses (hmisses : Misses readHeader payload fun _ => True)
    (hdatalen : payload.length = packet.datalen.toNat) :
    Delivery.message ⟨client, packet, payload⟩ junk = none := by
  have hat : At (membuf payload junk) (payload ++ []) := by
    rw [List.append_nil]
    exact ⟨rfl, Nat.zero_le _, rfl⟩
  unfold Delivery.message bufFromMsg
  simp only
  rw [← hdatalen, List.take_length]
  cases hrun : readHeader (membuf payload junk) with
  | ok h s' => exact absurd trivial (hmisses _ [] h s' hat hrun)
  | error e s' => cases e <;> rfl

/-- There is a field, and it is no map. -/
theorem readMap_misses_other {type : UInt8} (htype : type.toNat < 16) (hne : type ≠ protoMap)
    (tag : UInt8) (rest : List UInt8) :
    Misses (Cpp.readMap Cpp.readString Cpp.readString) (encHead type tag ++ rest)
      fun _ => True := by
  unfold Cpp.readMap
  refine (Cpp.readHead_reads htype tag).bind_misses ?_
  rw [if_pos hne]
  apply Misses.of_error
  intro s r _
  obtain ⟨p, htell⟩ : ∃ p, Cpp.tell s = .ok p s := ⟨_, rfl⟩
  obtain ⟨text, s', herr⟩ := Cpp.error_run (α := PUnit) _ p s
  refine ⟨.protoError text, s', ?_⟩
  rw [bind_of_ok htell, bind_of_error herr]

/-- Without attributes the fourth field is the login type, and that is no map. -/
theorem readHeader_misses_plain (q : ClientMsg) (hcmd : q.cmd.length ≤ protoMaxStringLength) :
    Misses readHeader (q.plainBytes ++ encMessage id q.login.fields) fun _ => True := by
  obtain ⟨type, rest, htype, hne, hlogin⟩ := ClientMsg.login_head q.login
  rw [hlogin]
  unfold readHeader ClientMsg.plainBytes
  rw [List.append_assoc, List.append_assoc]
  by_cases hUID : q.UID.toNat < 2 ^ 31
  · refine (Cpp.readUInt_reads 0 hUID).bind_misses ?_
    by_cases hstring : Cpp.KeptString q.cmd
    · refine (Cpp.readString_reads 1 hcmd hstring).bind_misses ?_
      by_cases hseq : q.packSeq.toNat < 2 ^ 31
      · refine (Cpp.readUInt_reads 2 hseq).bind_misses ?_
        have hmap := (readMap_misses_other htype hne 4 rest).bind
          (f := fun p => pure (⟨q.UID, q.cmd, q.packSeq, p.1⟩ : Header)) (Q := fun _ => True)
          (fun _ _ _ _ _ _ => trivial) []
        rwa [List.append_nil] at hmap
      · exact (Cpp.readUInt_misses 2 hseq fun _ => True).bind (fun _ _ _ _ _ _ => trivial) _
    · exact (Cpp.readString_misses 1 hstring fun _ => True).bind (fun _ _ _ _ _ _ => trivial) _
  · exact (Cpp.readUInt_misses 0 hUID fun _ => True).bind (fun _ _ _ _ _ _ => trivial) _

/-- The message gets to the service that it names, and on its bytes the login service asks what
the client asks for, whatever the account manager answers. -/
def Asked (q : ClientMsg) : Prop :=
  ∃ payload, q.write [] = .ok () payload ∧
    ∀ (client : Nat) (packet : NetPacket) (junk : Nat → UInt8),
      payload.length = packet.datalen.toNat →
      ∃ msg, Delivery.message ⟨client, packet, payload⟩ junk = some msg ∧
        (∀ jc : JCommChannel,
          jc.call msg = (jc.getService q.cmd).toList.map fun srv => (srv, payload)) ∧
        ∀ (hsize : payload.length < 2 ^ 31) (δ : Type) (drv : Driver δ) (md5 : MD5)
          (utf8 : List UInt8 → Text) (fuel : Nat) (m : AccountMgr δ), 2 * payload.length < fuel →
          ∃ b', execTransact drv md5 utf8 fuel (JBuf.wrap payload hsize, m) =
            returned b' (q.login.ask drv md5 utf8 m)

/-- For every message that a client can write: the account manager is asked for what the client
asks if and only if the message has attributes and its header comes back. -/
theorem asked_iff (q : ClientMsg) (hfits : q.Fits) (hsize : q.bytes.length < 2 ^ 32) :
    Asked q ↔ q.Kept := by
  obtain ⟨payload, hwrite, (hbytes : payload = q.bytes)⟩ := ClientMsg.write_writes hfits []
  subst hbytes
  constructor
  · rintro ⟨payload, hwrite', hasked⟩
    rw [hwrite] at hwrite'
    cases hwrite'
    by_contra hbad
    have hdatalen : q.bytes.length = (UInt32.ofNat q.bytes.length).toNat :=
      (UInt32.toNat_ofNat_of_lt' hsize).symm
    obtain ⟨msg, hmsg, -⟩ :=
      hasked 0 ⟨0, 0, 0, 0, UInt32.ofNat q.bytes.length⟩ (fun _ => 0) hdatalen
    have hmisses : Misses readHeader q.bytes fun _ => True := by
      cases hattrib : q.attrib with
      | none =>
        have hplain := readHeader_misses_plain q hfits.cmd
        rw [q.bytes_eq, hattrib]
        exact hplain
      | some attrib =>
        have hsmall := hsize
        rw [ClientMsg.bytes_of_attrib hattrib, List.length_append] at hsmall
        rw [ClientMsg.bytes_of_attrib hattrib]
        exact (readHeader_misses (h := ⟨q.UID, q.cmd, q.packSeq, attrib⟩) hfits.cmd
          (hfits.attrib attrib hattrib) (attrib_length (by omega))
          (fun hkept => hbad ⟨attrib, hattrib, hkept⟩) _).append _
    rw [message_of_misses hmisses hdatalen] at hmsg
    cases hmsg
  · rintro ⟨attrib, hattrib, hkept⟩
    refine ⟨q.bytes, hwrite, fun client packet junk hdatalen => ?_⟩
    refine ⟨_, message_of_kept (ClientMsg.bytes_of_attrib hattrib) hdatalen hfits.cmd
      (hfits.attrib attrib hattrib) hkept, fun jc => ?_, ?_⟩
    · show ((jc.getService q.cmd).toList.map fun srv =>
        (srv, q.bytes.take packet.datalen.toNat)) = _
      rw [← hdatalen, List.take_length]
    · intro hsmall δ drv md5 utf8 fuel m hfuel
      have hstands : StandsAt fuel (JBuf.wrap q.bytes hsmall) q.fields :=
        ⟨q.ascending_fields, hfuel, List.take_length⟩
      exact execTransact_login drv md5 utf8 hstands hfits.login hfits.cmd q.cmd_mem_fields
        (fun f hf => List.mem_append_right _ hf) m

end

/-- The login of `login_test_data`, with attributes and a short password. -/
theorem asked_iff_empty : @Asked ⟨fun v => v.setWidth 64, fun _ => [], fun _ => []⟩
    ⟨0, [76, 111, 103, 105, 110, 83, 118, 99], 100, some [], .byUID 1 [49, 50]⟩ := by
  refine (@asked_iff ⟨fun v => v.setWidth 64, fun _ => [], fun _ => []⟩ _ ⟨by decide, ?_, ?_⟩
    (by decide)).mpr ⟨[], rfl, by decide, by decide, Or.inl (by decide), nofun⟩
  · rintro attrib ⟨⟩
    exact ⟨List.nodup_nil, nofun⟩
  · simp only [Login.Fits, Login.fields, List.forall_mem_cons]
    exact ⟨trivial, trivial, show 2 ≤ 104857600 by decide, nofun⟩

/-! ## Whole runs -/

/-- A request with a login. -/
structure LoginRequest extends OCServer.Request where
  login : Login
  fits : login.Fits
  body_eq : body = encMessage id login.fields

namespace LoginRequest

/-- The message that the client has written. -/
def clientMsg (r : LoginRequest) : ClientMsg where
  UID := r.header.UID
  cmd := r.header.cmd
  packSeq := r.header.packSeq
  attrib := some r.header.attrib
  login := r.login

theorem data_eq_bytes (r : LoginRequest) : r.frame.data = r.clientMsg.bytes := by
  rw [r.data_eq, r.body_eq]
  exact (ClientMsg.bytes_of_attrib (q := r.clientMsg) rfl).symm

theorem data_lt (r : LoginRequest) : r.frame.data.length < 2 ^ 31 := by
  have hlen := r.frame.length_eq
  have hsmall := r.frame.small
  omega

variable {δ : Type} (drv : Driver δ) (md5 : MD5) (utf8 : List UInt8 → Text)

/-- The call of the login service for a request, which leaves the account manager to the next
one. -/
def transact (fuel : Nat) (r : LoginRequest) : EStateM LoginExc (AccountMgr δ) Unit := fun m =>
  match execTransact drv md5 utf8 fuel (JBuf.wrap r.frame.data r.data_lt, m) with
  | .ok _ s => .ok () s.2
  | .error e s => .error e s.2

/-- What is asked, with the exceptions of the service. -/
def asking {α : Type} (x : DbM δ α) : EStateM LoginExc (AccountMgr δ) α := fun m =>
  match x m with
  | .ok a m' => .ok a m'
  | .error e m' => .error (.db e) m'

theorem transact_eq {fuel : Nat} (r : LoginRequest) (hfuel : 2 * r.frame.data.length < fuel) :
    r.transact drv md5 utf8 fuel = asking (r.login.ask drv md5 utf8) := by
  have hlt := r.data_lt
  have hdata := r.data_eq_bytes
  funext m
  have hstands : StandsAt fuel (JBuf.wrap r.frame.data hlt) r.clientMsg.fields := by
    refine ⟨r.clientMsg.ascending_fields, ?_, ?_⟩
    · show 2 * r.clientMsg.bytes.length < fuel
      rwa [← hdata]
    · show At (JBuf.wrap r.frame.data hlt) r.clientMsg.bytes
      rw [← hdata]
      exact List.take_length
  obtain ⟨b', hrun⟩ := execTransact_login drv md5 utf8 hstands r.fits r.cmd_le
    r.clientMsg.cmd_mem_fields (fun f hf => List.mem_append_right _ hf) m
  unfold transact asking
  rw [hrun]
  cases r.login.ask drv md5 utf8 m <;> rfl

end LoginRequest

section

variable [FloatOps] {jc : JCommChannel} {es : List ServerEvent} {s : Server} {ops : List MsgOp}
  {needTls : Bool} {mem : Nat → ClientConnS} {msg : Nat → FromMsg} {srv : Nat}

/-- Clients that log in, over any number of connections and whatever order the threads go in:
the login service is called at most once, with the bytes of the first login that has arrived
from some client, and the process goes on only if it has not been called.  Whatever the account
manager answers, the call asks it for this login. -/
theorem logins_asked (sent : Nat → List LoginRequest)
    (hsent : ∀ c, Uvnet.heard c (Server.callbacks es) <+:
      OCServer.Request.bytes ((sent c).map LoginRequest.toRequest))
    (hsrv : ∀ c, ∀ r ∈ sent c, jc.getService r.header.cmd = some srv)
    (h : Server.run jc (Server.start needTls mem msg) es = .ok (s, ops)) :
    ∃ served : Option (Nat × LoginRequest),
      transacts ops = served.toList.map (fun p => (srv, p.2.frame.data)) ∧
      (served = none ↔ s.msgs.Intact) ∧
      ∀ p ∈ served,
        (Merge.complete (fun r => r.frame.size) (sent p.1)
          (Uvnet.heard p.1 (Server.callbacks es)).length).head? = some p.2 ∧
        ∀ (δ : Type) (drv : Driver δ) (md5 : MD5) (utf8 : List UInt8 → Text) (fuel : Nat),
          2 * p.2.frame.data.length < fuel →
            p.2.transact drv md5 utf8 fuel = LoginRequest.asking (p.2.login.ask drv md5 utf8) := by
  obtain ⟨first, waits, todo, hcalls, hnone, -, -, hparts⟩ :=
    Server.exists_requests (fun c => (sent c).map LoginRequest.toRequest) hsent h
  unfold OCServer.Request.complete at hparts
  simp only [Merge.complete_map] at hparts
  obtain ⟨qs, hqs, hqparts⟩ := Merge.exists_of_part_map LoginRequest.toRequest _ _ hparts
  rw [List.append_assoc] at hqs
  obtain ⟨done, rest, rfl, hdone, -⟩ := List.map_eq_append_iff.mp hqs.symm
  obtain ⟨served, rfl, hserved⟩ := Merge.exists_of_map_toList _ hdone
  have hfirst := Merge.head_part hqparts
  refine ⟨served, ?_, hserved.trans hnone, fun p hp => ⟨hfirst p hp,
    fun δ drv md5 utf8 fuel hfuel =>
    LoginRequest.transact_eq drv md5 utf8 p.2 hfuel⟩⟩
  rw [hcalls, ← hdone, List.flatMap_map, List.map_eq_flatMap]
  refine List.flatMap_congr fun p hp => ?_
  -- the request that is served has been sent
  have hsome : p.2 ∈ Merge.complete (fun r => r.frame.size) (sent p.1)
      (Uvnet.heard p.1 (Server.callbacks es)).length :=
    List.mem_of_head? (hfirst p (Option.mem_toList.mp hp))
  show ((jc.getService p.2.header.cmd).toList.map fun srv => (srv, p.2.frame.data)) = _
  rw [hsrv p.1 p.2 ((Merge.complete_prefix _ _ _).subset hsome)]
  rfl

end

/-- The login of `asked_iff_empty` as a packet. -/
def oneLogin : LoginRequest where
  frame := ⟨⟨1, 0x0C, 0xEA, 5, 22⟩, [0x0C, 0x16, 8, 76, 111, 103, 105, 110, 83, 118, 99, 0x20, 100,
    0x38, 0x0C, 0x4C, 0x50, 1, 0x66, 2, 49, 50], by decide, rfl, by decide⟩
  header := ⟨0, [76, 111, 103, 105, 110, 83, 118, 99], 100, []⟩
  body := [0x4C, 0x50, 1, 0x66, 2, 49, 50]
  data_eq := rfl
  cmd_le := by decide
  attrib_ok := ⟨List.nodup_nil, nofun⟩
  kept := ⟨by decide, by decide, Or.inl (by decide), nofun⟩
  login := .byUID 1 [49, 50]
  fits := by
    simp only [Login.Fits, Login.fields, List.forall_mem_cons]
    exact ⟨trivial, trivial, show 2 ≤ 104857600 by decide, nofun⟩
  body_eq := rfl

/-- Its bytes, in one chunk. -/
def oneLoginChunk : Chunk where
  bytes := [0x0C, 1, 0x0C, 0xEA, 5, 0, 0, 0, 22, 0x0C, 0x16, 8, 76, 111, 103, 105, 110, 83, 118, 99,
    0x20, 100, 0x38, 0x0C, 0x4C, 0x50, 1, 0x66, 2, 49, 50, 0xEA]
  size_lt := by decide

/-- A registry with the login service. -/
def loginRegistry : JCommChannel :=
  ((JCommChannel.start [JCommChannel.loginSvc]).loadJavaSrv JCommChannel.loginSvc .object).2

/-- The first connection sends it, and it is handled. -/
theorem logins_asked_one :
    ∃ (s : Server) (ops : List MsgOp) (served : Option (Nat × LoginRequest)),
      transacts ops = [(0, oneLogin.frame.data)] ∧
      transacts ops = served.toList.map (fun p => (0, p.2.frame.data)) ∧
      (served = none ↔ s.msgs.Intact) ∧
      ∀ p ∈ served,
        (Merge.complete (fun r => r.frame.size) (if p.1 = 0 then [oneLogin] else [])
          (Uvnet.heard p.1 (Server.callbacks (Server.oneEvents oneLoginChunk ++
            Server.handledEvents))).length).head? = some p.2 ∧
        ∀ (δ : Type) (drv : Driver δ) (md5 : MD5) (utf8 : List UInt8 → Text) (fuel : Nat),
          2 * p.2.frame.data.length < fuel →
            p.2.transact drv md5 utf8 fuel = LoginRequest.asking (p.2.login.ask drv md5 utf8) := by
  let F : FloatOps := ⟨fun v => v.setWidth 64, fun _ => [], fun _ => []⟩
  have hsent : ∀ c, Uvnet.heard c (Server.callbacks (Server.oneEvents oneLoginChunk ++
      Server.handledEvents)) <+: OCServer.Request.bytes
        ((if c = 0 then [oneLogin] else []).map LoginRequest.toRequest) := by
    intro c
    by_cases hzero : c = 0
    · subst hzero
      exact List.prefix_refl _
    · have hnone : Uvnet.heard c (Server.callbacks (Server.oneEvents oneLoginChunk ++
          Server.handledEvents)) = [] := by
        simp [Server.callbacks, Server.oneEvents, Server.handledEvents, Uvnet.heard,
          Server.acceptOne, Uvnet.bytesOf, Ne.symm hzero]
      rw [hnone]
      exact List.nil_prefix
  have hsrv : ∀ c, ∀ r ∈ (if c = 0 then [oneLogin] else []),
      loginRegistry.getService r.header.cmd = some 0 := by
    intro c r hr
    by_cases hzero : c = 0
    · rw [if_pos hzero, List.mem_singleton] at hr
      subst hr
      rfl
    · rw [if_neg hzero] at hr
      cases hr
  obtain ⟨s, s', ops, ops', hfst, hsnd, hcalls, -, -⟩ :=
    Server.run_handled (d := ⟨0, oneLogin.frame.packet, oneLogin.frame.data⟩)
      (h := oneLogin.header) (r := oneLogin.body) loginRegistry oneLoginChunk (by decide)
      (by decide) rfl
  obtain ⟨served, hserved, hnone, hasked⟩ := logins_asked _ hsent hsrv (Machine.run_trans hfst hsnd)
  exact ⟨s', ops ++ ops', served, hcalls, hserved, hnone, hasked⟩

end OCServer.LoginSvc
