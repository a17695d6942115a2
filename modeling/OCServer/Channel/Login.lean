import OCServer.Database.Account
import OCServer.Proto.JavaAccept

/-!
# The login service

`LoginSvc.transact`, behind the entry point `AppPortImpl.execTransact` that
C++ calls.  Neither of them catches anything, and the account manager only
catches `SQLException`, so what the reads of the request and the hashing of
the password throw reaches the caller.

`execTransact_returns_iff` says for which requests the call returns: `RequestAt` is
the well-formed request and `Answered` is what the database must have.
-/

namespace OCServer.LoginSvc

open ByteIO Database Java SqlLex

/-- What `transact` throws. -/
inductive LoginExc
  | input (e : JExc)
  | db (e : DbExc)
  deriving DecidableEq

/-- A program over the request and the account manager. -/
abbrev LoginM (δ : Type) := EStateM LoginExc (JBuf × AccountMgr δ)

section

variable {δ α : Type}

/-- A read of `data`. -/
def onInput (x : JIn α) : LoginM δ α := fun s =>
  match x s.1 with
  | .ok a b => .ok a (b, s.2)
  | .error e b => .error (.input e) (b, s.2)

/-- A call of `db`. -/
def onDb (x : DbM δ α) : LoginM δ α := fun s =>
  match x s.2 with
  | .ok a m => .ok a (s.1, m)
  | .error e m => .error (.db e) (s.1, m)

end

/-- `PROTO_APP_FIRST_TAG`. -/
def protoAppFirstTag : Int := 4

/-- `data.read( cmd, tag, true )` and `data.readString( tag, true )`. -/
def readString (fuel : Nat) (tag : Int) : JIn (List UInt8) :=
  optional (skipToTag fuel tag) true [] stringBody

variable {δ : Type} (drv : Driver δ) (md5 : MD5) (utf8 : List UInt8 → Text)

/-- `transact`.  `utf8` decodes the bytes of a string. -/
def transact (fuel : Nat) : LoginM δ Bool := do
  let _cmd ← onInput (readString fuel 1)
  let login_type ← onInput (optional (skipToTag fuel protoAppFirstTag) true (-1) byteBody)
  if login_type = 0 then
    let UID ← onInput (optional (skipToTag fuel (protoAppFirstTag + 1)) true 0
      (integerBody 64 protoLong))
    let pwdMD5 ← onInput (readString fuel (protoAppFirstTag + 2))
    let _result ← onDb (AuthPassword drv md5 UID (utf8 pwdMD5))
    pure true
  else if login_type = 1 then
    let Email ← onInput (readString fuel (protoAppFirstTag + 1))
    let pwdMD5 ← onInput (readString fuel (protoAppFirstTag + 2))
    let UID ← onDb (getUIDbyEmail drv (utf8 Email))
    let _result ← onDb (AuthPassword drv md5 UID (utf8 pwdMD5))
    pure true
  else pure true

/-- `AppPortImpl.execTransact`. -/
def execTransact (fuel : Nat) : LoginM δ Bool := transact drv md5 utf8 fuel

/-! ## The request -/

/-- What a request asks for. -/
inductive Request
  | byUID (UID : Long) (pwdMD5 : List UInt8)
  | byEmail (Email pwdMD5 : List UInt8)
  | other

/-- A well-formed request: a command, a login type and the two fields of that
type. -/
inductive RequestAt (fuel : Nat) (b : JBuf) : Request → Prop
  | byUID {b₁ b₂ b₃ b₄ : JBuf} {cmd pwdMD5 : List UInt8} {UID : Long}
    (hcmd : Field fuel 1 StringField b cmd b₁)
    (htype : Field fuel protoAppFirstTag (IntegerField 8 protoByte) b₁ 0 b₂)
    (hUID : Field fuel (protoAppFirstTag + 1) (IntegerField 64 protoLong) b₂ UID b₃)
    (hpwd : Field fuel (protoAppFirstTag + 2) StringField b₃ pwdMD5 b₄) :
    RequestAt fuel b (.byUID UID pwdMD5)
  | byEmail {b₁ b₂ b₃ b₄ : JBuf} {cmd Email pwdMD5 : List UInt8}
    (hcmd : Field fuel 1 StringField b cmd b₁)
    (htype : Field fuel protoAppFirstTag (IntegerField 8 protoByte) b₁ 1 b₂)
    (hEmail : Field fuel (protoAppFirstTag + 1) StringField b₂ Email b₃)
    (hpwd : Field fuel (protoAppFirstTag + 2) StringField b₃ pwdMD5 b₄) :
    RequestAt fuel b (.byEmail Email pwdMD5)
  | other {b₁ b₂ : JBuf} {cmd : List UInt8} {login_type : BitVec 8}
    (hcmd : Field fuel 1 StringField b cmd b₁)
    (htype : Field fuel protoAppFirstTag (IntegerField 8 protoByte) b₁ login_type b₂)
    (hUID : login_type ≠ 0) (hEmail : login_type ≠ 1) : RequestAt fuel b .other

/-- The database is connected, and if it has a row for the UID, the salt
there is long enough for the password.  With a closed statement the row is
not looked at. -/
def CanAuth (m : AccountMgr δ) (UID : Long) (pwdMD5 : Text) : Prop :=
  match m.conn with
  | .null => False
  | .connected _ .closed => True
  | .connected db _ => ∀ row r rt salt,
    drv.executeQuery db ((Stmt.authPassword UID).sql m.t) = some (row :: r) →
      row.pwdMd5 = some rt → row.PwdSalt = some salt → saltLength pwdMD5 ≤ salt.length

/-- The UID that the database has for an e-mail address, or -1. -/
def emailUID (m : AccountMgr δ) (Email : Text) : Long :=
  match m.conn with
  | .connected _ .closed => -1
  | .connected db _ => emailResult (drv.executeQuery db ((Stmt.getUIDbyEmail Email).sql m.t))
  | .null => -1

/-- What a request needs of the database. -/
def Answered (m : AccountMgr δ) : Request → Prop
  | .byUID UID pwdMD5 => CanAuth drv m UID (utf8 pwdMD5)
  | .byEmail Email pwdMD5 => CanAuth drv m (emailUID drv m (utf8 Email)) (utf8 pwdMD5)
  | .other => True

/-! ## The database -/

section

variable {m : AccountMgr δ} {db : δ} {st : StStatus}

theorem canAuth_live (hconn : m.conn = .connected db st) (hst : st ≠ .closed) (UID : Long)
    (pwdMD5 : Text) : CanAuth drv m UID pwdMD5 ↔ ∀ row r rt salt,
      drv.executeQuery db ((Stmt.authPassword UID).sql m.t) = some (row :: r) →
        row.pwdMd5 = some rt → row.PwdSalt = some salt → saltLength pwdMD5 ≤ salt.length := by
  unfold CanAuth
  rw [hconn]
  cases st with
  | closed => exact absurd rfl hst
  | _ => exact Iff.rfl

/-- Hashing is what can go wrong. -/
theorem authResult_isSome_iff (UID : Long) (pwdMD5 : Text) (rows : Option (List ResultRow)) :
    (authResult md5 UID pwdMD5 rows).isSome = true ↔ ∀ row r rt salt,
      rows = some (row :: r) → row.pwdMd5 = some rt → row.PwdSalt = some salt →
        saltLength pwdMD5 ≤ salt.length := by
  cases rows with
  | none => simp [authResult]
  | some rows =>
    cases rows with
    | nil => simp [authResult]
    | cons row rows =>
      rcases row with ⟨UID', rt, salt⟩
      cases rt with
      | none =>
        refine iff_of_true rfl ?_
        rintro _ _ _ _ ⟨⟩ ⟨⟩
      | some rt =>
        cases salt with
        | none =>
          refine iff_of_true rfl ?_
          rintro _ _ _ _ ⟨⟩ - ⟨⟩
        | some salt =>
          simp only [authResult, Option.isSome_map, getPwdMd5_isSome_iff]
          constructor
          · rintro h _ _ _ _ ⟨⟩ ⟨⟩ ⟨⟩
            exact h
          · intro h
            exact h _ _ _ _ rfl rfl rfl

theorem answer_returns_iff {α : Type} (m : AccountMgr δ) (r : Option α) :
    (∃ a m', answer m r = .ok a m') ↔ r.isSome = true := by
  cases r with
  | none =>
    refine iff_of_false ?_ (by simp)
    intro h
    rcases h with ⟨_, _, h⟩
    cases h
  | some a => exact iff_of_true ⟨a, m, rfl⟩ rfl

theorem AuthPassword_returns_iff (m : AccountMgr δ) (UID : Long) (pwdMD5 : Text) :
    (∃ r m', AuthPassword drv md5 UID pwdMD5 m = .ok r m') ↔ CanAuth drv m UID pwdMD5 := by
  cases hconn : m.conn with
  | null =>
    rw [AuthPassword_null drv md5 hconn]
    unfold CanAuth
    rw [hconn]
    refine iff_of_false ?_ not_false
    intro h
    rcases h with ⟨_, _, h⟩
    cases h
  | connected db st =>
    by_cases hst : st = .closed
    · subst hst
      rw [AuthPassword_closed drv md5 hconn]
      unfold CanAuth
      rw [hconn]
      exact iff_of_true ⟨_, _, rfl⟩ trivial
    · rw [AuthPassword_live drv md5 hconn hst, answer_returns_iff, authResult_isSome_iff,
        canAuth_live drv hconn hst]

/-- Looking for an e-mail address leaves what `CanAuth` asks as it is. -/
theorem getUIDbyEmail_returns (hconn : m.conn = .connected db st) (Email : Text) :
    ∃ m', getUIDbyEmail drv Email m = .ok (emailUID drv m Email) m' ∧
      ∀ UID pwdMD5, CanAuth drv m' UID pwdMD5 ↔ CanAuth drv m UID pwdMD5 := by
  by_cases hst : st = .closed
  · subst hst
    refine ⟨m.misuse, ?_, fun UID pwdMD5 => ?_⟩
    · rw [getUIDbyEmail_closed drv hconn]
      unfold emailUID
      rw [hconn]
    · have hconn' : m.misuse.conn = .connected db .closed := hconn
      unfold CanAuth
      rw [hconn, hconn']
  · refine ⟨m.opened db, ?_, fun UID pwdMD5 => ?_⟩
    · rw [getUIDbyEmail_live drv hconn hst]
      unfold emailUID
      rw [hconn]
      cases st with
      | closed => exact absurd rfl hst
      | _ => rfl
    · rw [canAuth_live drv hconn hst]
      exact canAuth_live drv (m := m.opened db) rfl (by decide) UID pwdMD5

end

/-! ## The call -/

theorem onInput_of_ok {α : Type} {x : JIn α} {b b' : JBuf} {a : α} {m : AccountMgr δ}
    (h : x b = .ok a b') : onInput x (b, m) = .ok a (b', m) := by
  unfold onInput
  rw [h]

theorem onInput_bind_eq_ok {α β : Type} {x : JIn α} {f : α → LoginM δ β} {b : JBuf}
    {m : AccountMgr δ} {c : β} {s' : JBuf × AccountMgr δ}
    (h : (onInput x >>= f) (b, m) = .ok c s') :
    ∃ a b', x b = .ok a b' ∧ f a (b', m) = .ok c s' := by
  rcases bind_eq_ok h with ⟨a, s₁, ha, hf⟩
  unfold onInput at ha
  cases hx : x b with
  | ok a₁ b₁ =>
    simp only [hx] at ha
    cases ha
    exact ⟨a, b₁, rfl, hf⟩
  | error e b₁ =>
    simp only [hx] at ha
    cases ha

theorem onDb_of_ok {α : Type} {x : DbM δ α} {b : JBuf} {a : α} {m m' : AccountMgr δ}
    (h : x m = .ok a m') : onDb x (b, m) = .ok a (b, m') := by
  unfold onDb
  rw [h]

theorem onDb_bind_eq_ok {α β : Type} {x : DbM δ α} {f : α → LoginM δ β} {b : JBuf}
    {m : AccountMgr δ} {c : β} {s' : JBuf × AccountMgr δ}
    (h : (onDb x >>= f) (b, m) = .ok c s') :
    ∃ a m', x m = .ok a m' ∧ f a (b, m') = .ok c s' := by
  rcases bind_eq_ok h with ⟨a, s₁, ha, hf⟩
  unfold onDb at ha
  cases hx : x m with
  | ok a₁ m₁ =>
    simp only [hx] at ha
    cases ha
    exact ⟨a, m₁, rfl, hf⟩
  | error e m₁ =>
    simp only [hx] at ha
    cases ha

theorem readString_eq_ok_iff {fuel : Nat} {tag : Int} {b b' : JBuf} {s : List UInt8} :
    readString fuel tag b = .ok s b' ↔ Field fuel tag StringField b s b' :=
  optional_eq_ok_iff stringBody_readsIff fuel tag [] b s b'

theorem readType_eq_ok_iff {fuel : Nat} {tag : Int} {b b' : JBuf} {v : BitVec 8} :
    optional (skipToTag fuel tag) true (-1) byteBody b = .ok v b' ↔
      Field fuel tag (IntegerField 8 protoByte) b v b' :=
  optional_eq_ok_iff byteBody_readsIff fuel tag (-1) b v b'

theorem readLong_eq_ok_iff {fuel : Nat} {tag : Int} {b b' : JBuf} {v : Long} :
    optional (skipToTag fuel tag) true 0 (integerBody 64 protoLong) b = .ok v b' ↔
      Field fuel tag (IntegerField 64 protoLong) b v b' :=
  optional_eq_ok_iff (integerBody_readsIff 64 protoLong) fuel tag 0 b v b'

/-- The two questions that a request of type 1 has for the database. -/
theorem authEmail_iff (m : AccountMgr δ) (Email pwdMD5 : Text) :
    (∃ UID m' r m'', getUIDbyEmail drv Email m = .ok UID m' ∧
      AuthPassword drv md5 UID pwdMD5 m' = .ok r m'') ↔
        CanAuth drv m (emailUID drv m Email) pwdMD5 := by
  cases hconn : m.conn with
  | null =>
    rw [getUIDbyEmail_null drv hconn]
    refine iff_of_false ?_ ?_
    · intro h
      rcases h with ⟨_, _, _, _, h, -⟩
      cases h
    · unfold CanAuth
      rw [hconn]
      exact not_false
  | connected db st =>
    rcases getUIDbyEmail_returns drv hconn Email with ⟨m', hfind, hsame⟩
    constructor
    · intro h
      rcases h with ⟨UID, m₁, r, m'', h, hauth⟩
      rw [hfind] at h
      cases h
      exact (hsame _ _).mp ((AuthPassword_returns_iff drv md5 _ _ _).mp ⟨r, m'', hauth⟩)
    · intro h
      rcases (AuthPassword_returns_iff drv md5 _ _ _).mpr ((hsame _ _).mpr h) with ⟨r, m'', hauth⟩
      exact ⟨_, m', r, m'', hfind, hauth⟩

/-- If `transact` returns, the request was well-formed and the database had
what it needs. -/
theorem request_of_transact {fuel : Nat} {b : JBuf} {m : AccountMgr δ} {res : Bool}
    {s' : JBuf × AccountMgr δ} (h : transact drv md5 utf8 fuel (b, m) = .ok res s') :
    ∃ req, RequestAt fuel b req ∧ Answered drv utf8 m req := by
  unfold transact at h
  rcases onInput_bind_eq_ok h with ⟨cmd, b₁, hcmd, h₁⟩
  rcases onInput_bind_eq_ok h₁ with ⟨login_type, b₂, htype, h₂⟩
  have hcmd := readString_eq_ok_iff.mp hcmd
  have htype := readType_eq_ok_iff.mp htype
  by_cases h0 : login_type = 0
  · subst h0
    rw [if_pos rfl] at h₂
    rcases onInput_bind_eq_ok h₂ with ⟨UID, b₃, hUID, h₃⟩
    rcases onInput_bind_eq_ok h₃ with ⟨pwdMD5, b₄, hpwd, h₄⟩
    rcases onDb_bind_eq_ok h₄ with ⟨r, m', hauth, -⟩
    exact ⟨.byUID UID pwdMD5, .byUID hcmd htype (readLong_eq_ok_iff.mp hUID)
      (readString_eq_ok_iff.mp hpwd), (AuthPassword_returns_iff drv md5 m UID _).mp ⟨r, m', hauth⟩⟩
  rw [if_neg h0] at h₂
  by_cases h1 : login_type = 1
  · subst h1
    rw [if_pos rfl] at h₂
    rcases onInput_bind_eq_ok h₂ with ⟨Email, b₃, hEmail, h₃⟩
    rcases onInput_bind_eq_ok h₃ with ⟨pwdMD5, b₄, hpwd, h₄⟩
    rcases onDb_bind_eq_ok h₄ with ⟨UID, m₁, hfind, h₅⟩
    rcases onDb_bind_eq_ok h₅ with ⟨r, m₂, hauth, -⟩
    exact ⟨.byEmail Email pwdMD5, .byEmail hcmd htype (readString_eq_ok_iff.mp hEmail)
      (readString_eq_ok_iff.mp hpwd),
      (authEmail_iff drv md5 m _ _).mp ⟨UID, m₁, r, m₂, hfind, hauth⟩⟩
  · exact ⟨.other, .other hcmd htype h0 h1, trivial⟩

/-- On a well-formed request with what it needs, `transact` returns. -/
theorem transact_of_request {fuel : Nat} {b : JBuf} {m : AccountMgr δ} {req : Request}
    (hreq : RequestAt fuel b req) (hdb : Answered drv utf8 m req) :
    ∃ s', transact drv md5 utf8 fuel (b, m) = .ok true s' := by
  unfold transact
  cases hreq with
  | byUID hcmd htype hUID hpwd =>
    rcases (AuthPassword_returns_iff drv md5 m _ _).mpr hdb with ⟨r, m', hauth⟩
    rw [bind_of_ok (onInput_of_ok (readString_eq_ok_iff.mpr hcmd)),
      bind_of_ok (onInput_of_ok (readType_eq_ok_iff.mpr htype)), if_pos rfl,
      bind_of_ok (onInput_of_ok (readLong_eq_ok_iff.mpr hUID)),
      bind_of_ok (onInput_of_ok (readString_eq_ok_iff.mpr hpwd)), bind_of_ok (onDb_of_ok hauth)]
    exact ⟨_, rfl⟩
  | byEmail hcmd htype hEmail hpwd =>
    rcases (authEmail_iff drv md5 m _ _).mpr hdb with ⟨UID, m₁, r, m₂, hfind, hauth⟩
    rw [bind_of_ok (onInput_of_ok (readString_eq_ok_iff.mpr hcmd)),
      bind_of_ok (onInput_of_ok (readType_eq_ok_iff.mpr htype)), if_neg (by decide), if_pos rfl,
      bind_of_ok (onInput_of_ok (readString_eq_ok_iff.mpr hEmail)),
      bind_of_ok (onInput_of_ok (readString_eq_ok_iff.mpr hpwd)), bind_of_ok (onDb_of_ok hfind),
      bind_of_ok (onDb_of_ok hauth)]
    exact ⟨_, rfl⟩
  | other hcmd htype h0 h1 =>
    rw [bind_of_ok (onInput_of_ok (readString_eq_ok_iff.mpr hcmd)),
      bind_of_ok (onInput_of_ok (readType_eq_ok_iff.mpr htype)), if_neg h0, if_neg h1]
    exact ⟨_, rfl⟩

/-- For every buffer, database and state of the account manager: the call
returns if and only if the buffer holds a well-formed request and the
database has what that needs. -/
theorem execTransact_returns_iff (b : JBuf) (m : AccountMgr δ) :
    (∃ fuel res s', execTransact drv md5 utf8 fuel (b, m) = .ok res s') ↔
      ∃ fuel req, RequestAt fuel b req ∧ Answered drv utf8 m req := by
  constructor
  · intro h
    rcases h with ⟨fuel, res, s', h⟩
    exact ⟨fuel, request_of_transact drv md5 utf8 h⟩
  · intro h
    rcases h with ⟨fuel, req, hreq, hdb⟩
    rcases transact_of_request drv md5 utf8 hreq hdb with ⟨s', h⟩
    exact ⟨fuel, true, s', h⟩

/-- An empty request has no command. -/
theorem not_always_execTransact_returns :
    ¬∀ (drv : Driver Unit) (md5 : MD5) (utf8 : List UInt8 → Text) (b : JBuf)
      (m : AccountMgr Unit), ∃ fuel res s', execTransact drv md5 utf8 fuel (b, m) = .ok res s' := by
  intro h
  rcases h ⟨fun _ _ => none, fun _ _ => none⟩ ⟨fun _ => [], by simp⟩ (fun _ => [])
    (JBuf.wrap [] (by decide)) ⟨.sqlite, .connected () .null, false⟩ with ⟨fuel, res, s', hok⟩
  unfold execTransact transact at hok
  rcases onInput_bind_eq_ok hok with ⟨cmd, b₁, hcmd, -⟩
  rcases readString_eq_ok_iff.mp hcmd with ⟨b₂, r, hskip, -⟩
  cases fuel with
  | zero => cases hskip
  | succ fuel => cases hskip

end OCServer.LoginSvc
