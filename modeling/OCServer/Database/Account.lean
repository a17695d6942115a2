import OCServer.Database.Sql
import OCServer.Lib.ByteIO

/-!
# The account manager

`Database` and `AccountMgrImpl`, over any database.  All operations share the
one `Statement` of the `Database`: `simple_query` and `simple_update` create
it when there is none, and `simple_update` closes it and keeps it.

An operation is a program over the manager that may throw.  It catches an
`SQLException` itself, and nothing else.
-/

namespace OCServer.Database

open ByteIO SqlLex

/-- The current row of a `ResultSet`: what `getLong` and `getString` answer
for the columns that are read.  `none` says that they throw. -/
structure ResultRow where
  UID : Option Long
  pwdMd5 : Option Text
  PwdSalt : Option Text
  deriving DecidableEq, Repr

/-- A database whose content is a `δ`.  `none` is an `SQLException`. -/
structure Driver (δ : Type) where
  executeQuery : δ → Text → Option (List ResultRow)
  executeUpdate : δ → Text → Option δ

/-- The field `st`. -/
inductive StStatus
  | null
  | opened
  | closed
  deriving DecidableEq, Repr

/-- The fields `dbconn` and `st`.  Without a connection there is no
statement. -/
inductive Conn (δ : Type)
  | null
  | connected (db : δ) (st : StStatus)
  deriving DecidableEq, Repr

/-- The manager.  `misused` records whether a closed `Statement` has been
used. -/
structure AccountMgr (δ : Type) where
  t : DBtype
  conn : Conn δ
  misused : Bool
  deriving DecidableEq, Repr

/-- What an operation throws. -/
inductive DbExc
  | sqlException
  | nullPointer
  | stringIndexOutOfBounds
  deriving DecidableEq, Repr

/-- A program over the manager. -/
abbrev DbM (δ : Type) := EStateM DbExc (AccountMgr δ)

variable {δ : Type} (drv : Driver δ) (md5 : MD5)

/-! ## `Database` -/

/-- `if( st == null ) st = dbconn.createStatement()`. -/
def createStatement : DbM δ Unit := fun m =>
  match m.conn with
  | .null => .error .nullPointer m
  | .connected db .null => .ok () { m with conn := .connected db .opened }
  | .connected _ _ => .ok () m

/-- `st.executeQuery`. -/
def executeQuery (SQL : Text) : DbM δ (List ResultRow) := fun m =>
  match m.conn with
  | .connected db .opened =>
    match drv.executeQuery db SQL with
    | some rs => .ok rs m
    | none => .error .sqlException m
  | .connected _ .closed => .error .sqlException { m with misused := true }
  | _ => .error .nullPointer m

/-- `st.executeUpdate`. -/
def executeUpdate (SQL : Text) : DbM δ Unit := fun m =>
  match m.conn with
  | .connected db .opened =>
    match drv.executeUpdate db SQL with
    | some db => .ok () { m with conn := .connected db .opened }
    | none => .error .sqlException m
  | .connected _ .closed => .error .sqlException { m with misused := true }
  | _ => .error .nullPointer m

/-- `st.close()`. -/
def closeStatement : DbM δ Unit := fun m =>
  match m.conn with
  | .connected db .opened => .ok () { m with conn := .connected db .closed }
  | _ => .ok () m

/-- `simple_query`. -/
def simple_query (SQL : Text) : DbM δ (List ResultRow) := do
  createStatement
  executeQuery drv SQL

/-- `simple_update`. -/
def simple_update (SQL : Text) : DbM δ Unit := do
  createStatement
  executeUpdate drv SQL
  closeStatement

/-- `catch( SQLException e )`. -/
def catchSQL {α : Type} (m : DbM δ α) (a : α) : DbM δ α := fun s =>
  match m s with
  | .error .sqlException s => .ok a s
  | r => r

/-- A column of the current row. -/
def column? {α : Type} (c : Option α) : DbM δ α :=
  match c with
  | some a => pure a
  | none => throw .sqlException

/-! ## `AccountMgrImpl` -/

/-- The text of a statement. -/
def sqlOf (s : Stmt) : DbM δ Text := fun m => .ok (s.sql m.t) m

/-- `getPwdMd5`. -/
def pwdMd5Of (UID : Long) (pwdMd5 Salt : Text) : DbM δ Text :=
  match getPwdMd5 md5 UID pwdMd5 Salt with
  | some pwd => pure pwd
  | none => throw .stringIndexOutOfBounds

/-- `AuthPassword`. -/
def AuthPassword (UID : Long) (pwdMD5 : Text) : DbM δ Int :=
  catchSQL (do
    let r ← simple_query drv (← sqlOf (.authPassword UID))
    match r with
    | [] => pure (-1)
    | row :: _ =>
      let rt ← column? row.pwdMd5
      let salt ← column? row.PwdSalt
      let pwd2 ← pwdMd5Of md5 UID pwdMD5 salt
      if rt = pwd2 then pure 0 else pure (-2)) (-3)

/-- The loop of `getUIDbyName`.  What was added before an exception stays. -/
def addAll : List ResultRow → List Long
  | [] => []
  | row :: r =>
    match row.UID with
    | some UID => UID :: addAll r
    | none => []

/-- `getUIDbyName`. -/
def getUIDbyName (UName : Text) : DbM δ (List Long) :=
  catchSQL (do
    let r ← simple_query drv (← sqlOf (.getUIDbyName UName))
    pure (addAll r)) []

/-- `getUIDbyEmail`. -/
def getUIDbyEmail (Email : Text) : DbM δ Long :=
  catchSQL (do
    let r ← simple_query drv (← sqlOf (.getUIDbyEmail Email))
    match r with
    | [] => pure (-1)
    | row :: _ => column? row.UID) (-1)

/-- `getnextUID`. -/
def getnextUID : DbM δ Long :=
  catchSQL (do
    let r ← simple_query drv (← sqlOf .getnextUID)
    match r with
    | [] => pure 1
    | row :: _ => return (← column? row.UID) + 1) (-1)

/-- `createAccount`, with the random bytes `b`. -/
def createAccount (b : Fin 16 → UInt8) (UName UEmail pwdMd5 : Text) : DbM δ Long := do
  let nextUID ← getnextUID drv
  let Salt := getRandSalt b
  let pwd2 ← pwdMd5Of md5 nextUID pwdMd5 Salt
  let sql ← sqlOf (.createAccount nextUID pwd2 Salt UName UEmail)
  catchSQL (do
    simple_update drv sql
    pure nextUID) (-1)

/-- `updateUName`. -/
def updateUName (UID : Long) (NewName : Text) : DbM δ Int := do
  let sql ← sqlOf (.updateUName UID NewName)
  catchSQL (do
    simple_update drv sql
    pure 0) (-1)

/-- `updateUEmail`. -/
def updateUEmail (UID : Long) (Email : Text) : DbM δ Int := do
  let sql ← sqlOf (.updateUEmail UID Email)
  catchSQL (do
    simple_update drv sql
    pure 0) (-1)

/-- `updatePwd`, with the random bytes `b`. -/
def updatePwd (b : Fin 16 → UInt8) (UID : Long) (OldPwdMd5 NewPwdMd5 : Text) : DbM δ Int := do
  let auth ← AuthPassword drv md5 UID OldPwdMd5
  if auth ≠ 0 then pure (-1)
  else
    let Salt := getRandSalt b
    let pwd2 ← pwdMd5Of md5 UID NewPwdMd5 Salt
    let sql ← sqlOf (.updatePwd UID pwd2 Salt)
    catchSQL (do
      simple_update drv sql
      pure 0) (-2)

/-! ## What the statement allows -/

/-- The manager with an open statement on this content. -/
def AccountMgr.opened (m : AccountMgr δ) (db : δ) : AccountMgr δ :=
  { m with conn := .connected db .opened }

/-- The manager with a closed statement on this content. -/
def AccountMgr.closed (m : AccountMgr δ) (db : δ) : AccountMgr δ :=
  { m with conn := .connected db .closed }

/-- The manager after a closed statement was used. -/
def AccountMgr.misuse (m : AccountMgr δ) : AccountMgr δ := { m with misused := true }

section

variable {m : AccountMgr δ} {db : δ} {st : StStatus}

theorem createStatement_live (hconn : m.conn = .connected db st) (hst : st ≠ .closed) :
    createStatement m = .ok () (m.opened db) := by
  rcases m with ⟨t, conn, misused⟩
  simp only at hconn
  subst hconn
  cases st with
  | closed => exact absurd rfl hst
  | _ => rfl

/-- A query, with a statement that is not closed. -/
theorem simple_query_live (hconn : m.conn = .connected db st) (hst : st ≠ .closed)
    (SQL : Text) : simple_query drv SQL m =
      match drv.executeQuery db SQL with
      | some rs => .ok rs (m.opened db)
      | none => .error .sqlException (m.opened db) := by
  unfold simple_query
  rw [bind_of_ok (createStatement_live hconn hst)]
  rfl

/-- A query, with a closed statement. -/
theorem simple_query_closed (hconn : m.conn = .connected db .closed) (SQL : Text) :
    simple_query drv SQL m = .error .sqlException m.misuse := by
  rcases m with ⟨t, conn, misused⟩
  simp only at hconn
  subst hconn
  rfl

/-- A query without a connection. -/
theorem simple_query_null (hconn : m.conn = .null) (SQL : Text) :
    simple_query drv SQL m = .error .nullPointer m := by
  rcases m with ⟨t, conn, misused⟩
  simp only at hconn
  subst hconn
  rfl

/-- An update, with a statement that is not closed: it is closed, unless the
database throws. -/
theorem simple_update_live (hconn : m.conn = .connected db st) (hst : st ≠ .closed)
    (SQL : Text) : simple_update drv SQL m =
      match drv.executeUpdate db SQL with
      | some db' => .ok () (m.closed db')
      | none => .error .sqlException (m.opened db) := by
  unfold simple_update
  rw [bind_of_ok (createStatement_live hconn hst)]
  cases hupd : drv.executeUpdate db SQL with
  | none =>
    refine bind_of_error ?_
    show (match drv.executeUpdate db SQL with
      | some db => _
      | none => _) = _
    rw [hupd]
  | some db' =>
    have hrun : executeUpdate drv SQL (m.opened db) = .ok () (m.opened db') := by
      show (match drv.executeUpdate db SQL with
        | some db => _
        | none => _) = _
      rw [hupd]
      rfl
    rw [bind_of_ok hrun]
    rfl

/-- An update, with a closed statement. -/
theorem simple_update_closed (hconn : m.conn = .connected db .closed) (SQL : Text) :
    simple_update drv SQL m = .error .sqlException m.misuse := by
  rcases m with ⟨t, conn, misused⟩
  simp only at hconn
  subst hconn
  rfl

/-! ## One lemma for each operation -/

theorem sqlOf_bind {α : Type} (s : Stmt) (f : Text → DbM δ α) :
    (sqlOf s >>= f) m = f (s.sql m.t) m := rfl

theorem catchSQL_of_ok {α : Type} {x : DbM δ α} {a : α} {m' : AccountMgr δ}
    (h : x m = .ok a m') (a' : α) : catchSQL x a' m = .ok a m' := by
  unfold catchSQL
  rw [h]

theorem catchSQL_of_sql {α : Type} {x : DbM δ α} {m' : AccountMgr δ}
    (h : x m = .error .sqlException m') (a' : α) : catchSQL x a' m = .ok a' m' := by
  unfold catchSQL
  rw [h]

theorem catchSQL_of_error {α : Type} {x : DbM δ α} {e : DbExc} {m' : AccountMgr δ}
    (h : x m = .error e m') (he : e ≠ .sqlException) (a' : α) :
    catchSQL x a' m = .error e m' := by
  unfold catchSQL
  rw [h]
  cases e with
  | sqlException => exact absurd rfl he
  | _ => rfl

/-- The rest of `AuthPassword`, from the answer of the database.  `none` is a
`StringIndexOutOfBoundsException`. -/
def authResult (UID : Long) (pwdMD5 : Text) : Option (List ResultRow) → Option Int
  | none => some (-3)
  | some [] => some (-1)
  | some (row :: _) =>
    match row.pwdMd5, row.PwdSalt with
    | some rt, some salt =>
      (getPwdMd5 md5 UID pwdMD5 salt).map fun pwd2 => if rt = pwd2 then 0 else -2
    | _, _ => some (-3)

/-- What an operation does that answers `r`, or throws when there is none. -/
def answer {α : Type} (m : AccountMgr δ) : Option α → EStateM.Result DbExc (AccountMgr δ) α
  | some a => .ok a m
  | none => .error .stringIndexOutOfBounds m

theorem pwdMd5Of_eq (UID : Long) (pwdMd5 Salt : Text) :
    pwdMd5Of md5 UID pwdMd5 Salt m = answer m (getPwdMd5 md5 UID pwdMd5 Salt) := by
  unfold pwdMd5Of
  cases getPwdMd5 md5 UID pwdMd5 Salt <;> rfl

theorem AuthPassword_live (hconn : m.conn = .connected db st) (hst : st ≠ .closed)
    (UID : Long) (pwdMD5 : Text) : AuthPassword drv md5 UID pwdMD5 m =
      answer (m.opened db) (authResult md5 UID pwdMD5
        (drv.executeQuery db ((Stmt.authPassword UID).sql m.t))) := by
  have hquery := simple_query_live drv hconn hst ((Stmt.authPassword UID).sql m.t)
  unfold AuthPassword
  cases hrows : drv.executeQuery db ((Stmt.authPassword UID).sql m.t) with
  | none =>
    rw [hrows] at hquery
    refine catchSQL_of_sql ?_ _
    rw [sqlOf_bind]
    exact bind_of_error hquery
  | some rows =>
    rw [hrows] at hquery
    cases rows with
    | nil =>
      refine catchSQL_of_ok ?_ _
      rw [sqlOf_bind, bind_of_ok hquery]
      rfl
    | cons row rows =>
      rcases row with ⟨UID', rt, salt⟩
      cases rt with
      | none =>
        refine catchSQL_of_sql ?_ _
        rw [sqlOf_bind, bind_of_ok hquery]
        rfl
      | some rt =>
        cases salt with
        | none =>
          refine catchSQL_of_sql ?_ _
          rw [sqlOf_bind, bind_of_ok hquery]
          rfl
        | some salt =>
          have hpwd := pwdMd5Of_eq md5 (m := m.opened db) UID pwdMD5 salt
          show _ = answer _ ((getPwdMd5 md5 UID pwdMD5 salt).map _)
          cases hhash : getPwdMd5 md5 UID pwdMD5 salt with
          | none =>
            rw [hhash] at hpwd
            refine catchSQL_of_error ?_ (by decide) _
            rw [sqlOf_bind, bind_of_ok hquery]
            show (pwdMd5Of md5 UID pwdMD5 salt >>= _) (m.opened db) = _
            exact bind_of_error hpwd
          | some pwd2 =>
            rw [hhash] at hpwd
            refine catchSQL_of_ok ?_ _
            rw [sqlOf_bind, bind_of_ok hquery]
            refine (bind_of_ok hpwd).trans ?_
            show (if rt = pwd2 then pure 0 else pure (-2) : DbM δ Int) (m.opened db) =
              .ok (if rt = pwd2 then 0 else -2) (m.opened db)
            by_cases heq : rt = pwd2
            · rw [if_pos heq, if_pos heq]
              rfl
            · rw [if_neg heq, if_neg heq]
              rfl

theorem AuthPassword_closed (hconn : m.conn = .connected db .closed) (UID : Long)
    (pwdMD5 : Text) : AuthPassword drv md5 UID pwdMD5 m = .ok (-3) m.misuse := by
  refine catchSQL_of_sql ?_ _
  rw [sqlOf_bind]
  exact bind_of_error (simple_query_closed drv hconn _)

theorem AuthPassword_null (hconn : m.conn = .null) (UID : Long) (pwdMD5 : Text) :
    AuthPassword drv md5 UID pwdMD5 m = .error .nullPointer m := by
  refine catchSQL_of_error ?_ (by decide) _
  rw [sqlOf_bind]
  exact bind_of_error (simple_query_null drv hconn _)

/-- The rest of `getUIDbyEmail`. -/
def emailResult : Option (List ResultRow) → Long
  | some (row :: _) => row.UID.getD (-1)
  | _ => -1

theorem getUIDbyEmail_live (hconn : m.conn = .connected db st) (hst : st ≠ .closed)
    (Email : Text) : getUIDbyEmail drv Email m =
      .ok (emailResult (drv.executeQuery db ((Stmt.getUIDbyEmail Email).sql m.t)))
        (m.opened db) := by
  have hquery := simple_query_live drv hconn hst ((Stmt.getUIDbyEmail Email).sql m.t)
  unfold getUIDbyEmail
  cases hrows : drv.executeQuery db ((Stmt.getUIDbyEmail Email).sql m.t) with
  | none =>
    rw [hrows] at hquery
    refine catchSQL_of_sql ?_ _
    rw [sqlOf_bind]
    exact bind_of_error hquery
  | some rows =>
    rw [hrows] at hquery
    cases rows with
    | nil =>
      refine catchSQL_of_ok ?_ _
      rw [sqlOf_bind, bind_of_ok hquery]
      rfl
    | cons row rows =>
      rcases row with ⟨UID, rt, salt⟩
      cases UID with
      | none =>
        refine catchSQL_of_sql ?_ _
        rw [sqlOf_bind, bind_of_ok hquery]
        rfl
      | some UID =>
        refine catchSQL_of_ok ?_ _
        rw [sqlOf_bind, bind_of_ok hquery]
        rfl

theorem getUIDbyEmail_closed (hconn : m.conn = .connected db .closed) (Email : Text) :
    getUIDbyEmail drv Email m = .ok (-1) m.misuse := by
  refine catchSQL_of_sql ?_ _
  rw [sqlOf_bind]
  exact bind_of_error (simple_query_closed drv hconn _)

theorem getUIDbyEmail_null (hconn : m.conn = .null) (Email : Text) :
    getUIDbyEmail drv Email m = .error .nullPointer m := by
  refine catchSQL_of_error ?_ (by decide) _
  rw [sqlOf_bind]
  exact bind_of_error (simple_query_null drv hconn _)

theorem getUIDbyName_live (hconn : m.conn = .connected db st) (hst : st ≠ .closed)
    (UName : Text) : getUIDbyName drv UName m =
      .ok ((drv.executeQuery db ((Stmt.getUIDbyName UName).sql m.t)).elim [] addAll)
        (m.opened db) := by
  have hquery := simple_query_live drv hconn hst ((Stmt.getUIDbyName UName).sql m.t)
  unfold getUIDbyName
  cases hrows : drv.executeQuery db ((Stmt.getUIDbyName UName).sql m.t) with
  | none =>
    rw [hrows] at hquery
    refine catchSQL_of_sql ?_ _
    rw [sqlOf_bind]
    exact bind_of_error hquery
  | some rows =>
    rw [hrows] at hquery
    refine catchSQL_of_ok ?_ _
    rw [sqlOf_bind, bind_of_ok hquery]
    rfl

theorem getUIDbyName_closed (hconn : m.conn = .connected db .closed) (UName : Text) :
    getUIDbyName drv UName m = .ok [] m.misuse := by
  refine catchSQL_of_sql ?_ _
  rw [sqlOf_bind]
  exact bind_of_error (simple_query_closed drv hconn _)

/-- The rest of `getnextUID`. -/
def nextResult : Option (List ResultRow) → Long
  | none => -1
  | some [] => 1
  | some (row :: _) => row.UID.elim (-1) (· + 1)

theorem getnextUID_live (hconn : m.conn = .connected db st) (hst : st ≠ .closed) :
    getnextUID drv m =
      .ok (nextResult (drv.executeQuery db (Stmt.getnextUID.sql m.t))) (m.opened db) := by
  have hquery := simple_query_live drv hconn hst (Stmt.getnextUID.sql m.t)
  unfold getnextUID
  cases hrows : drv.executeQuery db (Stmt.getnextUID.sql m.t) with
  | none =>
    rw [hrows] at hquery
    refine catchSQL_of_sql ?_ _
    rw [sqlOf_bind]
    exact bind_of_error hquery
  | some rows =>
    rw [hrows] at hquery
    cases rows with
    | nil =>
      refine catchSQL_of_ok ?_ _
      rw [sqlOf_bind, bind_of_ok hquery]
      rfl
    | cons row rows =>
      rcases row with ⟨UID, rt, salt⟩
      cases UID with
      | none =>
        refine catchSQL_of_sql ?_ _
        rw [sqlOf_bind, bind_of_ok hquery]
        rfl
      | some UID =>
        refine catchSQL_of_ok ?_ _
        rw [sqlOf_bind, bind_of_ok hquery]
        rfl

theorem getnextUID_closed (hconn : m.conn = .connected db .closed) :
    getnextUID drv m = .ok (-1) m.misuse := by
  refine catchSQL_of_sql ?_ _
  rw [sqlOf_bind]
  exact bind_of_error (simple_query_closed drv hconn _)

/-- What an operation does behind its update: it answers `a`, or `a'` when the
database threw. -/
def updateAnswer {α : Type} (m : AccountMgr δ) (db : δ) (a a' : α) :
    Option δ → EStateM.Result DbExc (AccountMgr δ) α
  | some db' => .ok a (m.closed db')
  | none => .ok a' (m.opened db)

theorem catch_update_live {α : Type} (hconn : m.conn = .connected db st) (hst : st ≠ .closed)
    (SQL : Text) (a a' : α) :
    catchSQL (do
      simple_update drv SQL
      pure a) a' m = updateAnswer m db a a' (drv.executeUpdate db SQL) := by
  have hupdate := simple_update_live drv hconn hst SQL
  cases hdb : drv.executeUpdate db SQL with
  | none =>
    rw [hdb] at hupdate
    exact catchSQL_of_sql (bind_of_error hupdate) _
  | some db' =>
    rw [hdb] at hupdate
    refine catchSQL_of_ok ?_ _
    rw [bind_of_ok hupdate]
    rfl

theorem catch_update_closed {α : Type} (hconn : m.conn = .connected db .closed) (SQL : Text)
    (a a' : α) :
    catchSQL (do
      simple_update drv SQL
      pure a) a' m = .ok a' m.misuse :=
  catchSQL_of_sql (bind_of_error (simple_update_closed drv hconn SQL)) _

theorem updateUName_live (hconn : m.conn = .connected db st) (hst : st ≠ .closed) (UID : Long)
    (NewName : Text) : updateUName drv UID NewName m =
      updateAnswer m db 0 (-1)
        (drv.executeUpdate db ((Stmt.updateUName UID NewName).sql m.t)) := by
  unfold updateUName
  rw [sqlOf_bind]
  exact catch_update_live drv hconn hst _ 0 (-1)

theorem updateUEmail_live (hconn : m.conn = .connected db st) (hst : st ≠ .closed) (UID : Long)
    (Email : Text) : updateUEmail drv UID Email m =
      updateAnswer m db 0 (-1)
        (drv.executeUpdate db ((Stmt.updateUEmail UID Email).sql m.t)) := by
  unfold updateUEmail
  rw [sqlOf_bind]
  exact catch_update_live drv hconn hst _ 0 (-1)

theorem updateUName_closed (hconn : m.conn = .connected db .closed) (UID : Long)
    (NewName : Text) : updateUName drv UID NewName m = .ok (-1) m.misuse := by
  unfold updateUName
  rw [sqlOf_bind]
  exact catch_update_closed drv hconn _ 0 (-1)

theorem updateUEmail_closed (hconn : m.conn = .connected db .closed) (UID : Long)
    (Email : Text) : updateUEmail drv UID Email m = .ok (-1) m.misuse := by
  unfold updateUEmail
  rw [sqlOf_bind]
  exact catch_update_closed drv hconn _ 0 (-1)

/-- `createAccount`, when the password can be hashed. -/
theorem createAccount_live (hconn : m.conn = .connected db st) (hst : st ≠ .closed)
    {UID : Long} (hUID : nextResult (drv.executeQuery db (Stmt.getnextUID.sql m.t)) = UID)
    (b : Fin 16 → UInt8) (UName UEmail : Text) {pwdMd5 pwd2 : Text}
    (hpwd : getPwdMd5 md5 UID pwdMd5 (getRandSalt b) = some pwd2) :
    createAccount drv md5 b UName UEmail pwdMd5 m = updateAnswer m db UID (-1)
      (drv.executeUpdate db
        ((Stmt.createAccount UID pwd2 (getRandSalt b) UName UEmail).sql m.t)) := by
  have hnext := getnextUID_live drv hconn hst
  have hhash := pwdMd5Of_eq md5 (m := m.opened db) UID pwdMd5 (getRandSalt b)
  rw [hUID] at hnext
  rw [hpwd] at hhash
  unfold createAccount
  rw [bind_of_ok hnext, bind_of_ok hhash, sqlOf_bind]
  exact catch_update_live drv (m := m.opened db) rfl (by decide) _ UID (-1)

/-- `createAccount`, when the password cannot be hashed. -/
theorem createAccount_throws (hconn : m.conn = .connected db st) (hst : st ≠ .closed)
    {UID : Long} (hUID : nextResult (drv.executeQuery db (Stmt.getnextUID.sql m.t)) = UID)
    (b : Fin 16 → UInt8) (UName UEmail : Text) {pwdMd5 : Text}
    (hpwd : getPwdMd5 md5 UID pwdMd5 (getRandSalt b) = none) :
    createAccount drv md5 b UName UEmail pwdMd5 m =
      .error .stringIndexOutOfBounds (m.opened db) := by
  have hnext := getnextUID_live drv hconn hst
  have hhash := pwdMd5Of_eq md5 (m := m.opened db) UID pwdMd5 (getRandSalt b)
  rw [hUID] at hnext
  rw [hpwd] at hhash
  unfold createAccount
  rw [bind_of_ok hnext, bind_of_error hhash]

/-- `createAccount`, with a closed statement: the password is hashed for the
UID -1. -/
theorem createAccount_closed (hconn : m.conn = .connected db .closed) (b : Fin 16 → UInt8)
    (UName UEmail pwdMd5 : Text) : createAccount drv md5 b UName UEmail pwdMd5 m =
      answer m.misuse ((getPwdMd5 md5 (-1) pwdMd5 (getRandSalt b)).map fun _ => -1) := by
  have hnext := getnextUID_closed drv hconn
  have hhash := pwdMd5Of_eq md5 (m := m.misuse) (-1) pwdMd5 (getRandSalt b)
  unfold createAccount
  rw [bind_of_ok hnext]
  cases hpwd : getPwdMd5 md5 (-1) pwdMd5 (getRandSalt b) with
  | none =>
    rw [hpwd] at hhash
    rw [bind_of_error hhash]
    rfl
  | some pwd2 =>
    rw [hpwd] at hhash
    rw [bind_of_ok hhash, sqlOf_bind]
    exact catch_update_closed drv (m := m.misuse) hconn _ (-1) (-1)

theorem createAccount_null (hconn : m.conn = .null) (b : Fin 16 → UInt8)
    (UName UEmail pwdMd5 : Text) :
    createAccount drv md5 b UName UEmail pwdMd5 m = .error .nullPointer m := by
  have hnext : getnextUID drv m = .error .nullPointer m := by
    refine catchSQL_of_error ?_ (by decide) _
    rw [sqlOf_bind]
    exact bind_of_error (simple_query_null drv hconn _)
  unfold createAccount
  rw [bind_of_error hnext]

/-- `updatePwd`, after the old password was authenticated. -/
theorem updatePwd_of_auth {m' : AccountMgr δ} {UID : Long} {OldPwdMd5 : Text}
    (hauth : AuthPassword drv md5 UID OldPwdMd5 m = .ok 0 m') (b : Fin 16 → UInt8)
    (NewPwdMd5 : Text) :
    updatePwd drv md5 b UID OldPwdMd5 NewPwdMd5 m =
      match getPwdMd5 md5 UID NewPwdMd5 (getRandSalt b) with
      | none => .error .stringIndexOutOfBounds m'
      | some pwd2 => catchSQL (do
        simple_update drv ((Stmt.updatePwd UID pwd2 (getRandSalt b)).sql m'.t)
        pure 0) (-2) m' := by
  have hhash := pwdMd5Of_eq md5 (m := m') UID NewPwdMd5 (getRandSalt b)
  unfold updatePwd
  rw [bind_of_ok hauth, if_neg (by decide)]
  cases hpwd : getPwdMd5 md5 UID NewPwdMd5 (getRandSalt b) with
  | none =>
    rw [hpwd] at hhash
    rw [bind_of_error hhash]
  | some pwd2 =>
    rw [hpwd] at hhash
    rw [bind_of_ok hhash, sqlOf_bind]

/-- `updatePwd`, when the old password was refused. -/
theorem updatePwd_of_refused {m' : AccountMgr δ} {UID : Long} {OldPwdMd5 : Text}
    {auth : Int} (hauth : AuthPassword drv md5 UID OldPwdMd5 m = .ok auth m') (hne : auth ≠ 0)
    (b : Fin 16 → UInt8) (NewPwdMd5 : Text) :
    updatePwd drv md5 b UID OldPwdMd5 NewPwdMd5 m = .ok (-1) m' := by
  unfold updatePwd
  rw [bind_of_ok hauth, if_pos hne]
  rfl

/-- `updatePwd`, when the old password cannot be hashed. -/
theorem updatePwd_of_error {m' : AccountMgr δ} {UID : Long} {OldPwdMd5 : Text}
    {e : DbExc} (hauth : AuthPassword drv md5 UID OldPwdMd5 m = .error e m')
    (b : Fin 16 → UInt8) (NewPwdMd5 : Text) :
    updatePwd drv md5 b UID OldPwdMd5 NewPwdMd5 m = .error e m' := by
  unfold updatePwd
  rw [bind_of_error hauth]

theorem updatePwd_closed (hconn : m.conn = .connected db .closed) (b : Fin 16 → UInt8)
    (UID : Long) (OldPwdMd5 NewPwdMd5 : Text) :
    updatePwd drv md5 b UID OldPwdMd5 NewPwdMd5 m = .ok (-1) m.misuse :=
  updatePwd_of_refused drv md5 (AuthPassword_closed drv md5 hconn UID OldPwdMd5) (by decide) b
    NewPwdMd5

end

end OCServer.Database
