import OCServer.Database.Create
import OCServer.Database.Reference

/-!
# Result codes

`AuthPassword`, `updatePwd` and `createAccount` report what goes wrong as a
result code: they catch an `SQLException`.  They do not catch what `getPwdMd5`
throws when a password has more digits than the salt has characters.

`onlyCodes_iff` says when no exception escapes, over any table of rows that
`createAccount` has made (`Created`): the passwords that come to be hashed have
at most 33 characters.  `created_createAccount` and `created_updatePwd` say that
the table stays one.
-/

namespace OCServer.Database

open ByteIO SqlLex

/-- The calls with a password.  `b` are the random bytes of a salt. -/
inductive PasswordOp
  | AuthPassword (UID : Long) (pwdMD5 : Text)
  | updatePwd (b : Fin 16 → UInt8) (UID : Long) (OldPwdMd5 NewPwdMd5 : Text)
  | createAccount (b : Fin 16 → UInt8) (UName UEmail pwdMd5 : Text)

/-- The row has the hash of a password, with a salt of `getRandSalt`. -/
def Created (md5 : MD5) (r : Row) : Prop :=
  ∃ b pwdMd5, r.PwdSalt = getRandSalt b ∧
    getPwdMd5 md5 r.UID pwdMd5 (getRandSalt b) = some r.PwdMd5

/-- The call returns one of its codes.  `updatePwd` with a password that is not
that of the row leaves the rows as they are.  A UID is the next one, and that of
a row if the name and the e-mail address are plain. -/
def OnlyCodes (drv : Driver (List Row)) (md5 : MD5) (m : AccountMgr (List Row)) :
    PasswordOp → Prop
  | .AuthPassword UID pwdMD5 =>
    ∃ n m', AuthPassword drv md5 UID pwdMD5 m = .ok n m' ∧ n ∈ [0, -1, -2, -3]
  | .updatePwd b UID OldPwdMd5 NewPwdMd5 =>
    (∃ n m', updatePwd drv md5 b UID OldPwdMd5 NewPwdMd5 m = .ok n m' ∧ n ∈ [0, -1, -2]) ∧
      ((∀ r ∈ m.users, r.UID = UID → getPwdMd5 md5 UID OldPwdMd5 r.PwdSalt ≠ some r.PwdMd5) →
        (behind (updatePwd drv md5 b UID OldPwdMd5 NewPwdMd5 m)).users = m.users)
  | .createAccount b UName UEmail pwdMd5 =>
    ∃ u m', createAccount drv md5 b UName UEmail pwdMd5 m = .ok u m' ∧
      (u = -1 ∨ u = nextOf m.users ∧
        ((∀ v ∈ [UName, UEmail], Plain m.t.dialect v) → ∃ r ∈ m'.users, r.UID = u))

/-- The row whose hash `AuthPassword` compares.  There is none if the statement
is closed or the query throws. -/
def authRow (fails : List Row → Text → Bool) (t : DBtype) (rows : List Row) (st : StStatus)
    (UID : Long) : Option Row :=
  if st = .closed ∨ fails rows (Stmt.sql t (.authPassword UID)) = true then none
  else rows.find? fun r => r.UID = UID

/-- The passwords that come to be hashed are not too long.  The new password
comes to it when the old one is that of the row. -/
def HashesShort (md5 : MD5) (fails : List Row → Text → Bool) (t : DBtype) (rows : List Row)
    (st : StStatus) : PasswordOp → Prop
  | .AuthPassword UID pwdMD5 =>
    ∀ r, authRow fails t rows st UID = some r → pwdMD5.length ≤ 33
  | .updatePwd _ UID OldPwdMd5 NewPwdMd5 =>
    ∀ r, authRow fails t rows st UID = some r → OldPwdMd5.length ≤ 33 ∧
      (getPwdMd5 md5 UID OldPwdMd5 r.PwdSalt = some r.PwdMd5 → NewPwdMd5.length ≤ 33)
  | .createAccount _ _ _ pwdMd5 => pwdMd5.length ≤ 33

section

variable {sch : Schema} {drv : Driver (List Row)} {md5 : MD5} {fails : List Row → Text → Bool}
  {m : AccountMgr (List Row)}
  {rows : List Row} {st : StStatus} {UID : Long}

/-! ## The hash -/

theorem Created.isSome_iff {r : Row} (h : Created md5 r) (UID : Long) (pwdMd5 : Text) :
    (getPwdMd5 md5 UID pwdMd5 r.PwdSalt).isSome = true ↔ pwdMd5.length ≤ 33 := by
  obtain ⟨b, -, hsalt, -⟩ := h
  rw [hsalt]
  exact getPwdMd5_salt md5 b UID pwdMd5

/-! ## `AuthPassword` -/

/-- What a comparison with a row comes to. -/
def compareHash (md5 : MD5) (r : Row) (UID : Long) (pwdMD5 : Text) : Option Int :=
  (getPwdMd5 md5 UID pwdMD5 r.PwdSalt).map fun pwd2 => if r.PwdMd5 = pwd2 then 0 else -2

theorem authResult_table (sch : Schema) (rows : List Row) (UID : Long) (pwdMD5 : Text) :
    authResult md5 UID pwdMD5 (query sch rows (.authPassword UID)) =
      match rows.find? fun r => r.UID = UID with
      | none => some (-1)
      | some r => compareHash md5 r UID pwdMD5 := by
  have hfind : (rows.filter fun r => r.UID = UID).head? = rows.find? fun r => r.UID = UID :=
    List.head?_filter
  rw [← hfind]
  show authResult md5 UID pwdMD5 (some ((rows.filter _).map _)) = _
  cases rows.filter fun r => r.UID = UID with
  | nil => rfl
  | cons r rest => rfl

/-- There is a row to compare with, or no password is hashed. -/
theorem AuthPassword_cases (hdrv : Executes sch m.t drv) (md5 : MD5)
    (fails : List Row → Text → Bool) (hconn : m.conn = .connected rows st) (UID : Long)
    (pwdMD5 : Text) :
    (authRow fails m.t rows st UID = none ∧ ∃ n m', n ∈ [-1, -3] ∧ m'.users = rows ∧
        AuthPassword (drv.failing fails) md5 UID pwdMD5 m = .ok n m') ∨
      ∃ r, authRow fails m.t rows st UID = some r ∧
        AuthPassword (drv.failing fails) md5 UID pwdMD5 m =
          answer (m.opened rows) (compareHash md5 r UID pwdMD5) := by
  unfold authRow
  by_cases hst : st = .closed
  · subst hst
    rw [if_pos (Or.inl rfl)]
    exact Or.inl ⟨rfl, -3, m.misuse, by decide, users_connected hconn,
      AuthPassword_closed _ md5 hconn UID pwdMD5⟩
  · have hauth := AuthPassword_live (drv.failing fails) md5 hconn hst UID pwdMD5
    by_cases hfails : fails rows (Stmt.sql m.t (.authPassword UID)) = true
    · have hquery : (drv.failing fails).executeQuery rows
          (Stmt.sql m.t (.authPassword UID)) = none := if_pos hfails
      rw [hquery] at hauth
      rw [if_pos (Or.inr hfails)]
      exact Or.inl ⟨rfl, -3, m.opened rows, by decide, rfl, hauth⟩
    · have hquery : (drv.failing fails).executeQuery rows
          (Stmt.sql m.t (.authPassword UID)) = query sch rows (.authPassword UID) :=
        (if_neg hfails).trans (hdrv.executeQuery_sql rows rfl (by simp [Stmt.strings]))
      have hneither : ¬(st = .closed ∨ fails rows (Stmt.sql m.t (.authPassword UID)) = true) :=
        not_or.mpr ⟨hst, hfails⟩
      rw [hquery, authResult_table] at hauth
      rw [if_neg hneither]
      cases hfind : rows.find? fun r => r.UID = UID with
      | none =>
        rw [hfind] at hauth
        exact Or.inl ⟨rfl, -1, m.opened rows, by decide, rfl, hauth⟩
      | some r =>
        rw [hfind] at hauth
        exact Or.inr ⟨r, rfl, hauth⟩

theorem authRow_mem {r : Row} (h : authRow fails m.t rows st UID = some r) :
    r ∈ rows ∧ r.UID = UID := by
  unfold authRow at h
  split_ifs at h
  have hUID := List.find?_some h
  rw [decide_eq_true_iff] at hUID
  exact ⟨List.mem_of_find?_eq_some h, hUID⟩

theorem compareHash_cases {r : Row} {pwdMD5 : Text} {n : Int}
    (h : compareHash md5 r UID pwdMD5 = some n) :
    n = 0 ∧ getPwdMd5 md5 UID pwdMD5 r.PwdSalt = some r.PwdMd5 ∨ n = -2 := by
  obtain ⟨pwd2, hpwd, hn⟩ := Option.map_eq_some_iff.mp h
  split_ifs at hn with heq
  · rw [← heq] at hpwd
    exact Or.inl ⟨hn.symm, hpwd⟩
  · exact Or.inr hn.symm

theorem compareHash_isSome_iff {r : Row} (h : Created md5 r) (UID : Long) (pwdMD5 : Text) :
    (compareHash md5 r UID pwdMD5).isSome = true ↔ pwdMD5.length ≤ 33 := by
  rw [compareHash, Option.isSome_map, h.isSome_iff]

theorem compareHash_eq_zero_iff {r : Row} {pwdMD5 : Text} :
    compareHash md5 r UID pwdMD5 = some 0 ↔
      getPwdMd5 md5 UID pwdMD5 r.PwdSalt = some r.PwdMd5 := by
  constructor
  · intro h
    rcases compareHash_cases h with ⟨-, hpwd⟩ | hn
    · exact hpwd
    · cases hn
  · intro h
    rw [compareHash, h, Option.map_some, if_pos rfl]

/-- A call that throws returns no code. -/
theorem error_not_ok {α : Type} {e : DbExc} {m : AccountMgr (List Row)}
    {p : α → AccountMgr (List Row) → Prop} :
    ¬∃ n m', (.error e m : EStateM.Result DbExc (AccountMgr (List Row)) α) = .ok n m' ∧
      p n m' := by
  rintro ⟨_, _, h, _⟩
  cases h

theorem forall_some_row {r : Row} {p : Row → Prop} : (∀ r', some r = some r' → p r') ↔ p r :=
  ⟨fun h => h r rfl, fun h _ heq => Option.some.inj heq ▸ h⟩

/-- The codes of `AuthPassword`. -/
theorem authPassword_onlyCodes_iff (hdrv : Executes sch m.t drv)
    (hconn : m.conn = .connected rows st) (hrows : ∀ r ∈ rows, Created md5 r) (UID : Long)
    (pwdMD5 : Text) :
    OnlyCodes (drv.failing fails) md5 m (.AuthPassword UID pwdMD5) ↔
      HashesShort md5 fails m.t rows st (.AuthPassword UID pwdMD5) := by
  simp only [OnlyCodes, HashesShort]
  rcases AuthPassword_cases hdrv md5 fails hconn UID pwdMD5 with
    ⟨hrow, n, m', hn, -, hauth⟩ | ⟨r, hrow, hauth⟩
  · rw [hrow]
    refine iff_of_true ⟨n, m', hauth, ?_⟩ fun _ h => by cases h
    simp only [List.mem_cons, List.not_mem_nil, or_false] at hn ⊢
    omega
  · rw [hrow, hauth, forall_some_row,
      ← compareHash_isSome_iff (hrows r (authRow_mem hrow).1) UID pwdMD5]
    cases hcompare : compareHash md5 r UID pwdMD5 with
    | none => exact iff_of_false error_not_ok (by decide)
    | some n =>
      refine iff_of_true ⟨n, _, rfl, ?_⟩ rfl
      rcases compareHash_cases hcompare with ⟨rfl, -⟩ | rfl
      · decide
      · decide

/-! ## `updatePwd` -/

/-- With the right old password. -/
theorem updatePwd_right {drv : Driver (List Row)} {m' : AccountMgr (List Row)}
    {OldPwdMd5 : Text} (hauth : AuthPassword drv md5 UID OldPwdMd5 m = .ok 0 m')
    (hconn : m'.conn = .connected rows .opened) (b : Fin 16 → UInt8) (NewPwdMd5 : Text) :
    updatePwd drv md5 b UID OldPwdMd5 NewPwdMd5 m =
      match getPwdMd5 md5 UID NewPwdMd5 (getRandSalt b) with
      | none => .error .stringIndexOutOfBounds m'
      | some pwd2 => updateAnswer m' rows 0 (-2)
        (drv.executeUpdate rows (Stmt.sql m'.t (.updatePwd UID pwd2 (getRandSalt b)))) := by
  rw [updatePwd_of_auth drv md5 hauth b NewPwdMd5]
  cases getPwdMd5 md5 UID NewPwdMd5 (getRandSalt b) with
  | none => rfl
  | some pwd2 => exact catch_update_live drv hconn (by decide) _ 0 (-2)

/-- How a call of `updatePwd` over `rows` ends: there is no row to compare with, the
old password cannot be hashed or is not that of the row `r`, the new password cannot
be hashed, or the `UPDATE` fails or is made. -/
inductive UpdateRun (sch : Schema) (md5 : MD5) (fails : List Row → Text → Bool) (t : DBtype)
    (rows : List Row) (st : StStatus) (b : Fin 16 → UInt8) (UID : Long)
    (OldPwdMd5 NewPwdMd5 : Text) : EStateM.Result DbExc (AccountMgr (List Row)) Int → Prop
  | noRow {m' : AccountMgr (List Row)} (hrow : authRow fails t rows st UID = none)
    (husers : m'.users = rows) :
    UpdateRun sch md5 fails t rows st b UID OldPwdMd5 NewPwdMd5 (.ok (-1) m')
  | throwsOld {m' : AccountMgr (List Row)} {r : Row}
    (hrow : authRow fails t rows st UID = some r)
    (hold : compareHash md5 r UID OldPwdMd5 = none) (husers : m'.users = rows) :
    UpdateRun sch md5 fails t rows st b UID OldPwdMd5 NewPwdMd5
      (.error .stringIndexOutOfBounds m')
  | wrong {m' : AccountMgr (List Row)} {r : Row} (hrow : authRow fails t rows st UID = some r)
    (hold : compareHash md5 r UID OldPwdMd5 = some (-2)) (husers : m'.users = rows) :
    UpdateRun sch md5 fails t rows st b UID OldPwdMd5 NewPwdMd5 (.ok (-1) m')
  | throwsNew {m' : AccountMgr (List Row)} {r : Row}
    (hrow : authRow fails t rows st UID = some r)
    (hold : compareHash md5 r UID OldPwdMd5 = some 0)
    (hnew : getPwdMd5 md5 UID NewPwdMd5 (getRandSalt b) = none) (husers : m'.users = rows) :
    UpdateRun sch md5 fails t rows st b UID OldPwdMd5 NewPwdMd5
      (.error .stringIndexOutOfBounds m')
  | failed {m' : AccountMgr (List Row)} {r : Row} {pwd2 : Text}
    (hrow : authRow fails t rows st UID = some r)
    (hold : compareHash md5 r UID OldPwdMd5 = some 0)
    (hnew : getPwdMd5 md5 UID NewPwdMd5 (getRandSalt b) = some pwd2)
    (husers : m'.users = rows) :
    UpdateRun sch md5 fails t rows st b UID OldPwdMd5 NewPwdMd5 (.ok (-2) m')
  | updated {m' : AccountMgr (List Row)} {r : Row} {pwd2 : Text}
    (hrow : authRow fails t rows st UID = some r)
    (hold : compareHash md5 r UID OldPwdMd5 = some 0)
    (hnew : getPwdMd5 md5 UID NewPwdMd5 (getRandSalt b) = some pwd2)
    (husers : update sch rows (.updatePwd UID pwd2 (getRandSalt b)) = some m'.users) :
    UpdateRun sch md5 fails t rows st b UID OldPwdMd5 NewPwdMd5 (.ok 0 m')

/-- Every call over a connection ends in one of these ways. -/
theorem updatePwd_run (hdrv : Executes sch m.t drv) (md5 : MD5) (fails : List Row → Text → Bool)
    (hconn : m.conn = .connected rows st) (b : Fin 16 → UInt8) (UID : Long)
    (OldPwdMd5 NewPwdMd5 : Text) :
    UpdateRun sch md5 fails m.t rows st b UID OldPwdMd5 NewPwdMd5
      (updatePwd (drv.failing fails) md5 b UID OldPwdMd5 NewPwdMd5 m) := by
  rcases AuthPassword_cases hdrv md5 fails hconn UID OldPwdMd5 with
    ⟨hrow, n, m', hn, husers, hauth⟩ | ⟨r, hrow, hauth⟩
  · have hne : n ≠ 0 := by
      rintro rfl
      exact absurd hn (by decide)
    rw [updatePwd_of_refused _ md5 hauth hne]
    exact .noRow hrow husers
  · cases hcompare : compareHash md5 r UID OldPwdMd5 with
    | none =>
      rw [hcompare] at hauth
      rw [updatePwd_of_error _ md5 hauth]
      exact .throwsOld hrow hcompare rfl
    | some n =>
      rw [hcompare] at hauth
      rcases compareHash_cases hcompare with ⟨rfl, -⟩ | rfl
      · have hok : AuthPassword (drv.failing fails) md5 UID OldPwdMd5 m =
            .ok 0 (m.opened rows) := hauth
        rw [updatePwd_right hok rfl]
        cases hpwd : getPwdMd5 md5 UID NewPwdMd5 (getRandSalt b) with
        | none => exact .throwsNew hrow hcompare hpwd rfl
        | some pwd2 =>
          simp only
          cases hupd : (drv.failing fails).executeUpdate rows
            (Stmt.sql (m.opened rows).t (.updatePwd UID pwd2 (getRandSalt b))) with
          | none => exact .failed hrow hcompare hpwd rfl
          | some rows' =>
            have hplain : ∀ u ∈ (Stmt.updatePwd UID pwd2 (getRandSalt b)).strings,
                Plain m.t.dialect u := plain_hash b hpwd _ (by simp)
            have htable := Driver.failing_update _ _ hupd
            rw [show (m.opened rows).t = m.t from rfl, hdrv.executeUpdate_sql rows rfl hplain]
              at htable
            exact .updated hrow hcompare hpwd htable
      · rw [updatePwd_of_refused _ md5 hauth (by decide)]
        exact .wrong hrow hcompare rfl

/-- A wrong old password leaves the rows as they are. -/
theorem updatePwd_wrong (hdrv : Executes sch m.t drv) (fails : List Row → Text → Bool)
    (hconn : m.conn = .connected rows st) (b : Fin 16 → UInt8) {OldPwdMd5 : Text}
    (NewPwdMd5 : Text)
    (hwrong : ∀ r ∈ rows, r.UID = UID → getPwdMd5 md5 UID OldPwdMd5 r.PwdSalt ≠ some r.PwdMd5) :
    (behind (updatePwd (drv.failing fails) md5 b UID OldPwdMd5 NewPwdMd5
      m)).users = rows := by
  have hrun := updatePwd_run hdrv md5 fails hconn b UID OldPwdMd5 NewPwdMd5
  generalize updatePwd (drv.failing fails) md5 b UID OldPwdMd5 NewPwdMd5 m =
    res at hrun ⊢
  cases hrun with
  | noRow _ husers => exact husers
  | throwsOld _ _ husers => exact husers
  | wrong _ _ husers => exact husers
  | throwsNew _ _ _ husers => exact husers
  | failed _ _ _ husers => exact husers
  | updated hrow hold =>
    obtain ⟨hmem, hUID⟩ := authRow_mem hrow
    exact absurd (compareHash_eq_zero_iff.mp hold) (hwrong _ hmem hUID)

/-- The codes of `updatePwd`. -/
theorem updatePwd_onlyCodes_iff (hdrv : Executes sch m.t drv) (hconn : m.conn = .connected rows st)
    (hrows : ∀ r ∈ rows, Created md5 r) (b : Fin 16 → UInt8) (UID : Long)
    (OldPwdMd5 NewPwdMd5 : Text) :
    OnlyCodes (drv.failing fails) md5 m
        (.updatePwd b UID OldPwdMd5 NewPwdMd5) ↔
      HashesShort md5 fails m.t rows st (.updatePwd b UID OldPwdMd5 NewPwdMd5) := by
  simp only [OnlyCodes, HashesShort]
  rw [users_connected hconn, and_iff_left (updatePwd_wrong hdrv fails hconn b NewPwdMd5)]
  -- the passwords are short exactly when they can be hashed
  have hshort : ∀ r, authRow fails m.t rows st UID = some r →
      ((OldPwdMd5.length ≤ 33 ∧
          (getPwdMd5 md5 UID OldPwdMd5 r.PwdSalt = some r.PwdMd5 → NewPwdMd5.length ≤ 33)) ↔
        (compareHash md5 r UID OldPwdMd5).isSome = true ∧
          (compareHash md5 r UID OldPwdMd5 = some 0 →
            (getPwdMd5 md5 UID NewPwdMd5 (getRandSalt b)).isSome = true)) := by
    intro r hrow
    rw [compareHash_isSome_iff (hrows r (authRow_mem hrow).1), compareHash_eq_zero_iff,
      getPwdMd5_salt md5 b UID NewPwdMd5]
  have hrun := updatePwd_run hdrv md5 fails hconn b UID OldPwdMd5 NewPwdMd5
  generalize updatePwd (drv.failing fails) md5 b UID OldPwdMd5 NewPwdMd5 m =
    res at hrun ⊢
  cases hrun with
  | noRow hrow _ =>
    rw [hrow]
    exact iff_of_true ⟨-1, _, rfl, by decide⟩ fun _ h => by cases h
  | throwsOld hrow hold _ =>
    rw [hrow, forall_some_row, hshort _ hrow, hold]
    exact iff_of_false error_not_ok fun h => absurd h.1 (by decide)
  | wrong hrow hold _ =>
    rw [hrow, forall_some_row, hshort _ hrow, hold]
    exact iff_of_true ⟨-1, _, rfl, by decide⟩ ⟨rfl, fun h => by cases h⟩
  | throwsNew hrow hold hnew _ =>
    rw [hrow, forall_some_row, hshort _ hrow, hold, hnew]
    exact iff_of_false error_not_ok fun h => absurd (h.2 rfl) (by decide)
  | failed hrow hold hnew _ =>
    rw [hrow, forall_some_row, hshort _ hrow, hold, hnew]
    exact iff_of_true ⟨-2, _, rfl, by decide⟩ ⟨rfl, fun _ => rfl⟩
  | updated hrow hold hnew _ =>
    rw [hrow, forall_some_row, hshort _ hrow, hold, hnew]
    exact iff_of_true ⟨0, _, rfl, by decide⟩ ⟨rfl, fun _ => rfl⟩

/-! ## `createAccount` -/

/-- The codes of `createAccount`. -/
theorem createAccount_onlyCodes_iff (hdrv : Executes sch m.t drv)
    (hconn : m.conn = .connected rows st) (b : Fin 16 → UInt8)
    (UName UEmail pwdMd5 : Text) :
    OnlyCodes (drv.failing fails) md5 m (.createAccount b UName UEmail pwdMd5) ↔
      HashesShort md5 fails m.t rows st (.createAccount b UName UEmail pwdMd5) := by
  simp only [OnlyCodes, HashesShort]
  obtain ⟨u, hrun⟩ := createAccount_run drv md5 fails b UName UEmail pwdMd5 hconn
  generalize createAccount (drv.failing fails) md5 b UName UEmail pwdMd5 m =
    res at hrun ⊢
  rw [← getPwdMd5_salt md5 b u pwdMd5]
  cases hrun with
  | throws hpwd _ =>
    rw [hpwd]
    exact iff_of_false error_not_ok (by decide)
  | refused hpwd _ =>
    rw [hpwd]
    exact iff_of_true ⟨-1, _, rfl, Or.inl rfl⟩ rfl
  | inserted _ _ hu hpwd hinsert =>
    rw [hpwd]
    refine iff_of_true ⟨u, _, rfl, ?_⟩ rfl
    rw [nextResult_failing hdrv] at hu
    split_ifs at hu
    · exact Or.inl hu.symm
    · refine Or.inr ⟨?_, fun hplain => ?_⟩
      · rw [users_connected hconn, hu]
      · rw [executeUpdate_createAccount hdrv hplain hpwd hinsert]
        exact ⟨_, List.mem_append_right rows (List.mem_singleton_self _), rfl⟩

/-! ## Tables of accounts -/

theorem created_createAccount (hdrv : Executes sch m.t drv) (hconn : m.conn = .connected rows st)
    (hrows : ∀ r ∈ rows, Created md5 r) (b : Fin 16 → UInt8) {UName UEmail : Text}
    (hplain : ∀ v ∈ [UName, UEmail], Plain m.t.dialect v) (pwdMd5 : Text) :
    ∀ r ∈ (behind (createAccount (drv.failing fails) md5 b UName UEmail pwdMd5
      m)).users, Created md5 r := by
  obtain ⟨u, hrun⟩ := createAccount_run drv md5 fails b UName UEmail pwdMd5 hconn
  generalize createAccount (drv.failing fails) md5 b UName UEmail pwdMd5 m =
    res at hrun ⊢
  cases hrun with
  | throws _ husers => exact husers ▸ hrows
  | refused _ husers => exact husers ▸ hrows
  | inserted _ _ _ hpwd hinsert =>
    intro r hr
    have hmem : r ∈ rows ++ [_] := executeUpdate_createAccount hdrv hplain hpwd hinsert ▸ hr
    rcases List.mem_append.mp hmem with hold | hnew
    · exact hrows r hold
    · rw [List.mem_singleton.mp hnew]
      exact ⟨b, pwdMd5, rfl, hpwd⟩

theorem created_updatePwd (hdrv : Executes sch m.t drv) (hconn : m.conn = .connected rows st)
    (hrows : ∀ r ∈ rows, Created md5 r) (b : Fin 16 → UInt8) (UID : Long)
    (OldPwdMd5 NewPwdMd5 : Text) :
    ∀ r ∈ (behind (updatePwd (drv.failing fails) md5 b UID OldPwdMd5 NewPwdMd5
      m)).users, Created md5 r := by
  have hrun := updatePwd_run hdrv md5 fails hconn b UID OldPwdMd5 NewPwdMd5
  generalize updatePwd (drv.failing fails) md5 b UID OldPwdMd5 NewPwdMd5 m =
    res at hrun ⊢
  cases hrun with
  | noRow _ husers => exact husers ▸ hrows
  | throwsOld _ _ husers => exact husers ▸ hrows
  | wrong _ _ husers => exact husers ▸ hrows
  | throwsNew _ _ _ husers => exact husers ▸ hrows
  | failed _ _ _ husers => exact husers ▸ hrows
  | updated _ _ hnew husers =>
    intro r hr
    have hmem : r ∈ rows.map _ := Option.some.inj husers ▸ hr
    obtain ⟨r₀, hr₀, rfl⟩ := List.mem_map.mp hmem
    split_ifs with hUID
    · refine ⟨b, NewPwdMd5, rfl, ?_⟩
      rw [← hUID] at hnew
      exact hnew
    · exact hrows r₀ hr₀

end

/-- For every database, every table of created rows, every state of the statement, every
pattern of statements that fail and all passwords: a call returns one of its
codes, and no exception escapes, if and only if what it hashes is short. -/
theorem onlyCodes_iff {sch : Schema} {drv : Driver (List Row)} {m : AccountMgr (List Row)}
    (hdrv : Executes sch m.t drv) (md5 : MD5) (fails : List Row → Text → Bool)
    {rows : List Row} {st : StStatus} (hconn : m.conn = .connected rows st)
    (hrows : ∀ r ∈ rows, Created md5 r) (op : PasswordOp) :
    OnlyCodes (drv.failing fails) md5 m op ↔
      HashesShort md5 fails m.t rows st op := by
  cases op with
  | AuthPassword UID pwdMD5 => exact authPassword_onlyCodes_iff hdrv hconn hrows UID pwdMD5
  | updatePwd b UID OldPwdMd5 NewPwdMd5 =>
    exact updatePwd_onlyCodes_iff hdrv hconn hrows b UID OldPwdMd5 NewPwdMd5
  | createAccount b UName UEmail pwdMd5 =>
    exact createAccount_onlyCodes_iff hdrv hconn b UName UEmail pwdMd5

theorem sampleRow_created : ∀ r ∈ [sampleRow], Created unitsMD5 r := by
  intro r hr
  rw [List.mem_singleton.mp hr]
  exact ⟨fun _ => 0, [48, 48], rfl, rfl⟩

theorem onlyCodes_iff_sample :
    OnlyCodes ((tableDriver plainSchema .sqlite).failing fun _ _ => false) unitsMD5
        ⟨.sqlite, .connected [sampleRow] .null, false⟩ (.AuthPassword 1 [48, 48]) ↔
      HashesShort unitsMD5 (fun _ _ => false) .sqlite [sampleRow] .null
        (.AuthPassword 1 [48, 48]) :=
  onlyCodes_iff (m := ⟨.sqlite, .connected [sampleRow] .null, false⟩)
    (tableDriver_executes plainSchema .sqlite) unitsMD5 (fun _ _ => false) rfl sampleRow_created _

/-- A password of 34 characters. -/
theorem not_always_onlyCodes :
    ¬∀ (sch : Schema) (drv : Driver (List Row)) (md5 : MD5) (fails : List Row → Text → Bool)
      (m : AccountMgr (List Row)) (rows : List Row) (st : StStatus) (op : PasswordOp),
      Executes sch m.t drv → m.conn = .connected rows st → (∀ r ∈ rows, Created md5 r) →
      OnlyCodes (drv.failing fails) md5 m op := by
  intro h
  let m : AccountMgr (List Row) := ⟨.sqlite, .connected [sampleRow] .null, false⟩
  have hconn : m.conn = .connected [sampleRow] .null := rfl
  have hdrv : Executes plainSchema m.t _ := tableDriver_executes plainSchema .sqlite
  have hcodes := h plainSchema _ unitsMD5 (fun _ _ => false) m [sampleRow] .null
    (.AuthPassword 1 (List.replicate 34 48)) hdrv hconn sampleRow_created
  have hshort := (authPassword_onlyCodes_iff hdrv hconn sampleRow_created 1
    (List.replicate 34 48)).mp hcodes
  have hlen := hshort sampleRow rfl
  revert hlen
  decide

end OCServer.Database
