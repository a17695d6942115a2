import OCServer.Database.Reference

/-!
# Creating an account

`createAccount` sends two statements, and each of them may fail by itself:
`Driver.failing` is a database that throws at some of its statements.

`Atomic` is what a call may leave behind.  `createAccount_atomic_iff` says
when it does, for a name and an e-mail address that are plain: unless the
`INSERT` is made with the UID -1 and the database accepts it.  `getnextUID`
answers -1 when its query fails, and -1 is also the number that comes after
the UID -2.

With a quote the text is no longer that `INSERT`, and what it does is up to
the database: `quoted_not_atomic` is one that adds two rows.
-/

namespace OCServer.Database

open SqlLex

/-! ## Databases that fail -/

section

variable {δ : Type} (drv : Driver δ) (fails : δ → Text → Bool)

/-- The database throws at the statements of `fails`. -/
def Driver.failing : Driver δ where
  executeQuery db SQL := if fails db SQL then none else drv.executeQuery db SQL
  executeUpdate db SQL := if fails db SQL then none else drv.executeUpdate db SQL

theorem Driver.failing_update {db db' : δ} {SQL : Text}
    (h : (drv.failing fails).executeUpdate db SQL = some db') :
    drv.executeUpdate db SQL = some db' := by
  unfold Driver.failing at h
  simp only at h
  split at h
  · cases h
  · exact h

end

/-! ## The next UID -/

/-- `lastUID` is the greatest. -/
theorem le_lastUID {us : List Long} {v : Long} (h : lastUID us = some v) :
    ∀ u ∈ us, u.toInt ≤ v.toInt := by
  induction us generalizing v with
  | nil => cases h
  | cons a us ih =>
    rw [lastUID] at h
    cases hrest : lastUID us with
    | none =>
      rw [hrest] at h
      cases h
      intro u hu
      cases us with
      | nil =>
        rw [List.mem_singleton.mp hu]
        exact Int.le_refl _
      | cons b us => cases hrest
    | some w =>
      rw [hrest] at h
      have hv : (if w.toInt < a.toInt then a else w) = v := Option.some.inj h
      intro u hu
      rcases List.mem_cons.mp hu with rfl | hu
      · split_ifs at hv with hlt
        · rw [hv]
        · rw [← hv]
          omega
      · have hle := ih hrest u hu
        split_ifs at hv with hlt
        · rw [← hv]
          omega
        · rw [← hv]
          exact hle

/-- The UID after the greatest one. -/
def nextOf (rows : List Row) : Long := (lastUID (rows.map Row.UID)).elim 1 (· + 1)

/-- A number that is not negative is greater than those it comes after. -/
theorem lt_nextOf {rows : List Row} (h : 0 ≤ (nextOf rows).toInt) :
    ∀ r ∈ rows, r.UID.toInt < (nextOf rows).toInt := by
  unfold nextOf at h ⊢
  intro r hr
  cases hlast : lastUID (rows.map Row.UID) with
  | none =>
    cases rows with
    | nil => cases hr
    | cons a rows => cases hlast
  | some v =>
    rw [hlast] at h
    have hle := le_lastUID hlast r.UID (List.mem_map_of_mem hr)
    have hadd : (v + 1).toInt = (v.toInt + 1).bmod (2 ^ 64) := by
      rw [BitVec.toInt_add]
      rfl
    show r.UID.toInt < (v + 1).toInt
    have hpos : 0 ≤ (v + 1).toInt := h
    have hlt := v.toInt_lt
    have hge := v.le_toInt
    rw [hadd] at hpos ⊢
    rw [Int.bmod_def] at hpos ⊢
    omega

/-! ## What a call leaves -/

/-- The rows of the table `users`. -/
def AccountMgr.users (m : AccountMgr (List Row)) : List Row :=
  match m.conn with
  | .null => []
  | .connected rows _ => rows

theorem users_connected {m : AccountMgr (List Row)} {rows : List Row} {st : StStatus}
    (hconn : m.conn = .connected rows st) : m.users = rows := by
  unfold AccountMgr.users
  rw [hconn]

/-- The manager behind a call. -/
def behind {δ α : Type} : EStateM.Result DbExc (AccountMgr δ) α → AccountMgr δ
  | .ok _ m => m
  | .error _ m => m

/-- What `createAccount` may come to: -1 and the rows as they were, or the UID
of the one new row, which is greater than all others.  No new row has the
UID -1. -/
structure Atomic (rows : List Row)
    (res : EStateM.Result DbExc (AccountMgr (List Row)) Long) : Prop where
  refused : ∀ m', res = .ok (-1) m' → m'.users = rows
  created : ∀ u m', res = .ok u m' → 0 ≤ u.toInt → ∃ r, m'.users = rows ++ [r] ∧ r.UID = u ∧
    ∀ r' ∈ rows, r'.UID.toInt < u.toInt
  noError : ∀ r ∈ (behind res).users, r ∉ rows → r.UID ≠ -1

section

variable (drv : Driver (List Row)) (md5 : MD5) (fails : List Row → Text → Bool)
  (b : Fin 16 → UInt8) (UName UEmail pwdMd5 : Text) (m : AccountMgr (List Row))

/-- The query for the next UID throws, or the greatest UID is -2. -/
def NextIsError (t : DBtype) (rows : List Row) : Prop :=
  fails rows (Stmt.getnextUID.sql t) = true ∨ lastUID (rows.map Row.UID) = some (-2)

/-- The `INSERT` is made with the UID -1: there is a connection, its
`Statement` is not closed, -1 is taken for the next UID, and the password can
be hashed.  The database accepts it. -/
def InsertsError : Prop :=
  ∃ rows st pwd2, m.conn = .connected rows st ∧ st ≠ .closed ∧ NextIsError fails m.t rows ∧
    getPwdMd5 md5 (-1) pwdMd5 (getRandSalt b) = some pwd2 ∧
    (drv.failing fails).executeUpdate rows
      (Stmt.sql m.t (.createAccount (-1) pwd2 (getRandSalt b) UName UEmail)) ≠ none

variable {sch : Schema} {drv md5 fails b UName UEmail pwdMd5 m}

theorem nextResult_failing {t : DBtype} (hdrv : Executes sch t drv)
    (fails : List Row → Text → Bool) (rows : List Row) :
    nextResult ((drv.failing fails).executeQuery rows (Stmt.getnextUID.sql t)) =
      if fails rows (Stmt.getnextUID.sql t) then -1 else nextOf rows := by
  unfold Driver.failing nextOf
  simp only
  split_ifs with hfails
  · rfl
  · rw [hdrv.executeQuery_sql rows rfl (by simp [Stmt.strings])]
    show nextResult (some ((lastUID (rows.map Row.UID)).toList.map uidRow)) = _
    cases lastUID (rows.map Row.UID) with
    | none => rfl
    | some v => rfl

theorem nextResult_eq_error_iff {t : DBtype} (hdrv : Executes sch t drv) (rows : List Row) :
    nextResult ((drv.failing fails).executeQuery rows (Stmt.getnextUID.sql t)) = -1 ↔
      NextIsError fails t rows := by
  rw [nextResult_failing hdrv]
  unfold NextIsError
  split_ifs with hfails
  · simp [hfails]
  · unfold nextOf
    cases lastUID (rows.map Row.UID) with
    | none => simp [hfails]
    | some v =>
      have hv : v + 1 = -1 ↔ v = -2 := by
        constructor
        · intro h
          bv_omega
        · rintro rfl
          rfl
      rw [Option.some.injEq, or_iff_right hfails]
      exact hv

/-- A result that leaves the rows as they were. -/
theorem atomic_of_unchanged {rows : List Row}
    {res : EStateM.Result DbExc (AccountMgr (List Row)) Long}
    (hrows : (behind res).users = rows) (hres : ∀ u m', res = .ok u m' → u = -1) :
    Atomic rows res where
  refused m' h := by
    subst h
    exact hrows
  created u m' h hpos := by
    rw [hres u m' h] at hpos
    exact absurd hpos (by decide)
  noError r hr hnot := absurd (hrows ▸ hr) hnot

/-- The `INSERT` of a plain name and a plain e-mail address adds one row. -/
theorem executeUpdate_createAccount (hdrv : Executes sch m.t drv)
    (hplain : ∀ v ∈ [UName, UEmail], Plain m.t.dialect v) {rows rows' : List Row} {u : Long}
    {pwd2 : Text} (hpwd : getPwdMd5 md5 u pwdMd5 (getRandSalt b) = some pwd2)
    (h : (drv.failing fails).executeUpdate rows
      (Stmt.sql m.t (.createAccount u pwd2 (getRandSalt b) UName UEmail)) = some rows') :
    rows' = rows ++ [⟨u, pwd2, getRandSalt b, UName, UEmail⟩] := by
  have hstrings : ∀ v ∈ (Stmt.createAccount u pwd2 (getRandSalt b) UName UEmail).strings,
      Plain m.t.dialect v :=
    List.forall_mem_cons.mpr ⟨getPwdMd5_plain hpwd _,
      List.forall_mem_cons.mpr ⟨getHexdump_plain _ _, hplain⟩⟩
  have hupdate := Driver.failing_update _ _ h
  rw [hdrv.executeUpdate_sql rows rfl hstrings] at hupdate
  simp only [update] at hupdate
  split_ifs at hupdate
  exact (Option.some.inj hupdate).symm

/-- The row is there, and the result says that it is not. -/
theorem not_atomic_of_inserts (hdrv : Executes sch m.t drv)
    (hplain : ∀ v ∈ [UName, UEmail], Plain m.t.dialect v)
    (h : InsertsError drv md5 fails b UName UEmail pwdMd5 m) :
    ¬Atomic m.users (createAccount (drv.failing fails) md5 b UName UEmail pwdMd5 m) := by
  intro hatomic
  obtain ⟨rows, st, pwd2, hconn, hst, hnext, hpwd, hinsert⟩ := h
  obtain ⟨rows', hinsert⟩ := Option.ne_none_iff_exists'.mp hinsert
  have hcall := createAccount_live (drv.failing fails) md5 hconn hst
    ((nextResult_eq_error_iff hdrv rows).mpr hnext) b UName UEmail hpwd
  rw [hinsert] at hcall
  have hrows := executeUpdate_createAccount hdrv hplain hpwd hinsert
  have hsame : rows' = m.users := hatomic.refused _ hcall
  rw [users_connected hconn, hrows] at hsame
  have hlen := congrArg List.length hsame
  rw [List.length_append, List.length_singleton] at hlen
  omega

/-- How a call of `createAccount` over `rows` ends, for the next UID `u` that it
computed: the password cannot be hashed, there is no new row, or the `INSERT`
was accepted. -/
inductive CreateRun (drv : Driver (List Row)) (md5 : MD5) (fails : List Row → Text → Bool)
    (b : Fin 16 → UInt8) (UName UEmail pwdMd5 : Text) (m : AccountMgr (List Row))
    (rows : List Row) (u : Long) : EStateM.Result DbExc (AccountMgr (List Row)) Long → Prop
  | throws {m' : AccountMgr (List Row)} (hpwd : getPwdMd5 md5 u pwdMd5 (getRandSalt b) = none)
    (husers : m'.users = rows) :
    CreateRun drv md5 fails b UName UEmail pwdMd5 m rows u (.error .stringIndexOutOfBounds m')
  | refused {m' : AccountMgr (List Row)} {pwd2 : Text}
    (hpwd : getPwdMd5 md5 u pwdMd5 (getRandSalt b) = some pwd2) (husers : m'.users = rows) :
    CreateRun drv md5 fails b UName UEmail pwdMd5 m rows u (.ok (-1) m')
  | inserted {m' : AccountMgr (List Row)} {st : StStatus} {pwd2 : Text}
    (hconn : m.conn = .connected rows st) (hst : st ≠ .closed)
    (hu : nextResult ((drv.failing fails).executeQuery rows (Stmt.getnextUID.sql m.t)) = u)
    (hpwd : getPwdMd5 md5 u pwdMd5 (getRandSalt b) = some pwd2)
    (hinsert : (drv.failing fails).executeUpdate rows (Stmt.sql m.t
      (.createAccount u pwd2 (getRandSalt b) UName UEmail)) = some m'.users) :
    CreateRun drv md5 fails b UName UEmail pwdMd5 m rows u (.ok u m')

/-- Every call over a connection ends in one of these ways, whatever the
database does. -/
theorem createAccount_run (drv : Driver (List Row)) (md5 : MD5) (fails : List Row → Text → Bool)
    (b : Fin 16 → UInt8) (UName UEmail pwdMd5 : Text) {m : AccountMgr (List Row)}
    {rows : List Row} {st : StStatus} (hconn : m.conn = .connected rows st) :
    ∃ u, CreateRun drv md5 fails b UName UEmail pwdMd5 m rows u
      (createAccount (drv.failing fails) md5 b UName UEmail pwdMd5 m) := by
  by_cases hst : st = .closed
  · subst hst
    have husers : m.misuse.users = rows := users_connected hconn
    refine ⟨-1, ?_⟩
    rw [createAccount_closed _ md5 hconn]
    cases hpwd : getPwdMd5 md5 (-1) pwdMd5 (getRandSalt b) with
    | none => exact .throws hpwd husers
    | some pwd2 => exact .refused hpwd husers
  · obtain ⟨u, hu⟩ : ∃ u, nextResult ((drv.failing fails).executeQuery rows
      (Stmt.getnextUID.sql m.t)) = u := ⟨_, rfl⟩
    refine ⟨u, ?_⟩
    cases hpwd : getPwdMd5 md5 u pwdMd5 (getRandSalt b) with
    | none =>
      rw [createAccount_throws _ md5 hconn hst hu b UName UEmail hpwd]
      exact .throws hpwd rfl
    | some pwd2 =>
      rw [createAccount_live _ md5 hconn hst hu b UName UEmail hpwd]
      cases hinsert : (drv.failing fails).executeUpdate rows
        (Stmt.sql m.t (.createAccount u pwd2 (getRandSalt b) UName UEmail)) with
      | none => exact .refused hpwd rfl
      | some rows' => exact .inserted hconn hst hu hpwd hinsert

/-- An account that was not inserted with the UID -1. -/
theorem CreateRun.atomic (hdrv : Executes sch m.t drv)
    (hplain : ∀ v ∈ [UName, UEmail], Plain m.t.dialect v) {rows : List Row} {u : Long}
    {res : EStateM.Result DbExc (AccountMgr (List Row)) Long}
    (hrun : CreateRun drv md5 fails b UName UEmail pwdMd5 m rows u res)
    (h : ¬InsertsError drv md5 fails b UName UEmail pwdMd5 m) : Atomic rows res := by
  cases hrun with
  | throws _ husers => exact atomic_of_unchanged husers nofun
  | refused _ husers =>
    refine atomic_of_unchanged husers fun u' m' hres => ?_
    cases hres
    rfl
  | inserted hconn hst hu hpwd hinsert =>
    have hne : u ≠ -1 := by
      rintro rfl
      exact h ⟨rows, _, _, hconn, hst, (nextResult_eq_error_iff hdrv rows).mp hu, hpwd,
        Option.ne_none_iff_exists'.mpr ⟨_, hinsert⟩⟩
    have husers := executeUpdate_createAccount hdrv hplain hpwd hinsert
    refine ⟨fun m' hres => ?_, fun u' m' hres hpos => ?_, fun r' hr' hnot => ?_⟩
    · cases hres
      exact absurd rfl hne
    · cases hres
      refine ⟨_, husers, rfl, ?_⟩
      have hnext := nextResult_failing hdrv fails rows
      rw [hu] at hnext
      split_ifs at hnext with hfails
      · exact absurd hnext hne
      · rw [hnext] at hpos ⊢
        exact lt_nextOf hpos
    · have hmem : r' ∈ rows ++ [_] := husers ▸ hr'
      rcases List.mem_append.mp hmem with hold | hnew
      · exact absurd hold hnot
      · rw [List.mem_singleton.mp hnew]
        exact hne

/-- For every database with the table, every content of it, every pattern of
statements that fail, and a plain name and e-mail address: `createAccount` is
atomic if and only if it does not insert the UID -1. -/
theorem createAccount_atomic_iff {sch : Schema} {drv : Driver (List Row)}
    {m : AccountMgr (List Row)} (hdrv : Executes sch m.t drv) (md5 : MD5)
    (fails : List Row → Text → Bool) (b : Fin 16 → UInt8) {UName UEmail : Text}
    (hplain : ∀ v ∈ [UName, UEmail], Plain m.t.dialect v) (pwdMd5 : Text) :
    Atomic m.users (createAccount (drv.failing fails) md5 b UName UEmail pwdMd5 m) ↔
      ¬InsertsError drv md5 fails b UName UEmail pwdMd5 m := by
  refine ⟨fun h hinserts => not_atomic_of_inserts hdrv hplain hinserts h, fun h => ?_⟩
  cases hconn : m.conn with
  | null =>
    have husers : m.users = [] := by
      unfold AccountMgr.users
      rw [hconn]
    rw [husers, createAccount_null _ md5 hconn]
    exact atomic_of_unchanged husers nofun
  | connected rows st =>
    obtain ⟨u, hrun⟩ := createAccount_run drv md5 fails b UName UEmail pwdMd5 hconn
    rw [users_connected hconn]
    exact hrun.atomic hdrv hplain h

end

/-- A second account. -/
theorem createAccount_atomic_iff_second :
    Atomic [⟨1, [97], [98], [110], [101]⟩]
      (createAccount ((tableDriver plainSchema .sqlite).failing fun _ _ => false) unitsMD5
        (fun _ => 0) [116] [102] [48, 48]
        ⟨.sqlite, .connected [⟨1, [97], [98], [110], [101]⟩] .null, false⟩) := by
  have hplain := plain_strings (DBtype.dialect .sqlite) [[116], [102]] (by simp [quote, backslash])
  refine (createAccount_atomic_iff (m := ⟨.sqlite, .connected [⟨1, [97], [98], [110], [101]⟩]
    .null, false⟩) (tableDriver_executes plainSchema .sqlite) unitsMD5 (fun _ _ => false)
    (fun _ => 0) hplain [48, 48]).mpr ?_
  rintro ⟨rows, st, pwd2, hconn, -, hnext, -⟩
  cases hconn
  rcases hnext with hfails | hlast
  · cases hfails
  · cases hlast

/-- An empty table, whose query fails: the row is inserted with the UID -1. -/
theorem not_always_atomic :
    ¬∀ (sch : Schema) (drv : Driver (List Row)) (md5 : MD5) (fails : List Row → Text → Bool)
      (b : Fin 16 → UInt8) (UName UEmail pwdMd5 : Text) (m : AccountMgr (List Row)),
      Executes sch m.t drv → (∀ v ∈ [UName, UEmail], Plain m.t.dialect v) →
      Atomic m.users (createAccount (drv.failing fails) md5 b UName UEmail pwdMd5 m) := by
  intro h
  let md5 : MD5 := ⟨fun _ => [], by simp⟩
  let fails : List Row → Text → Bool := fun _ SQL => SQL == Stmt.getnextUID.sql .sqlite
  have hplain := plain_strings (DBtype.dialect .sqlite) [[116], [101]] (by simp [quote, backslash])
  have hnext : fails [] (Stmt.getnextUID.sql .sqlite) = true := beq_self_eq_true _
  have hopen : StStatus.null ≠ .closed := by decide
  have hpwd : getPwdMd5 md5 (-1) [48, 48] (getRandSalt fun _ => 0) = some [] := rfl
  have hinsert : ((tableDriver plainSchema .sqlite).failing fails).executeUpdate [] (Stmt.sql
      .sqlite (.createAccount (-1) [] (getRandSalt fun _ => 0) [116] [101])) ≠ none := by
    decide +kernel
  have hinserts : InsertsError (tableDriver plainSchema .sqlite) md5 fails (fun _ => 0) [116] [101]
      [48, 48] ⟨.sqlite, .connected [] .null, false⟩ :=
    ⟨[], .null, [], rfl, hopen, Or.inl hnext, hpwd, hinsert⟩
  exact not_atomic_of_inserts (tableDriver_executes plainSchema .sqlite) hplain hinserts
    (h plainSchema _ md5 fails _ _ _ _ ⟨.sqlite, .connected [] .null, false⟩
      (tableDriver_executes plainSchema .sqlite) hplain)

/-- A name that ends the first row of the `INSERT` and starts another. -/
def quotedName : Text := text "x', 'e1', date('now')), ('99', 'p', 's', 'n"

/-- The `INSERT` with that name, on an empty table. -/
def quotedInsert (b : Fin 16 → UInt8) : Text :=
  Stmt.sql .sqlite (.createAccount 1 [] (getRandSalt b) quotedName [101])

/-- A database that inserts both rows. -/
def quotedDriver (b : Fin 16 → UInt8) : Driver (List Row) where
  executeQuery := (tableDriver plainSchema .sqlite).executeQuery
  executeUpdate rows SQL :=
    if SQL = quotedInsert b then
      some (rows ++ [⟨1, [], getRandSalt b, text "x", text "e1"⟩,
        ⟨99, text "p", text "s", text "n", [101]⟩])
    else (tableDriver plainSchema .sqlite).executeUpdate rows SQL

theorem quotedDriver_failing (b : Fin 16 → UInt8) (rows : List Row) :
    ((quotedDriver b).failing fun _ _ => false).executeUpdate rows (quotedInsert b) =
      some (rows ++ [⟨1, [], getRandSalt b, text "x", text "e1"⟩,
        ⟨99, text "p", text "s", text "n", [101]⟩]) := by
  unfold Driver.failing quotedDriver
  simp only [Bool.false_eq_true, if_false, if_true]

/-- The `INSERT` with that name is none of the statements. -/
theorem read_quotedInsert : Stmt.read .sqlite (quotedInsert fun _ => 0) = none := by
  decide +kernel

theorem quotedDriver_executes : Executes plainSchema .sqlite (quotedDriver fun _ => 0) where
  executeQuery_sql := (tableDriver_executes plainSchema .sqlite).executeQuery_sql
  executeUpdate_sql rows s hs h := by
    have hne : s.sql .sqlite ≠ quotedInsert fun _ => 0 := by
      intro heq
      have hread := Stmt.read_sql .sqlite h
      rw [heq, read_quotedInsert] at hread
      cases hread
    exact (if_neg hne).trans
      ((tableDriver_executes plainSchema .sqlite).executeUpdate_sql rows hs h)

/-- With a quote in the name, two rows may be added. -/
theorem quoted_not_atomic : ∃ (drv : Driver (List Row)) (md5 : MD5) (UName : Text),
    Executes plainSchema .sqlite drv ∧
    ¬InsertsError drv md5 (fun _ _ => false) (fun _ => 0) UName [101] [48, 48]
      ⟨.sqlite, .connected [] .null, false⟩ ∧
    ¬Atomic [] (createAccount (drv.failing fun _ _ => false) md5 (fun _ => 0) UName [101] [48, 48]
      ⟨.sqlite, .connected [] .null, false⟩) := by
  let md5 : MD5 := ⟨fun _ => [], by simp⟩
  refine ⟨quotedDriver fun _ => 0, md5, quotedName, quotedDriver_executes, ?_, ?_⟩
  · rintro ⟨rows, st, pwd2, hconn, -, hnext, -⟩
    cases hconn
    rcases hnext with hfails | hlast
    · cases hfails
    · cases hlast
  · intro hatomic
    have hopen : StStatus.null ≠ .closed := by decide
    have hnext : nextResult (((quotedDriver fun _ => 0).failing fun _ _ => false).executeQuery []
        (Stmt.getnextUID.sql .sqlite)) = 1 := nextResult_failing quotedDriver_executes _ []
    have hpwd : getPwdMd5 md5 1 [48, 48] (getRandSalt fun _ => 0) = some [] := rfl
    have hcall := createAccount_live ((quotedDriver fun _ => 0).failing fun _ _ => false) md5
      (m := ⟨.sqlite, .connected [] .null, false⟩) rfl hopen hnext (fun _ => 0) quotedName
      [101] hpwd
    rw [show Stmt.sql .sqlite (.createAccount 1 [] (getRandSalt fun _ => 0) quotedName [101]) =
      quotedInsert fun _ => 0 from rfl, quotedDriver_failing] at hcall
    obtain ⟨r, hrows, -⟩ := hatomic.created _ _ hcall (by decide)
    cases hrows

end OCServer.Database
