import OCServer.Database.Account

/-!
# The user table

The table `users`, and what the statements of the account manager do to it.  A
statement that breaks a constraint of the table is an `SQLException`.

The database is code that the manager calls.  `Executes` is what is assumed of
it: it executes a statement whose strings are plain, and does not fail by
itself.  With other texts it may do anything.  `tableDriver` is such a
database.  It reads the tokens of a text and knows no statements but these.
-/

namespace OCServer.Database

open SqlLex

/-! ## Reading a statement back -/

/-- The number of a decimal text. -/
def readDecimal (l : Text) : Nat := Nat.ofDigits 10 (l.reverse.map fun c => c.toNat - 48)

/-- The `long` of a decimal text. -/
def readLong (l : Text) : Long :=
  if l.head? = some 45 then BitVec.ofInt 64 (-readDecimal l.tail)
  else BitVec.ofInt 64 (readDecimal l)

theorem readDecimal_decimal (n : Nat) : readDecimal (decimal n) = n := by
  unfold readDecimal decimal
  split
  · next hn =>
    subst hn
    rfl
  · have hdigit : ∀ k ∈ Nat.digits 10 n, (UInt16.ofNat (48 + k)).toNat - 48 = k := by
      intro k hk
      have hlt := Nat.digits_lt_base (by decide) hk
      rw [UInt16.toNat_ofNat']
      omega
    have hmap : (Nat.digits 10 n).map ((fun c : UInt16 => c.toNat - 48) ∘
        fun k => UInt16.ofNat (48 + k)) = Nat.digits 10 n :=
      (List.map_congr_left (g := id) hdigit).trans (List.map_id _)
    rw [← List.map_reverse, List.reverse_reverse, List.map_map, hmap, Nat.ofDigits_digits]

theorem decimal_head (n : Nat) : (decimal n).head? ≠ some 45 := by
  intro h
  have hmem := List.mem_of_mem_head? h
  unfold decimal at hmem
  split at hmem
  · exact absurd (List.mem_singleton.mp hmem) (by decide)
  · rcases List.mem_map.mp hmem with ⟨k, hk, heq⟩
    have hlt := Nat.digits_lt_base (by decide) (List.mem_reverse.mp hk)
    have hval := congrArg UInt16.toNat heq
    rw [UInt16.toNat_ofNat', show (45 : UInt16).toNat = 45 by rfl] at hval
    omega

theorem readLong_longText (n : Long) : readLong (longText n) = n := by
  unfold readLong longText
  split
  · next hneg =>
    rw [List.head?_cons, if_pos rfl, List.tail_cons, readDecimal_decimal,
      show (-(n.toInt.natAbs : Int)) = n.toInt by omega, BitVec.ofInt_toInt]
  · next hneg =>
    rw [if_neg (decimal_head _), readDecimal_decimal,
      show ((n.toInt.natAbs : Nat) : Int) = n.toInt by omega, BitVec.ofInt_toInt]

/-- The values of the literals. -/
def literals (toks : List Token) : List Text :=
  toks.filterMap fun
    | .lit v => some v
    | _ => none

namespace Stmt

/-- The statements that have these literals. -/
def candidates : List Text → List Stmt
  | [] => [.getnextUID]
  | [a] => [.authPassword (readLong a), .getUIDbyName a, .getUIDbyEmail a]
  | [a, b] => [.updateUName (readLong b) a, .updateUEmail (readLong b) a]
  | [a, b, c] => [.updatePwd (readLong c) a b]
  | a :: b :: c :: d :: e :: _ => [.createAccount (readLong a) b c d e]
  | _ => []

/-- The statement that has these tokens. -/
def ofTokens (t : DBtype) (toks : List Token) : Option Stmt :=
  (candidates (literals toks)).find? fun s => s.tokens t = toks

/-- The statement of a text. -/
def read (t : DBtype) (SQL : Text) : Option Stmt := (lex t.dialect SQL).bind (ofTokens t)

/-! Statements with as many literals differ elsewhere. -/

theorem tokens_authPassword_ne (t : DBtype) (UID : Long) {s : Stmt}
    (h : (tokens t s).length = 8) : tokens t (authPassword UID) ≠ tokens t s := by
  intro heq
  rw [← heq] at h
  cases h

theorem tokens_getUIDbyName_ne (t : DBtype) (UName Email : Text) :
    tokens t (getUIDbyName UName) ≠ tokens t (getUIDbyEmail Email) := by
  intro heq
  have hkey : some (column "Username") = some (column "Email") :=
    congrArg (fun toks : List Token => toks[5]?) heq
  exact absurd hkey (by decide)

theorem tokens_updateUName_ne (t : DBtype) (UID UID' : Long) (NewName Email : Text) :
    tokens t (updateUName UID NewName) ≠ tokens t (updateUEmail UID' Email) := by
  intro heq
  have hkey : some (column "Username") = some (column "Email") :=
    congrArg (fun toks : List Token => toks[3]?) heq
  exact absurd hkey (by decide)

theorem ofTokens_tokens (t : DBtype) (s : Stmt) : ofTokens t (s.tokens t) = some s := by
  unfold ofTokens
  cases s with
  | authPassword UID =>
    rw [show literals (tokens t (authPassword UID)) = [longText UID] by rfl, candidates,
      readLong_longText]
    exact List.find?_cons_of_pos (by simp)
  | getUIDbyName UName =>
    rw [show literals (tokens t (getUIDbyName UName)) = [UName] by rfl, candidates,
      List.find?_cons_of_neg (by simpa using tokens_authPassword_ne t _ rfl)]
    exact List.find?_cons_of_pos (by simp)
  | getUIDbyEmail Email =>
    rw [show literals (tokens t (getUIDbyEmail Email)) = [Email] by rfl, candidates,
      List.find?_cons_of_neg (by simpa using tokens_authPassword_ne t _ rfl),
      List.find?_cons_of_neg (by simpa using tokens_getUIDbyName_ne t Email Email)]
    exact List.find?_cons_of_pos (by simp)
  | getnextUID =>
    rw [show literals (tokens t getnextUID) = [] by rfl, candidates]
    exact List.find?_cons_of_pos (by simp)
  | createAccount nextUID pwd2 Salt UName UEmail =>
    have hlit : ∃ rest, literals (tokens t (createAccount nextUID pwd2 Salt UName UEmail)) =
        longText nextUID :: pwd2 :: Salt :: UName :: UEmail :: rest := by
      cases t
      · exact ⟨[], rfl⟩
      · exact ⟨[text "now"], rfl⟩
    rcases hlit with ⟨rest, hlit⟩
    rw [hlit, candidates, readLong_longText]
    exact List.find?_cons_of_pos (by simp)
  | updateUName UID NewName =>
    rw [show literals (tokens t (updateUName UID NewName)) = [NewName, longText UID] by rfl,
      candidates, readLong_longText]
    exact List.find?_cons_of_pos (by simp)
  | updateUEmail UID Email =>
    rw [show literals (tokens t (updateUEmail UID Email)) = [Email, longText UID] by rfl,
      candidates, readLong_longText,
      List.find?_cons_of_neg (by simpa using tokens_updateUName_ne t UID UID Email Email)]
    exact List.find?_cons_of_pos (by simp)
  | updatePwd UID pwd2 Salt =>
    rw [show literals (tokens t (updatePwd UID pwd2 Salt)) = [pwd2, Salt, longText UID] by rfl,
      candidates, readLong_longText]
    exact List.find?_cons_of_pos (by simp)

/-- The database executes the statement that was meant. -/
theorem read_sql (t : DBtype) {s : Stmt} (h : ∀ u ∈ s.strings, Plain t.dialect u) :
    read t (s.sql t) = some s := by
  unfold read
  rw [(s.lex_sql_iff t).mpr h]
  exact ofTokens_tokens t s

end Stmt

/-! ## The table -/

/-- A row of `users`. -/
structure Row where
  UID : Long
  PwdMd5 : Text
  PwdSalt : Text
  Username : Text
  Email : Text
  deriving DecidableEq, Repr

/-- What depends on the schema and the server: `=` on strings, and whether a
name and an e-mail address fit in their columns. -/
structure Schema where
  same : Text → Text → Bool
  fits : Text → Text → Bool

/-- `ORDER BY UID DESC LIMIT 1`. -/
def lastUID : List Long → Option Long
  | [] => none
  | u :: us => some ((lastUID us).elim u fun v => if v.toInt < u.toInt then u else v)

/-- A result with a `UID` only. -/
def uidRow (UID : Long) : ResultRow := ⟨some UID, none, none⟩

variable (sch : Schema)

/-- The queries. -/
def query (rows : List Row) : Stmt → Option (List ResultRow)
  | .authPassword UID =>
    some ((rows.filter fun r => r.UID = UID).map fun r => ⟨none, some r.PwdMd5, some r.PwdSalt⟩)
  | .getUIDbyName UName =>
    some ((rows.filter fun r => sch.same r.Username UName).map fun r => uidRow r.UID)
  | .getUIDbyEmail Email =>
    some ((rows.filter fun r => sch.same r.Email Email).map fun r => uidRow r.UID)
  | .getnextUID => some ((lastUID (rows.map Row.UID)).toList.map uidRow)
  | _ => none

/-- The rows with a `UID`, changed. -/
def change (UID : Long) (f : Row → Row) (rows : List Row) : List Row :=
  rows.map fun r => if r.UID = UID then f r else r

/-- The updates. -/
def update (rows : List Row) : Stmt → Option (List Row)
  | .createAccount nextUID pwd2 Salt UName UEmail =>
    if (rows.any fun r => r.UID = nextUID || sch.same r.Email UEmail) || !sch.fits UName UEmail
    then none
    else some (rows ++ [⟨nextUID, pwd2, Salt, UName, UEmail⟩])
  | .updateUName UID NewName =>
    if rows.any fun r => r.UID = UID && !sch.fits NewName r.Email then none
    else some (change UID (fun r => { r with Username := NewName }) rows)
  | .updateUEmail UID Email =>
    if (rows.any fun r => r.UID = UID && !sch.fits r.Username Email) ||
      ((rows.any fun r => r.UID = UID) && rows.any fun r => r.UID ≠ UID && sch.same r.Email Email)
    then none
    else some (change UID (fun r => { r with Email := Email }) rows)
  | .updatePwd UID pwd2 Salt =>
    some (change UID (fun r => { r with PwdMd5 := pwd2, PwdSalt := Salt }) rows)
  | _ => none

/-- The `SELECT`s. -/
def Stmt.isQuery : Stmt → Bool
  | .authPassword _ | .getUIDbyName _ | .getUIDbyEmail _ | .getnextUID => true
  | .createAccount .. | .updateUName .. | .updateUEmail .. | .updatePwd .. => false

/-- The database has the table, and executes the statements with plain
strings on it. -/
structure Executes (t : DBtype) (drv : Driver (List Row)) : Prop where
  executeQuery_sql (rows : List Row) {s : Stmt} (hs : s.isQuery = true)
    (h : ∀ u ∈ s.strings, Plain t.dialect u) :
    drv.executeQuery rows (s.sql t) = query sch rows s
  executeUpdate_sql (rows : List Row) {s : Stmt} (hs : s.isQuery = false)
    (h : ∀ u ∈ s.strings, Plain t.dialect u) :
    drv.executeUpdate rows (s.sql t) = update sch rows s

/-- A database that executes these statements and refuses every other text. -/
def tableDriver (t : DBtype) : Driver (List Row) where
  executeQuery rows SQL := (Stmt.read t SQL).bind (query sch rows)
  executeUpdate rows SQL := (Stmt.read t SQL).bind (update sch rows)

theorem tableDriver_executes (t : DBtype) : Executes sch t (tableDriver sch t) where
  executeQuery_sql rows s _ h := by
    show (Stmt.read t (s.sql t)).bind _ = _
    rw [Stmt.read_sql t h]
    rfl
  executeUpdate_sql rows s _ h := by
    show (Stmt.read t (s.sql t)).bind _ = _
    rw [Stmt.read_sql t h]
    rfl

end OCServer.Database
