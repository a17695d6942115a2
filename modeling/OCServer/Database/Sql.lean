import Mathlib.Data.Nat.Digits.Defs
import Mathlib.Tactic.IntervalCases
import OCServer.Database.Password

/-!
# The SQL of the account manager

`AccountMgrImpl` builds its SQL by concatenation.  `Stmt` has its statements,
`Stmt.sql` the text of each, and `Stmt.tokens` what the text is meant to be:
a fixed sequence of tokens with one literal for each argument.

`Stmt.lex_sql_iff` says when the database reads it so: exactly when all of
the arguments are plain.
-/

namespace OCServer.Database

open SqlLex

/-- `Database.DBtype`. -/
inductive DBtype
  | mysql
  | sqlite
  deriving DecidableEq, Repr

/-- A backslash escapes in MySQL only. -/
def DBtype.dialect : DBtype → Dialect
  | .mysql => ⟨true⟩
  | .sqlite => ⟨false⟩

/-! ## Numbers in a text -/

/-- A number in decimal. -/
def decimal (n : Nat) : Text :=
  if n = 0 then [48] else (Nat.digits 10 n).reverse.map fun k => UInt16.ofNat (48 + k)

/-- A `long` that is concatenated to a string. -/
def longText (n : Long) : Text :=
  if n.toInt < 0 then 45 :: decimal n.toInt.natAbs else decimal n.toInt.natAbs

/-! ## Statements -/

/-- The time of joining, and the end of the `INSERT`. -/
def joinTime : DBtype → Text
  | .mysql => text "', NOW())"
  | .sqlite => text "', date('now'))"

/-- The statements, with what is concatenated into them. -/
inductive Stmt
  | authPassword (UID : Long)
  | getUIDbyName (UName : Text)
  | getUIDbyEmail (Email : Text)
  | getnextUID
  | createAccount (nextUID : Long) (pwd2 Salt UName UEmail : Text)
  | updateUName (UID : Long) (NewName : Text)
  | updateUEmail (UID : Long) (Email : Text)
  | updatePwd (UID : Long) (pwd2 Salt : Text)
  deriving DecidableEq, Repr

namespace Stmt

/-- The text of a statement. -/
def sql (t : DBtype) : Stmt → Text
  | authPassword UID =>
    text "SELECT `pwdMd5`, `PwdSalt` FROM `users` WHERE `UID` = '" ++ longText UID ++ text "'"
  | getUIDbyName UName =>
    text "SELECT `UID` FROM `users` WHERE `Username` = '" ++ UName ++ text "'"
  | getUIDbyEmail Email =>
    text "SELECT `UID` FROM `users` WHERE `Email` = '" ++ Email ++ text "'"
  | getnextUID => text "SELECT `UID` FROM `users` ORDER BY `UID` DESC LIMIT 1"
  | createAccount nextUID pwd2 Salt UName UEmail =>
    text "INSERT INTO `users` (`UID`, `PwdMd5`, `PwdSalt`, `Username`, `Email`, `JoinTime`) " ++
      text "VALUES ('" ++ longText nextUID ++ text "', '" ++ pwd2 ++ text "', '" ++ Salt ++
      text "', '" ++ UName ++ text "', '" ++ UEmail ++ joinTime t
  | updateUName UID NewName =>
    text "UPDATE `users` SET `Username` = '" ++ NewName ++ text "' WHERE `UID` = '" ++
      longText UID ++ text "'"
  | updateUEmail UID Email =>
    text "UPDATE `users` SET `Email` = '" ++ Email ++ text "' WHERE `UID` = '" ++
      longText UID ++ text "'"
  | updatePwd UID pwd2 Salt =>
    text "UPDATE `users` SET `PwdMd5` = '" ++ pwd2 ++ text "', `PwdSalt` = '" ++ Salt ++
      text "' WHERE `UID` = '" ++ longText UID ++ text "'"

end Stmt

/-- A keyword. -/
def keyword (s : String) : Token := .word (text s)

/-- A table or a column. -/
def column (s : String) : Token := .name (text s)

def comma : Token := .punct 44
def equals : Token := .punct 61
def openParen : Token := .punct 40
def closeParen : Token := .punct 41

/-- `SELECT … FROM users WHERE column =`. -/
def selectTokens (columns : List Token) (key : String) : List Token :=
  keyword "SELECT" :: columns ++ [keyword "FROM", column "users", keyword "WHERE", column key,
    equals]

/-- `INSERT INTO users ( … ) VALUES (`. -/
def insertTokens : List Token :=
  [keyword "INSERT", keyword "INTO", column "users", openParen, column "UID", comma,
    column "PwdMd5", comma, column "PwdSalt", comma, column "Username", comma, column "Email",
    comma, column "JoinTime", closeParen, keyword "VALUES", openParen]

/-- `UPDATE users SET column =`. -/
def updateTokens (key : String) : List Token :=
  [keyword "UPDATE", column "users", keyword "SET", column key, equals]

/-- `WHERE UID =`. -/
def whereUID : List Token := [keyword "WHERE", column "UID", equals]

/-- The tokens of `joinTime`. -/
def joinTimeTokens : DBtype → List Token
  | .mysql => [comma, keyword "NOW", openParen, closeParen, closeParen]
  | .sqlite => [comma, keyword "date", openParen, .lit (text "now"), closeParen, closeParen]

namespace Stmt

/-- The tokens of a statement. -/
def tokens (t : DBtype) : Stmt → List Token
  | authPassword UID =>
    selectTokens [column "pwdMd5", comma, column "PwdSalt"] "UID" ++ [.lit (longText UID)]
  | getUIDbyName UName => selectTokens [column "UID"] "Username" ++ [.lit UName]
  | getUIDbyEmail Email => selectTokens [column "UID"] "Email" ++ [.lit Email]
  | getnextUID =>
    [keyword "SELECT", column "UID", keyword "FROM", column "users", keyword "ORDER",
      keyword "BY", column "UID", keyword "DESC", keyword "LIMIT", keyword "1"]
  | createAccount nextUID pwd2 Salt UName UEmail =>
    insertTokens ++ [.lit (longText nextUID), comma, .lit pwd2, comma, .lit Salt, comma,
      .lit UName, comma, .lit UEmail] ++ joinTimeTokens t
  | updateUName UID NewName =>
    updateTokens "Username" ++ [.lit NewName] ++ whereUID ++ [.lit (longText UID)]
  | updateUEmail UID Email =>
    updateTokens "Email" ++ [.lit Email] ++ whereUID ++ [.lit (longText UID)]
  | updatePwd UID pwd2 Salt =>
    updateTokens "PwdMd5" ++ [.lit pwd2, comma, column "PwdSalt", equals, .lit Salt] ++
      whereUID ++ [.lit (longText UID)]

/-- The strings that are pasted into a statement. -/
def strings : Stmt → List Text
  | authPassword _ => []
  | getUIDbyName UName => [UName]
  | getUIDbyEmail Email => [Email]
  | getnextUID => []
  | createAccount _ pwd2 Salt UName UEmail => [pwd2, Salt, UName, UEmail]
  | updateUName _ NewName => [NewName]
  | updateUEmail _ Email => [Email]
  | updatePwd _ pwd2 Salt => [pwd2, Salt]

end Stmt

/-! ## Reading a statement -/

theorem decimal_not_special (n : Nat) : ∀ c ∈ decimal n, c ≠ quote ∧ c ≠ backslash := by
  intro c hc
  unfold decimal at hc
  split at hc
  · rw [List.mem_singleton.mp hc]
    decide
  · rcases List.mem_map.mp hc with ⟨k, hk, rfl⟩
    have hlt := Nat.digits_lt_base (by decide) (List.mem_reverse.mp hk)
    interval_cases k <;> decide

theorem plain_longText (d : Dialect) (n : Long) : Plain d (longText n) := by
  refine plain_of_forall fun c hc => not_special ?_
  unfold longText at hc
  split at hc
  · rcases List.mem_cons.mp hc with rfl | hc
    · decide
    · exact decimal_not_special _ c hc
  · exact decimal_not_special _ c hc

/-- The fixed text in front of the first literal. -/
theorem opens_sql :
    Opens (text "SELECT `pwdMd5`, `PwdSalt` FROM `users` WHERE `UID` = '")
        (selectTokens [column "pwdMd5", comma, column "PwdSalt"] "UID") ∧
      Opens (text "SELECT `UID` FROM `users` WHERE `Username` = '")
        (selectTokens [column "UID"] "Username") ∧
      Opens (text "SELECT `UID` FROM `users` WHERE `Email` = '")
        (selectTokens [column "UID"] "Email") ∧
      Opens (text "INSERT INTO `users` (`UID`, `PwdMd5`, `PwdSalt`, `Username`, `Email`, `JoinTime`) "
        ++ text "VALUES ('") insertTokens ∧
      Opens (text "UPDATE `users` SET `Username` = '") (updateTokens "Username") ∧
      Opens (text "UPDATE `users` SET `Email` = '") (updateTokens "Email") ∧
      Opens (text "UPDATE `users` SET `PwdMd5` = '") (updateTokens "PwdMd5") := by
  decide +kernel

/-- The fixed text between two literals. -/
theorem bridges_sql :
    Bridges (text "', '") [comma] ∧
      Bridges (text "', `PwdSalt` = '") [comma, column "PwdSalt", equals] ∧
      Bridges (text "' WHERE `UID` = '") whereUID := by
  decide +kernel

/-- The fixed text behind the last literal, and a statement without any. -/
theorem closes_sql (t : DBtype) :
    Closes (text "'") [] ∧ Closes (joinTime t) (joinTimeTokens t) ∧
      lex t.dialect (Stmt.sql t .getnextUID) = some (Stmt.tokens t .getnextUID) := by
  cases t <;> decide +kernel

/-- For every statement: the database reads the tokens that it is meant to
be, with its arguments as the values of the literals, if and only if its
arguments are plain. -/
theorem Stmt.lex_sql_iff (t : DBtype) (s : Stmt) :
    lex t.dialect (s.sql t) = some (s.tokens t) ↔ ∀ u ∈ s.strings, Plain t.dialect u := by
  have hUID := plain_longText t.dialect
  rcases opens_sql with ⟨hauth, hname, hemail, hinsert, hsetName, hsetEmail, hsetPwd⟩
  rcases bridges_sql with ⟨hcomma, hsalt, hwhere⟩
  rcases closes_sql t with ⟨hquote, hjoin, hnext⟩
  unfold lex at hnext ⊢
  cases s with
  | authPassword UID =>
    simp only [sql, tokens, List.append_assoc]
    rw [hauth.iff, hquote.iff]
    simp [strings, hUID]
  | getUIDbyName UName =>
    simp only [sql, tokens, List.append_assoc]
    rw [hname.iff, hquote.iff]
    simp [strings]
  | getUIDbyEmail Email =>
    simp only [sql, tokens, List.append_assoc]
    rw [hemail.iff, hquote.iff]
    simp [strings]
  | getnextUID =>
    refine iff_of_true hnext ?_
    simp [strings]
  | createAccount nextUID pwd2 Salt UName UEmail =>
    have hsql : sql t (createAccount nextUID pwd2 Salt UName UEmail) =
        (text "INSERT INTO `users` (`UID`, `PwdMd5`, `PwdSalt`, `Username`, `Email`, `JoinTime`) "
          ++ text "VALUES ('") ++ (longText nextUID ++ (text "', '" ++ (pwd2 ++ (text "', '" ++
          (Salt ++ (text "', '" ++ (UName ++ (text "', '" ++ (UEmail ++ joinTime t))))))))) := by
      simp only [sql, List.append_assoc]
    have htokens : tokens t (createAccount nextUID pwd2 Salt UName UEmail) =
        insertTokens ++ (.lit (longText nextUID) :: ([comma] ++ (.lit pwd2 :: ([comma] ++
          (.lit Salt :: ([comma] ++ (.lit UName :: ([comma] ++
          (.lit UEmail :: joinTimeTokens t))))))))) := by
      simp [tokens]
    rw [hsql, htokens, hinsert.iff, hcomma.iff, hcomma.iff, hcomma.iff, hcomma.iff, hjoin.iff]
    simp [strings, hUID]
  | updateUName UID NewName =>
    simp only [sql, tokens, List.append_assoc, List.cons_append, List.nil_append]
    rw [hsetName.iff, hwhere.iff, hquote.iff]
    simp [strings, hUID]
  | updateUEmail UID Email =>
    simp only [sql, tokens, List.append_assoc, List.cons_append, List.nil_append]
    rw [hsetEmail.iff, hwhere.iff, hquote.iff]
    simp [strings, hUID]
  | updatePwd UID pwd2 Salt =>
    have htokens : tokens t (updatePwd UID pwd2 Salt) =
        updateTokens "PwdMd5" ++ (.lit pwd2 :: ([comma, column "PwdSalt", equals] ++
          (.lit Salt :: (whereUID ++ [.lit (longText UID)])))) := by
      simp [tokens]
    simp only [htokens, sql, List.append_assoc]
    rw [hsetPwd.iff, hsalt.iff, hwhere.iff, hquote.iff]
    simp [strings, hUID]

/-! ## Strings of users -/

/-- The statements that take a string of a user.  `createAccount` also has
the string `res` that is hashed and the random bytes `b` of the salt. -/
inductive UserStmt
  | getUIDbyName (UName : Text)
  | getUIDbyEmail (Email : Text)
  | createAccount (nextUID : Long) (res : Text) (b : Fin 16 → UInt8) (UName UEmail : Text)
  | updateUName (UID : Long) (NewName : Text)
  | updateUEmail (UID : Long) (Email : Text)

namespace UserStmt

/-- The statement. -/
def stmt (md5 : MD5) : UserStmt → Stmt
  | getUIDbyName UName => .getUIDbyName UName
  | getUIDbyEmail Email => .getUIDbyEmail Email
  | createAccount nextUID res b UName UEmail =>
    .createAccount nextUID (md5.toMD5 res) (getRandSalt b) UName UEmail
  | updateUName UID NewName => .updateUName UID NewName
  | updateUEmail UID Email => .updateUEmail UID Email

/-- The strings of the user. -/
def userStrings : UserStmt → List Text
  | getUIDbyName UName => [UName]
  | getUIDbyEmail Email => [Email]
  | createAccount _ _ _ UName UEmail => [UName, UEmail]
  | updateUName _ NewName => [NewName]
  | updateUEmail _ Email => [Email]

/-- The other strings are plain. -/
theorem plain_strings_iff (md5 : MD5) (d : Dialect) (q : UserStmt) :
    (∀ u ∈ (q.stmt md5).strings, Plain d u) ↔ ∀ u ∈ q.userStrings, Plain d u := by
  cases q with
  | createAccount nextUID res b UName UEmail =>
    have hres := md5.plain d res
    have hsalt : Plain d (getRandSalt b) := getHexdump_plain d _
    simp [stmt, Stmt.strings, userStrings, hres, hsalt]
  | _ => exact Iff.rfl

/-- For all strings of a user: the SQL is read as the operation's tokens,
with one literal for each string and that string as its value, if and only if
the strings are plain. -/
theorem lex_iff (md5 : MD5) (t : DBtype) (q : UserStmt) :
    lex t.dialect ((q.stmt md5).sql t) = some ((q.stmt md5).tokens t) ↔
      ∀ u ∈ q.userStrings, Plain t.dialect u := by
  rw [Stmt.lex_sql_iff, plain_strings_iff]

/-- An e-mail address with a quote ends its literal. -/
theorem not_always_lex :
    ¬∀ md5 t q, lex t.dialect ((stmt md5 q).sql t) = some ((stmt md5 q).tokens t) := by
  intro h
  have hread := h ⟨fun _ => [], by simp⟩ .sqlite (.getUIDbyEmail (quote :: text " OR '1'='1"))
  rw [Stmt.lex_sql_iff, plain_strings_iff] at hread
  exact not_plain_quote _ (hread _ (List.mem_singleton_self _))

end UserStmt

end OCServer.Database
