import Mathlib.Data.List.Forall2
import OCServer.Database.Table

/-!
# The reference map

What the account manager is for: a list of accounts, each with a UID, a name,
an e-mail address and the bytes of a password.  `step` is what a call should
answer and change.

`Represents` relates the rows of the user table to the accounts.  While the
`Statement` is not closed, a call that can hash its passwords answers as the
reference map does and changes the table accordingly (`call_live`); but if it
updates, it leaves a closed `Statement` behind, and every later call uses
that (`call_closed`).  `behaves_iff` puts the two together.
-/

namespace OCServer.Database

open ByteIO SqlLex

/-! ## Calls -/

/-- A call of the account manager.  `b` are the random bytes of a salt. -/
inductive Op
  | createAccount (b : Fin 16 → UInt8) (UName UEmail pwdMd5 : Text)
  | AuthPassword (UID : Long) (pwdMD5 : Text)
  | updatePwd (b : Fin 16 → UInt8) (UID : Long) (OldPwdMd5 NewPwdMd5 : Text)
  | updateUName (UID : Long) (NewName : Text)
  | updateUEmail (UID : Long) (Email : Text)
  | getUIDbyName (UName : Text)
  | getUIDbyEmail (Email : Text)

/-- What a call returns. -/
inductive Result
  | code (n : Int)
  | uid (UID : Long)
  | uids (l : List Long)
  deriving DecidableEq, Repr

/-- The strings that a call pastes into its statements. -/
def Op.strings : Op → List Text
  | .createAccount _ UName UEmail _ => [UName, UEmail]
  | .AuthPassword _ _ => []
  | .updatePwd _ _ _ _ => []
  | .updateUName _ NewName => [NewName]
  | .updateUEmail _ Email => [Email]
  | .getUIDbyName UName => [UName]
  | .getUIDbyEmail Email => [Email]

section

variable {δ : Type} (drv : Driver δ) (md5 : MD5)

/-- The call. -/
def Op.call : Op → DbM δ Result
  | .createAccount b UName UEmail pwdMd5 => do
    return .uid (← Database.createAccount drv md5 b UName UEmail pwdMd5)
  | .AuthPassword UID pwdMD5 => do return .code (← Database.AuthPassword drv md5 UID pwdMD5)
  | .updatePwd b UID OldPwdMd5 NewPwdMd5 => do
    return .code (← Database.updatePwd drv md5 b UID OldPwdMd5 NewPwdMd5)
  | .updateUName UID NewName => do return .code (← Database.updateUName drv UID NewName)
  | .updateUEmail UID Email => do return .code (← Database.updateUEmail drv UID Email)
  | .getUIDbyName UName => do return .uids (← Database.getUIDbyName drv UName)
  | .getUIDbyEmail Email => do return .uid (← Database.getUIDbyEmail drv Email)

/-- Calls one after the other, and what each of them returned or threw. -/
def calls (m : AccountMgr δ) : List Op → AccountMgr δ × List (Except DbExc Result)
  | [] => (m, [])
  | op :: ops =>
    match op.call drv md5 m with
    | .ok r m' => ((calls m' ops).1, .ok r :: (calls m' ops).2)
    | .error e m' => ((calls m' ops).1, .error e :: (calls m' ops).2)

end

/-! ## Accounts -/

/-- An account. -/
structure Account where
  UID : Long
  name : Text
  email : Text
  password : List UInt8
  deriving DecidableEq, Repr

/-- The answer to a password. -/
def auth (accs : List Account) (UID : Long) (pwdMD5 : Text) : Int :=
  match accs.find? fun a => a.UID = UID with
  | none => -1
  | some a => if hexStr2Bytes pwdMD5 = a.password then 0 else -2

/-- The UID of the next account. -/
def nextUID (accs : List Account) : Long := (lastUID (accs.map Account.UID)).elim 1 (· + 1)

/-- The accounts with a `UID`, changed. -/
def changeAcc (UID : Long) (f : Account → Account) (accs : List Account) : List Account :=
  accs.map fun a => if a.UID = UID then f a else a

/-- The accounts after a call, if it changes them, and its result. -/
def step (sch : Schema) (accs : List Account) : Op → Option (List Account) × Result
  | .createAccount _ UName UEmail pwdMd5 =>
    if (accs.any fun a => a.UID = nextUID accs || sch.same a.email UEmail) ||
      !sch.fits UName UEmail
    then (none, .uid (-1))
    else (some (accs ++ [⟨nextUID accs, UName, UEmail, hexStr2Bytes pwdMd5⟩]),
      .uid (nextUID accs))
  | .AuthPassword UID pwdMD5 => (none, .code (auth accs UID pwdMD5))
  | .updatePwd _ UID OldPwdMd5 NewPwdMd5 =>
    if auth accs UID OldPwdMd5 = 0 then
      (some (changeAcc UID (fun a => { a with password := hexStr2Bytes NewPwdMd5 }) accs), .code 0)
    else (none, .code (-1))
  | .updateUName UID NewName =>
    if accs.any fun a => a.UID = UID && !sch.fits NewName a.email then (none, .code (-1))
    else (some (changeAcc UID (fun a => { a with name := NewName }) accs), .code 0)
  | .updateUEmail UID Email =>
    if (accs.any fun a => a.UID = UID && !sch.fits a.name Email) ||
      ((accs.any fun a => a.UID = UID) && accs.any fun a => a.UID ≠ UID && sch.same a.email Email)
    then (none, .code (-1))
    else (some (changeAcc UID (fun a => { a with email := Email }) accs), .code 0)
  | .getUIDbyName UName =>
    (none, .uids ((accs.filter fun a => sch.same a.name UName).map Account.UID))
  | .getUIDbyEmail Email =>
    (none, .uid (((accs.find? fun a => sch.same a.email Email).map Account.UID).getD (-1)))

/-- The results of a sequence of calls. -/
def results (sch : Schema) : List Account → List Op → List Result
  | _, [] => []
  | accs, op :: ops =>
    (step sch accs op).2 :: results sch ((step sch accs op).1.getD accs) ops

/-- The passwords that a call hashes have at most 16 bytes in hexadecimal. -/
def Hashable (accs : List Account) : Op → Prop
  | .createAccount _ _ _ pwdMd5 => pwdMd5.length ≤ 33
  | .AuthPassword UID pwdMD5 => (accs.any fun a => a.UID = UID) → pwdMD5.length ≤ 33
  | .updatePwd _ UID OldPwdMd5 NewPwdMd5 =>
    ((accs.any fun a => a.UID = UID) → OldPwdMd5.length ≤ 33) ∧
      (auth accs UID OldPwdMd5 = 0 → NewPwdMd5.length ≤ 33)
  | _ => True

/-- No call follows one that changes the accounts, and every call can hash
its passwords. -/
def Orderly (sch : Schema) (accs : List Account) : List Op → Prop
  | [] => True
  | op :: ops =>
    Hashable accs op ∧
      match (step sch accs op).1 with
      | some _ => ops = []
      | none => Orderly sch accs ops

/-! ## Rows and accounts -/

/-- The row of an account. -/
structure RowOf (md5 : MD5) (r : Row) (a : Account) : Prop where
  UID_eq : r.UID = a.UID
  name_eq : r.Username = a.name
  email_eq : r.Email = a.email
  salt_length : r.PwdSalt.length = 32
  hash_eq : hashOf md5 a.UID a.password r.PwdSalt = some r.PwdMd5

/-- The table of the accounts. -/
def Represents (md5 : MD5) : List Row → List Account → Prop := List.Forall₂ (RowOf md5)

section

variable {md5 : MD5} {rows : List Row} {accs : List Account}

theorem Represents.map_UID (h : Represents md5 rows accs) :
    rows.map Row.UID = accs.map Account.UID := by
  induction h with
  | nil => rfl
  | cons hrow _ ih => rw [List.map_cons, List.map_cons, hrow.UID_eq, ih]

theorem Represents.any_eq (h : Represents md5 rows accs) {p : Row → Bool} {q : Account → Bool}
    (hpq : ∀ r a, RowOf md5 r a → p r = q a) : rows.any p = accs.any q := by
  induction h with
  | nil => rfl
  | cons hrow _ ih => rw [List.any_cons, List.any_cons, hpq _ _ hrow, ih]

theorem Represents.filter_UID (h : Represents md5 rows accs) {p : Row → Bool}
    {q : Account → Bool} (hpq : ∀ r a, RowOf md5 r a → p r = q a) :
    (rows.filter p).map Row.UID = (accs.filter q).map Account.UID := by
  induction h with
  | nil => rfl
  | cons hrow _ ih =>
    rw [List.filter_cons, List.filter_cons, hpq _ _ hrow]
    split
    · rw [List.map_cons, List.map_cons, hrow.UID_eq, ih]
    · exact ih

theorem Represents.change (h : Represents md5 rows accs) {UID : Long} {f : Row → Row}
    {g : Account → Account} (hfg : ∀ r a, RowOf md5 r a → a.UID = UID → RowOf md5 (f r) (g a)) :
    Represents md5 (Database.change UID f rows) (changeAcc UID g accs) := by
  induction h with
  | nil => exact .nil
  | @cons r a _ _ hrow _ ih =>
    refine .cons ?_ ih
    show RowOf md5 (if r.UID = UID then f r else r) (if a.UID = UID then g a else a)
    rw [hrow.UID_eq]
    split
    · next hUID => exact hfg r a hrow hUID
    · exact hrow

/-! ## Queries -/

theorem addAll_uidRow (l : List Long) : addAll (l.map uidRow) = l := by
  induction l with
  | nil => rfl
  | cons u l ih =>
    show u :: addAll (l.map uidRow) = _
    rw [ih]

theorem emailResult_uidRow (l : List Long) :
    emailResult (some (l.map uidRow)) = l.head?.getD (-1) := by
  cases l <;> rfl

theorem query_getUIDbyName (sch : Schema) (h : Represents md5 rows accs) (UName : Text) :
    (query sch rows (.getUIDbyName UName)).elim [] addAll =
      (accs.filter fun a => sch.same a.name UName).map Account.UID := by
  rw [← h.filter_UID (p := fun r => sch.same r.Username UName) fun r a hrow => by
    rw [hrow.name_eq]]
  show addAll ((rows.filter _).map _) = _
  rw [show (fun r : Row => uidRow r.UID) = uidRow ∘ Row.UID from rfl, ← List.map_map,
    addAll_uidRow]

theorem query_getUIDbyEmail (sch : Schema) (h : Represents md5 rows accs) (Email : Text) :
    emailResult (query sch rows (.getUIDbyEmail Email)) =
      ((accs.find? fun a => sch.same a.email Email).map Account.UID).getD (-1) := by
  have hfilter := h.filter_UID (p := fun r => sch.same r.Email Email)
    (q := fun a => sch.same a.email Email) fun r a hrow => by rw [hrow.email_eq]
  show emailResult (some ((rows.filter _).map _)) = _
  rw [show (fun r : Row => uidRow r.UID) = uidRow ∘ Row.UID from rfl, ← List.map_map,
    emailResult_uidRow, hfilter, List.head?_map, List.head?_filter]

theorem query_getnextUID (sch : Schema) (h : Represents md5 rows accs) :
    nextResult (query sch rows .getnextUID) = nextUID accs := by
  show nextResult (some ((lastUID (rows.map Row.UID)).toList.map uidRow)) = _
  rw [h.map_UID]
  unfold nextUID
  cases lastUID (accs.map Account.UID) <;> rfl

/-- A password against the salt of a row. -/
theorem getPwdMd5_row (hmd5 : Function.Injective md5.toMD5) {r : Row} {a : Account}
    (hrow : RowOf md5 r a) (pwdMD5 : Text) :
    ((getPwdMd5 md5 a.UID pwdMD5 r.PwdSalt).map fun pwd2 =>
      if r.PwdMd5 = pwd2 then (0 : Int) else -2) =
        if pwdMD5.length ≤ 33 then some (if hexStr2Bytes pwdMD5 = a.password then 0 else -2)
        else none := by
  have hsome := getPwdMd5_isSome_iff md5 a.UID pwdMD5 r.PwdSalt
  rw [hrow.salt_length, saltLength_le_iff] at hsome
  cases hpwd : getPwdMd5 md5 a.UID pwdMD5 r.PwdSalt with
  | none =>
    rw [hpwd] at hsome
    rw [if_neg (fun h => by simpa using hsome.mpr h)]
    rfl
  | some pwd2 =>
    rw [hpwd] at hsome
    rw [if_pos (hsome.mp rfl), Option.map_some]
    have hiff : r.PwdMd5 = pwd2 ↔ hexStr2Bytes pwdMD5 = a.password := by
      constructor
      · intro heq
        rcases heq with rfl
        exact hashOf_injective hmd5 hpwd hrow.hash_eq
      · intro hbytes
        have hhash := hrow.hash_eq
        rw [← hbytes] at hhash
        exact Option.some.inj (hhash.symm.trans hpwd)
    simp only [hiff]

theorem query_authPassword (sch : Schema) (hmd5 : Function.Injective md5.toMD5)
    (h : Represents md5 rows accs) (UID : Long) (pwdMD5 : Text) :
    authResult md5 UID pwdMD5 (query sch rows (.authPassword UID)) =
      if (accs.any fun a => a.UID = UID) → pwdMD5.length ≤ 33 then some (auth accs UID pwdMD5)
      else none := by
  induction h with
  | nil => rfl
  | @cons r a rows accs hrow _ ih =>
    by_cases hUID : a.UID = UID
    · subst hUID
      have hquery : query sch (r :: rows) (.authPassword a.UID) =
          some (⟨none, some r.PwdMd5, some r.PwdSalt⟩ ::
            (rows.filter fun r => r.UID = a.UID).map fun r =>
              ⟨none, some r.PwdMd5, some r.PwdSalt⟩) := by
        show some ((List.filter _ (r :: rows)).map _) = _
        rw [List.filter_cons_of_pos (by simpa using hrow.UID_eq)]
        rfl
      rw [hquery]
      refine (getPwdMd5_row hmd5 hrow pwdMD5).trans ?_
      simp [auth]
    · have hquery : query sch (r :: rows) (.authPassword UID) =
          query sch rows (.authPassword UID) := by
        show some ((List.filter _ (r :: rows)).map _) = _
        rw [List.filter_cons_of_neg (by simpa [hrow.UID_eq] using hUID)]
        rfl
      rw [hquery, ih]
      simp [auth, hUID]

/-! ## One call -/

/-- What a call leaves: an open statement on the same table or, when it
changed the accounts, a closed one on the table of the new accounts. -/
def Leaves (md5 : MD5) (m : AccountMgr (List Row)) (rows : List Row) :
    Option (List Account) → AccountMgr (List Row) → Prop
  | none, m' => m' = m.opened rows
  | some accs', m' => ∃ rows', m' = m.closed rows' ∧ Represents md5 rows' accs'

/-- Strings without quotes and backslashes. -/
def Unquoted (op : Op) : Prop := ∀ u ∈ op.strings, ∀ c ∈ u, c ≠ quote ∧ c ≠ backslash

variable {sch : Schema} {drv : Driver (List Row)} {m : AccountMgr (List Row)} {st : StStatus}

/-- A call that ends with an update. -/
theorem updateAnswer_leaves {upd : Option (List Row)} {new : Option (List Account)}
    (h : Option.Rel (Represents md5) upd new) {α : Type} (a a' : α) :
    ∃ m', updateAnswer m rows a a' upd = .ok (if new.isSome then a else a') m' ∧
      Leaves md5 m rows new m' := by
  cases h with
  | none => exact ⟨_, rfl, rfl⟩
  | some h => exact ⟨_, rfl, _, rfl, h⟩

theorem update_updateUName (h : Represents md5 rows accs) (UID : Long) (NewName : Text) :
    Option.Rel (Represents md5) (update sch rows (.updateUName UID NewName))
      (step sch accs (.updateUName UID NewName)).1 := by
  have hany := h.any_eq (p := fun r => r.UID = UID && !sch.fits NewName r.Email)
    (q := fun a => a.UID = UID && !sch.fits NewName a.email) fun r a hrow => by
      rw [hrow.UID_eq, hrow.email_eq]
  simp only [update, step, hany]
  split
  · exact .none
  · refine .some (h.change fun r a hrow _ => ?_)
    exact ⟨hrow.UID_eq, rfl, hrow.email_eq, hrow.salt_length, hrow.hash_eq⟩

theorem update_updateUEmail (h : Represents md5 rows accs) (UID : Long) (Email : Text) :
    Option.Rel (Represents md5) (update sch rows (.updateUEmail UID Email))
      (step sch accs (.updateUEmail UID Email)).1 := by
  have hfits := h.any_eq (p := fun r => r.UID = UID && !sch.fits r.Username Email)
    (q := fun a => a.UID = UID && !sch.fits a.name Email) fun r a hrow => by
      rw [hrow.UID_eq, hrow.name_eq]
  have hexists := h.any_eq (p := fun r => r.UID = UID) (q := fun a => a.UID = UID)
    fun r a hrow => by rw [hrow.UID_eq]
  have htaken := h.any_eq (p := fun r => r.UID ≠ UID && sch.same r.Email Email)
    (q := fun a => a.UID ≠ UID && sch.same a.email Email) fun r a hrow => by
      rw [hrow.UID_eq, hrow.email_eq]
  simp only [update, step, hfits, hexists, htaken]
  split
  · exact .none
  · refine .some (h.change fun r a hrow _ => ?_)
    exact ⟨hrow.UID_eq, hrow.name_eq, rfl, hrow.salt_length, hrow.hash_eq⟩

theorem update_createAccount (h : Represents md5 rows accs) (b : Fin 16 → UInt8)
    (UName UEmail : Text) {pwdMd5 pwd2 : Text}
    (hpwd : getPwdMd5 md5 (nextUID accs) pwdMd5 (getRandSalt b) = some pwd2) :
    Option.Rel (Represents md5)
      (update sch rows (.createAccount (nextUID accs) pwd2 (getRandSalt b) UName UEmail))
      (step sch accs (.createAccount b UName UEmail pwdMd5)).1 := by
  have hany := h.any_eq (p := fun r => r.UID = nextUID accs || sch.same r.Email UEmail)
    (q := fun a => a.UID = nextUID accs || sch.same a.email UEmail) fun r a hrow => by
      rw [hrow.UID_eq, hrow.email_eq]
  simp only [update, step, hany]
  split
  · exact .none
  · refine .some (List.rel_append h (.cons ?_ .nil))
    exact ⟨rfl, rfl, rfl, getRandSalt_length b, hpwd⟩

theorem update_updatePwd (sch : Schema) (h : Represents md5 rows accs) (b : Fin 16 → UInt8)
    (UID : Long) {NewPwdMd5 pwd2 : Text}
    (hpwd : getPwdMd5 md5 UID NewPwdMd5 (getRandSalt b) = some pwd2) :
    ∃ rows', update sch rows (.updatePwd UID pwd2 (getRandSalt b)) = some rows' ∧
      Represents md5 rows'
        (changeAcc UID (fun a => { a with password := hexStr2Bytes NewPwdMd5 }) accs) := by
  refine ⟨_, rfl, h.change fun r a hrow hUID => ?_⟩
  refine ⟨hrow.UID_eq, hrow.name_eq, hrow.email_eq, getRandSalt_length b, ?_⟩
  show hashOf md5 a.UID _ _ = _
  rw [hUID]
  exact hpwd

/-- Strings without quotes and backslashes are plain. -/
theorem plain_strings (d : Dialect) (us : List Text)
    (h : ∀ u ∈ us, ∀ c ∈ u, c ≠ quote ∧ c ≠ backslash) : ∀ u ∈ us, Plain d u :=
  fun u hu => plain_of_forall fun c hc => not_special (h u hu c hc)

theorem Unquoted.plain {op : Op} (h : Unquoted op) (d : Dialect) : ∀ u ∈ op.strings, Plain d u :=
  plain_strings d op.strings h

/-- A call whose operation answers. -/
theorem return_of_ok {δ α : Type} {x : DbM δ α} {m m' : AccountMgr δ} {a : α} (f : α → Result)
    (h : x m = .ok a m') : (do return f (← x) : DbM δ Result) m = .ok (f a) m' := by
  rw [bind_of_ok h]
  rfl

/-- A call that ends with an update. -/
theorem return_of_update (hdrv : Executes sch m.t drv) {α : Type} {x : DbM (List Row) α}
    {s : Stmt} {new : Option (List Account)} {a a' : α} (f : α → Result)
    (hcall : x m = updateAnswer m rows a a' (drv.executeUpdate rows (s.sql m.t)))
    (hs : s.isQuery = false) (hsql : ∀ u ∈ s.strings, Plain m.t.dialect u)
    (hnew : Option.Rel (Represents md5) (update sch rows s) new) :
    ∃ m', (do return f (← x) : DbM (List Row) Result) m =
        .ok (f (if new.isSome then a else a')) m' ∧ Leaves md5 m rows new m' := by
  rw [hdrv.executeUpdate_sql rows hs hsql] at hcall
  rcases updateAnswer_leaves hnew a a' with ⟨m', hans, hleaves⟩
  exact ⟨m', return_of_ok f (hcall.trans hans), hleaves⟩

theorem call_AuthPassword (hdrv : Executes sch m.t drv) (hmd5 : Function.Injective md5.toMD5)
    (hconn : m.conn = .connected rows st) (hst : st ≠ .closed) (h : Represents md5 rows accs)
    (UID : Long) (pwdMD5 : Text) :
    Database.AuthPassword drv md5 UID pwdMD5 m = answer (m.opened rows)
      (if (accs.any fun a => a.UID = UID) → pwdMD5.length ≤ 33 then some (auth accs UID pwdMD5)
      else none) := by
  rw [AuthPassword_live _ md5 hconn hst, hdrv.executeQuery_sql rows rfl (by simp [Stmt.strings]),
    query_authPassword sch hmd5 h]

theorem call_AuthPassword_ok (hdrv : Executes sch m.t drv) (hmd5 : Function.Injective md5.toMD5)
    (hconn : m.conn = .connected rows st) (hst : st ≠ .closed) (h : Represents md5 rows accs)
    {UID : Long} {pwdMD5 : Text} (hhash : (accs.any fun a => a.UID = UID) → pwdMD5.length ≤ 33) :
    Database.AuthPassword drv md5 UID pwdMD5 m =
      .ok (auth accs UID pwdMD5) (m.opened rows) := by
  rw [call_AuthPassword hdrv hmd5 hconn hst h, if_pos hhash]
  rfl

theorem call_AuthPassword_throws (hdrv : Executes sch m.t drv) (hmd5 : Function.Injective md5.toMD5)
    (hconn : m.conn = .connected rows st) (hst : st ≠ .closed) (h : Represents md5 rows accs)
    {UID : Long} {pwdMD5 : Text}
    (hhash : ¬((accs.any fun a => a.UID = UID) → pwdMD5.length ≤ 33)) :
    Database.AuthPassword drv md5 UID pwdMD5 m =
      .error .stringIndexOutOfBounds (m.opened rows) := by
  rw [call_AuthPassword hdrv hmd5 hconn hst h, if_neg hhash]
  rfl

/-- The password of a new salt. -/
theorem getPwdMd5_salt (md5 : MD5) (b : Fin 16 → UInt8) (UID : Long) (pwdMd5 : Text) :
    (getPwdMd5 md5 UID pwdMd5 (getRandSalt b)).isSome = true ↔ pwdMd5.length ≤ 33 := by
  rw [getPwdMd5_isSome_iff, getRandSalt_length, saltLength_le_iff]

theorem nextResult_table {t : DBtype} (hdrv : Executes sch t drv) (h : Represents md5 rows accs) :
    nextResult (drv.executeQuery rows (Stmt.getnextUID.sql t)) = nextUID accs := by
  rw [hdrv.executeQuery_sql rows rfl (by simp [Stmt.strings]), query_getnextUID sch h]

/-- The strings of a statement with a hash and a salt. -/
theorem plain_hash {UID : Long} {pwdMd5 pwd2 : Text} (b : Fin 16 → UInt8)
    (hpwd : getPwdMd5 md5 UID pwdMd5 (getRandSalt b) = some pwd2) (d : Dialect) {us : List Text}
    (hus : ∀ u ∈ us, Plain d u) : ∀ u ∈ pwd2 :: getRandSalt b :: us, Plain d u :=
  List.forall_mem_cons.mpr ⟨getPwdMd5_plain hpwd d,
    List.forall_mem_cons.mpr ⟨getHexdump_plain d _, hus⟩⟩

/-- Every call that can hash its passwords, with a statement that is not
closed. -/
theorem call_live (hdrv : Executes sch m.t drv) (hmd5 : Function.Injective md5.toMD5)
    (hconn : m.conn = .connected rows st)
    (hst : st ≠ .closed) (h : Represents md5 rows accs) {op : Op} (hop : Unquoted op)
    (hhash : Hashable accs op) :
    ∃ m', op.call drv md5 m = .ok (step sch accs op).2 m' ∧
      Leaves md5 m rows (step sch accs op).1 m' := by
  have hplain := hop.plain m.t.dialect
  cases op with
  | createAccount b UName UEmail pwdMd5 =>
    rcases Option.isSome_iff_exists.mp ((getPwdMd5_salt md5 b (nextUID accs) pwdMd5).mpr hhash)
      with ⟨pwd2, hpwd⟩
    have hcall := createAccount_live drv md5 hconn hst
      (nextResult_table hdrv h) b UName UEmail hpwd
    rcases return_of_update hdrv .uid hcall rfl (plain_hash b hpwd _ hplain)
      (update_createAccount h b UName UEmail hpwd) with ⟨m', hret, hleaves⟩
    refine ⟨m', hret.trans ?_, hleaves⟩
    simp only [step]
    split <;> rfl
  | AuthPassword UID pwdMD5 =>
    exact ⟨_, return_of_ok _ (call_AuthPassword_ok hdrv hmd5 hconn hst h hhash), rfl⟩
  | updatePwd b UID OldPwdMd5 NewPwdMd5 =>
    have hauth : Database.AuthPassword drv md5 UID OldPwdMd5 m = _ :=
      call_AuthPassword_ok hdrv hmd5 hconn hst h hhash.1
    by_cases hzero : auth accs UID OldPwdMd5 = 0
    · rcases Option.isSome_iff_exists.mp ((getPwdMd5_salt md5 b UID NewPwdMd5).mpr (hhash.2 hzero))
        with ⟨pwd2, hpwd⟩
      rcases update_updatePwd sch h b UID hpwd with ⟨rows', hupd, hrep⟩
      rw [hzero] at hauth
      have hcall := updatePwd_of_auth _ md5 hauth b NewPwdMd5
      rw [hpwd] at hcall
      have hdb := catch_update_live drv (m := m.opened rows) rfl (by decide)
        ((Stmt.updatePwd UID pwd2 (getRandSalt b)).sql m.t) (0 : Int) (-2)
      have hsql : ∀ u ∈ (Stmt.updatePwd UID pwd2 (getRandSalt b)).strings,
          Plain m.t.dialect u := plain_hash b hpwd _ (by simp)
      rw [hdrv.executeUpdate_sql rows rfl hsql, hupd] at hdb
      have hstep : step sch accs (.updatePwd b UID OldPwdMd5 NewPwdMd5) =
          (some (changeAcc UID (fun a => { a with password := hexStr2Bytes NewPwdMd5 }) accs),
            .code 0) := if_pos hzero
      rw [hstep]
      exact ⟨_, return_of_ok _ (hcall.trans hdb), rows', rfl, hrep⟩
    · have hcall := updatePwd_of_refused _ md5 hauth hzero b NewPwdMd5
      have hstep : step sch accs (.updatePwd b UID OldPwdMd5 NewPwdMd5) = (none, .code (-1)) :=
        if_neg hzero
      rw [hstep]
      exact ⟨_, return_of_ok _ hcall, rfl⟩
  | updateUName UID NewName =>
    have hcall := updateUName_live drv hconn hst UID NewName
    rcases return_of_update hdrv .code hcall rfl hplain (update_updateUName h UID NewName)
      with ⟨m', hret, hleaves⟩
    refine ⟨m', hret.trans ?_, hleaves⟩
    simp only [step]
    split <;> rfl
  | updateUEmail UID Email =>
    have hcall := updateUEmail_live drv hconn hst UID Email
    rcases return_of_update hdrv .code hcall rfl hplain (update_updateUEmail h UID Email)
      with ⟨m', hret, hleaves⟩
    refine ⟨m', hret.trans ?_, hleaves⟩
    simp only [step]
    split <;> rfl
  | getUIDbyName UName =>
    have hcall := getUIDbyName_live drv hconn hst UName
    rw [hdrv.executeQuery_sql rows (s := .getUIDbyName UName) rfl hplain,
      query_getUIDbyName sch h] at hcall
    exact ⟨_, return_of_ok _ hcall, rfl⟩
  | getUIDbyEmail Email =>
    have hcall := getUIDbyEmail_live drv hconn hst Email
    rw [hdrv.executeQuery_sql rows (s := .getUIDbyEmail Email) rfl hplain,
      query_getUIDbyEmail sch h] at hcall
    exact ⟨_, return_of_ok _ hcall, rfl⟩

/-- A call that cannot hash a password throws. -/
theorem call_throws (hdrv : Executes sch m.t drv) (hmd5 : Function.Injective md5.toMD5)
    (hconn : m.conn = .connected rows st)
    (hst : st ≠ .closed) (h : Represents md5 rows accs) {op : Op} (hhash : ¬Hashable accs op) :
    ∃ m', op.call drv md5 m = .error .stringIndexOutOfBounds m' := by
  cases op with
  | createAccount b UName UEmail pwdMd5 =>
    have hpwd : getPwdMd5 md5 (nextUID accs) pwdMd5 (getRandSalt b) = none :=
      Option.not_isSome_iff_eq_none.mp fun hsome =>
        hhash ((getPwdMd5_salt md5 b (nextUID accs) pwdMd5).mp hsome)
    exact ⟨_, bind_of_error (createAccount_throws drv md5 hconn hst
      (nextResult_table hdrv h) b UName UEmail hpwd)⟩
  | AuthPassword UID pwdMD5 =>
    exact ⟨_, bind_of_error (call_AuthPassword_throws hdrv hmd5 hconn hst h hhash)⟩
  | updatePwd b UID OldPwdMd5 NewPwdMd5 =>
    by_cases hold : (accs.any fun a => a.UID = UID) → OldPwdMd5.length ≤ 33
    · have hauth := call_AuthPassword_ok hdrv hmd5 hconn hst h hold
      have hnew : ¬(auth accs UID OldPwdMd5 = 0 → NewPwdMd5.length ≤ 33) :=
        fun hnew => hhash ⟨hold, hnew⟩
      rcases Classical.not_imp.mp hnew with ⟨hzero, hlong⟩
      have hpwd : getPwdMd5 md5 UID NewPwdMd5 (getRandSalt b) = none :=
        Option.not_isSome_iff_eq_none.mp fun hsome =>
          hlong ((getPwdMd5_salt md5 b UID NewPwdMd5).mp hsome)
      rw [hzero] at hauth
      have hcall := updatePwd_of_auth _ md5 hauth b NewPwdMd5
      rw [hpwd] at hcall
      exact ⟨_, bind_of_error hcall⟩
    · have hauth := call_AuthPassword_throws hdrv hmd5 hconn hst h hold
      exact ⟨_, bind_of_error (updatePwd_of_error _ md5 hauth b NewPwdMd5)⟩
  | _ => exact absurd trivial hhash

/-- Every call with a closed statement uses it. -/
theorem call_closed {δ : Type} (drv : Driver δ) {m : AccountMgr δ} {db : δ}
    (hconn : m.conn = .connected db .closed) (op : Op) :
    (∃ r, op.call drv md5 m = .ok r m.misuse) ∨ ∃ e, op.call drv md5 m = .error e m.misuse := by
  cases op with
  | createAccount b UName UEmail pwdMd5 =>
    have hcall := createAccount_closed drv md5 hconn b UName UEmail pwdMd5
    cases hpwd : getPwdMd5 md5 (-1) pwdMd5 (getRandSalt b) with
    | none =>
      rw [hpwd] at hcall
      exact Or.inr ⟨_, bind_of_error hcall⟩
    | some pwd2 =>
      rw [hpwd] at hcall
      exact Or.inl ⟨_, return_of_ok _ hcall⟩
  | AuthPassword UID pwdMD5 =>
    exact Or.inl ⟨_, return_of_ok _ (AuthPassword_closed drv md5 hconn UID pwdMD5)⟩
  | updatePwd b UID OldPwdMd5 NewPwdMd5 =>
    exact Or.inl ⟨_, return_of_ok _ (updatePwd_closed drv md5 hconn b UID OldPwdMd5 NewPwdMd5)⟩
  | updateUName UID NewName =>
    exact Or.inl ⟨_, return_of_ok _ (updateUName_closed drv hconn UID NewName)⟩
  | updateUEmail UID Email =>
    exact Or.inl ⟨_, return_of_ok _ (updateUEmail_closed drv hconn UID Email)⟩
  | getUIDbyName UName =>
    exact Or.inl ⟨_, return_of_ok _ (getUIDbyName_closed drv hconn UName)⟩
  | getUIDbyEmail Email =>
    exact Or.inl ⟨_, return_of_ok _ (getUIDbyEmail_closed drv hconn Email)⟩

/-! ## Runs -/

theorem calls_of_ok {δ : Type} {drv : Driver δ} {m m' : AccountMgr δ} {op : Op} {r : Result}
    (h : op.call drv md5 m = .ok r m') (ops : List Op) :
    calls drv md5 m (op :: ops) =
      ((calls drv md5 m' ops).1, .ok r :: (calls drv md5 m' ops).2) := by
  rw [calls, h]

theorem calls_of_error {δ : Type} {drv : Driver δ} {m m' : AccountMgr δ} {op : Op} {e : DbExc}
    (h : op.call drv md5 m = .error e m') (ops : List Op) :
    calls drv md5 m (op :: ops) =
      ((calls drv md5 m' ops).1, .error e :: (calls drv md5 m' ops).2) := by
  rw [calls, h]

/-- Calls with a closed statement use it. -/
theorem calls_closed {δ : Type} (drv : Driver δ) {m : AccountMgr δ} {db : δ}
    (hconn : m.conn = .connected db .closed) (op : Op) (ops : List Op) :
    (calls drv md5 m (op :: ops)).1 = m.misuse := by
  induction ops generalizing m op with
  | nil =>
    rcases call_closed drv hconn op with ⟨r, hcall⟩ | ⟨e, hcall⟩
    · rw [calls_of_ok hcall]
      rfl
    · rw [calls_of_error hcall]
      rfl
  | cons op' ops ih =>
    have hrest : (calls drv md5 m.misuse (op' :: ops)).1 = m.misuse := ih (m := m.misuse) hconn op'
    rcases call_closed drv hconn op with ⟨r, hcall⟩ | ⟨e, hcall⟩
    · rw [calls_of_ok hcall, hrest]
    · rw [calls_of_error hcall, hrest]

/-- The account manager answers as the reference map does, and does not use a
closed statement, exactly for orderly calls.  By induction on the calls: while
the statement is not closed, the table represents the accounts. -/
theorem calls_iff (hdrv : Executes sch m.t drv) (hmd5 : Function.Injective md5.toMD5)
    (hconn : m.conn = .connected rows st)
    (hst : st ≠ .closed) (hmis : m.misused = false) (h : Represents md5 rows accs)
    {ops : List Op} (hops : ∀ op ∈ ops, Unquoted op) :
    ((calls drv md5 m ops).2 = (results sch accs ops).map .ok ∧
      (calls drv md5 m ops).1.misused = false) ↔ Orderly sch accs ops := by
  induction ops generalizing m st with
  | nil => exact iff_of_true ⟨rfl, hmis⟩ trivial
  | cons op ops ih =>
    rcases List.forall_mem_cons.mp hops with ⟨hop, hops⟩
    by_cases hhash : Hashable accs op
    · rcases call_live hdrv hmd5 hconn hst h hop hhash with ⟨m', hcall, hleaves⟩
      rw [calls_of_ok hcall]
      unfold results Orderly
      rw [List.map_cons, List.cons.injEq, and_iff_right rfl, and_iff_right hhash]
      cases hnew : (step sch accs op).1 with
      | none =>
        rw [hnew] at hleaves
        cases hleaves
        have hopened : StStatus.opened ≠ .closed := by decide
        exact ih (m := m.opened rows) hdrv rfl hopened hmis hops
      | some accs' =>
        rw [hnew] at hleaves
        rcases hleaves with ⟨rows', rfl, -⟩
        cases ops with
        | nil => exact iff_of_true ⟨rfl, hmis⟩ rfl
        | cons op' ops =>
          rw [calls_closed (m := m.closed rows') _ rfl]
          simp [AccountMgr.misuse]
    · rcases call_throws hdrv hmd5 hconn hst h hhash with ⟨m', hcall⟩
      rw [calls_of_error hcall]
      unfold results Orderly
      simp [hhash]

end

/-- For every database, every table of accounts and all calls with strings without
quotes and backslashes, on a new account manager: every result is that of the reference
map and no closed statement is used, if and only if the calls are orderly. -/
theorem behaves_iff {sch : Schema} {t : DBtype} {drv : Driver (List Row)}
    (hdrv : Executes sch t drv) {md5 : MD5} (hmd5 : Function.Injective md5.toMD5)
    {rows : List Row} {accs : List Account} (h : Represents md5 rows accs) {ops : List Op}
    (hops : ∀ op ∈ ops, Unquoted op) :
    ((calls drv md5 ⟨t, .connected rows .null, false⟩ ops).2 =
        (results sch accs ops).map .ok ∧
      (calls drv md5 ⟨t, .connected rows .null, false⟩ ops).1.misused = false) ↔
      Orderly sch accs ops :=
  calls_iff (m := ⟨t, .connected rows .null, false⟩) hdrv hmd5 rfl (by decide) rfl h hops

/-- The code units in hexadecimal, an injective function like the assumed MD5. -/
def unitsMD5 : MD5 where
  toMD5 s := s.flatMap fun c => [digit (c.toNat / 4096), digit (c.toNat / 256 % 16),
    digit (c.toNat / 16 % 16), digit (c.toNat % 16)]
  isDigit s c hc := by
    rcases List.mem_flatMap.mp hc with ⟨u, -, hu⟩
    have hlt := u.toNat_lt
    simp only [List.mem_cons, List.not_mem_nil, or_false] at hu
    rcases hu with rfl | rfl | rfl | rfl
    · exact ⟨_, by omega, rfl⟩
    · exact ⟨_, by omega, rfl⟩
    · exact ⟨_, by omega, rfl⟩
    · exact ⟨_, by omega, rfl⟩

theorem unitsMD5_injective : Function.Injective unitsMD5.toMD5 := by
  intro s s' h
  induction s generalizing s' with
  | nil =>
    cases s' with
    | nil => rfl
    | cons c' s' => cases h
  | cons c s ih =>
    cases s' with
    | nil => cases h
    | cons c' s' =>
      rcases List.append_inj h rfl with ⟨hhead, htail⟩
      have hlt := c.toNat_lt
      have hlt' := c'.toNat_lt
      simp only [List.cons.injEq, and_true] at hhead
      have h1 := digit_injective (by omega) (by omega) hhead.1
      have h2 := digit_injective (by omega) (by omega) hhead.2.1
      have h3 := digit_injective (by omega) (by omega) hhead.2.2.1
      have h4 := digit_injective (by omega) (by omega) hhead.2.2.2
      have hc : c.toNat = c'.toNat := by omega
      rw [UInt16.toNat_inj.mp hc, ih htail]

/-- Text is equal if it is the same, and everything fits. -/
def plainSchema : Schema := ⟨fun u v => u == v, fun _ _ => true⟩

/-- The row of the password `00`. -/
def sampleRow : Row :=
  ⟨1, (getPwdMd5 unitsMD5 1 [48, 48] (getRandSalt fun _ => 0)).getD [], getRandSalt fun _ => 0,
    [116], [101]⟩

theorem sampleRow_represents : Represents unitsMD5 [sampleRow] [⟨1, [116], [101], [0]⟩] :=
  .cons ⟨rfl, rfl, rfl, getRandSalt_length fun _ => 0, rfl⟩ .nil

/-- The right password, a wrong one, and another name. -/
def sampleOps : List Op :=
  [.getUIDbyName [116], .AuthPassword 1 [48, 48], .AuthPassword 1 [48, 49], .updateUName 1 [110]]

theorem behaves_sample :
    (calls (tableDriver plainSchema .sqlite) unitsMD5
        ⟨.sqlite, .connected [sampleRow] .null, false⟩ sampleOps).2 =
      (results plainSchema [⟨1, [116], [101], [0]⟩] sampleOps).map .ok ∧
    (calls (tableDriver plainSchema .sqlite) unitsMD5
        ⟨.sqlite, .connected [sampleRow] .null, false⟩ sampleOps).1.misused = false := by
  refine (behaves_iff (tableDriver_executes plainSchema .sqlite) unitsMD5_injective
    sampleRow_represents ?_).mpr ?_
  · intro op hop u hu c hc
    simp only [sampleOps, List.mem_cons, List.not_mem_nil, or_false] at hop
    rcases hop with rfl | rfl | rfl | rfl <;> simp_all [Op.strings, quote, backslash]
  · simp [sampleOps, Orderly, Hashable, step, plainSchema]

example : results plainSchema [⟨1, [116], [101], [0]⟩] sampleOps =
    [.uids [1], .code 0, .code (-2), .code 0] := by decide

/-- An account is created, and its e-mail address is not found. -/
theorem not_always_behaves :
    ¬∀ (sch : Schema) (t : DBtype) (drv : Driver (List Row)) (md5 : MD5) (rows : List Row)
      (accs : List Account) (ops : List Op), Executes sch t drv → Function.Injective md5.toMD5 →
      Represents md5 rows accs →
      (∀ op ∈ ops, Unquoted op) →
      (calls drv md5 ⟨t, .connected rows .null, false⟩ ops).2 =
          (results sch accs ops).map .ok ∧
        (calls drv md5 ⟨t, .connected rows .null, false⟩ ops).1.misused = false := by
  intro h
  have hops : ∀ op ∈ [Op.createAccount (fun _ => 0) [116] [101] [48, 48], .getUIDbyEmail [101]],
      Unquoted op := by
    intro op hop u hu c hc
    simp only [List.mem_cons, List.not_mem_nil, or_false] at hop
    rcases hop with rfl | rfl
    · simp only [Op.strings, List.mem_cons, List.not_mem_nil, or_false] at hu
      rcases hu with rfl | rfl <;> simp_all [quote, backslash]
    · simp_all [Op.strings, quote, backslash]
  have hnull : StStatus.null ≠ .closed := by decide
  have hiff := calls_iff (m := ⟨.sqlite, .connected [] .null, false⟩)
    (tableDriver_executes plainSchema .sqlite) unitsMD5_injective rfl hnull rfl .nil hops
  have horderly := hiff.mp (h plainSchema .sqlite _ unitsMD5 [] [] _
    (tableDriver_executes plainSchema .sqlite) unitsMD5_injective .nil hops)
  simp [Orderly, Hashable, step, plainSchema] at horderly

end OCServer.Database
