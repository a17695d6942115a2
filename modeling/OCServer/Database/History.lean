import OCServer.Database.Create
import OCServer.Database.Reference

/-!
# Accounts over the life of a server

A process has one account manager, whose statement is closed by its first update.  The
database outlives the process: `history` runs one process after the other on it, and logs
every call with what it returned.

`passwords` and `created` say what an observer concludes from the log.  `login_iff_logged` says
that the observer is right: after any history a new process answers to a password by
the log alone, whatever MD5 is.  `created_numbered` says which UIDs are given out.
-/

namespace OCServer.Database

open ByteIO SqlLex

/-! ## Logs -/

/-- A call and what it returned or threw. -/
abbrev Entry := Op × Except DbExc Result

/-- The bytes of a password, and the salt that was drawn with it. -/
abbrev Secret := List UInt8 × Text

/-- The passwords, as far as they are known, after one more call. -/
def note (known : Long → Option Secret) : Entry → Long → Option Secret
  | (.createAccount b _ _ pwdMd5, .ok (.uid u)) =>
    if u = -1 then known
    else Function.update known u (some (hexStr2Bytes pwdMd5, getRandSalt b))
  | (.updatePwd b u _ NewPwdMd5, .ok (.code c)) =>
    if c = 0 then Function.update known u (some (hexStr2Bytes NewPwdMd5, getRandSalt b)) else known
  | _ => known

/-- The passwords that a log tells. -/
def passwords (log : List Entry) : Long → Option Secret := log.foldl note fun _ => none

/-- The UID that a call has given out. -/
def created : Entry → Option Long
  | (.createAccount _ _ _ _, .ok (.uid u)) => if u = -1 then none else some u
  | _ => none

section

variable (drv : Driver (List Row)) (t : DBtype) (md5 : MD5)

/-- The manager of a new process. -/
def initialized (rows : List Row) : AccountMgr (List Row) := ⟨t, .connected rows .null, false⟩

/-- The processes one after the other, each with its calls: the table they leave, and the log. -/
def history : List Row → List (List Op) → List Row × List Entry
  | rows, [] => (rows, [])
  | rows, ops :: rest =>
    let r := calls drv md5 (initialized t rows) ops
    let h := history r.1.users rest
    (h.1, ops.zip r.2 ++ h.2)

end

/-! ## What a call does to the table -/

/-- The row has the hash of the password, under its salt. -/
structure Holds (md5 : MD5) (r : Row) (k : Secret) : Prop where
  salt_eq : r.PwdSalt = k.2
  salt_length : r.PwdSalt.length = 32
  hash_eq : hashOf md5 r.UID k.1 k.2 = some r.PwdMd5

/-- The first row with a UID. -/
def rowOf (rows : List Row) (UID : Long) : Option Row := rows.find? fun r => r.UID = UID

/-- The observer knows the rows, whose UIDs are numbered from 1 on. -/
structure Known (md5 : MD5) (rows : List Row) (known : Long → Option Secret) : Prop where
  password : ∀ u, Option.Rel (Holds md5) (rowOf rows u) (known u)
  numbered : rows.map Row.UID =
    (List.range rows.length).map fun i => BitVec.ofNat 64 (i + 1)

theorem toInt_ofNat {n : Nat} (h : n < 2 ^ 63) : (BitVec.ofNat 64 n : Long).toInt = n := by
  rw [BitVec.toInt_ofNat', Int.bmod_def]
  split_ifs <;> omega

/-- The last of a list that no other exceeds. -/
theorem lastUID_concat {us : List Long} {v : Long} (h : ∀ u ∈ us, u.toInt ≤ v.toInt) :
    lastUID (us ++ [v]) = some v := by
  induction us with
  | nil => rfl
  | cons u us ih =>
    have hu := h u List.mem_cons_self
    rw [List.cons_append, lastUID, ih fun w hw => h w (List.mem_cons_of_mem _ hw)]
    show some (if v.toInt < u.toInt then u else v) = _
    rw [if_neg (by omega)]

variable {sch : Schema} {t : DBtype} {md5 : MD5} {rows rows' : List Row}
  {known : Long → Option Secret} {op : Op} {r : Result}

theorem Known.nextUID_eq (sch : Schema) (h : Known md5 rows known) (hlen : rows.length < 2 ^ 63) :
    nextResult (query sch rows .getnextUID) = BitVec.ofNat 64 (rows.length + 1) := by
  show nextResult (some ((lastUID (rows.map Row.UID)).toList.map uidRow)) = _
  rw [h.numbered]
  cases hn : rows.length with
  | zero => rfl
  | succ n =>
    have hmax : ∀ u ∈ (List.range n).map fun i => (BitVec.ofNat 64 (i + 1) : Long),
        u.toInt ≤ (BitVec.ofNat 64 (n + 1) : Long).toInt := by
      intro u hu
      obtain ⟨i, hi, rfl⟩ := List.mem_map.mp hu
      have hlt := List.mem_range.mp hi
      rw [toInt_ofNat (by omega), toInt_ofNat (by omega)]
      omega
    rw [List.range_succ, List.map_append, List.map_singleton, lastUID_concat hmax]
    exact (BitVec.ofNat_add (n + 1) 1).symm

theorem ofNat_ne_error {n : Nat} (h : n < 2 ^ 63) : (BitVec.ofNat 64 n : Long) ≠ -1 := by
  intro heq
  have hint := toInt_ofNat h
  rw [heq] at hint
  have hneg : (-1 : Long).toInt = -1 := by decide
  omega

/-- The calls that change the table, what they return and what they leave. -/
inductive Changes (md5 : MD5) (next : Long) (rows : List Row) : Op → Result → List Row → Prop
  | createAccount {b : Fin 16 → UInt8} {UName UEmail pwdMd5 pwd2 : Text}
      (hash : getPwdMd5 md5 next pwdMd5 (getRandSalt b) = some pwd2)
      (new : ∀ r ∈ rows, r.UID ≠ next) :
      Changes md5 next rows (.createAccount b UName UEmail pwdMd5) (.uid next)
        (rows ++ [⟨next, pwd2, getRandSalt b, UName, UEmail⟩])
  | updatePwd {b : Fin 16 → UInt8} {UID : Long} {OldPwdMd5 NewPwdMd5 pwd2 : Text}
      (hash : getPwdMd5 md5 UID NewPwdMd5 (getRandSalt b) = some pwd2)
      (found : (rowOf rows UID).isSome) :
      Changes md5 next rows (.updatePwd b UID OldPwdMd5 NewPwdMd5) (.code 0)
        (change UID (fun r => { r with PwdMd5 := pwd2, PwdSalt := getRandSalt b }) rows)
  | updateUName {UID : Long} {NewName : Text} :
      Changes md5 next rows (.updateUName UID NewName) (.code 0)
        (change UID (fun r => { r with Username := NewName }) rows)
  | updateUEmail {UID : Long} {Email : Text} :
      Changes md5 next rows (.updateUEmail UID Email) (.code 0)
        (change UID (fun r => { r with Email := Email }) rows)

/-- A call that tells an observer nothing new. -/
def Quiet (op : Op) (x : Except DbExc Result) : Prop :=
  (∀ known, note known (op, x) = known) ∧ created (op, x) = none

theorem quiet_error (op : Op) (e : DbExc) : Quiet op (.error e) := by
  cases op <;> exact ⟨fun _ => rfl, rfl⟩

/-- What a call can do, with a statement that is not closed. -/
inductive Acts (md5 : MD5) (next : Long) (m : AccountMgr (List Row)) (rows : List Row) (op : Op) :
    EStateM.Result DbExc (AccountMgr (List Row)) Result → Prop
  | quiet {r : Result} (h : Quiet op (.ok r)) : Acts md5 next m rows op (.ok r (m.opened rows))
  | throws {e : DbExc} : Acts md5 next m rows op (.error e (m.opened rows))
  | changes {r : Result} {rows' : List Row} (h : Changes md5 next rows op r rows') :
      Acts md5 next m rows op (.ok r (m.closed rows'))

section

variable {drv : Driver (List Row)} {m : AccountMgr (List Row)} {st : StStatus}

theorem head?_filter_row (rows : List Row) (UID : Long) :
    (rows.filter fun r => r.UID = UID).head? = rowOf rows UID := List.head?_filter

/-- The answer to a password, by the row. -/
theorem authResult_row (sch : Schema) (UID : Long) (pwdMD5 : Text) :
    authResult md5 UID pwdMD5 (query sch rows (.authPassword UID)) =
      (rowOf rows UID).elim (some (-1)) fun r =>
        (getPwdMd5 md5 UID pwdMD5 r.PwdSalt).map fun pwd2 => if r.PwdMd5 = pwd2 then 0 else -2 := by
  rw [← head?_filter_row]
  show authResult md5 UID pwdMD5 (some ((rows.filter _).map _)) = _
  cases rows.filter fun r => r.UID = UID <;> rfl

theorem call_AuthPassword_row (hdrv : Executes sch m.t drv) (md5 : MD5)
    (hconn : m.conn = .connected rows st) (hst : st ≠ .closed) (UID : Long) (pwdMD5 : Text) :
    Database.AuthPassword drv md5 UID pwdMD5 m = answer (m.opened rows)
      ((rowOf rows UID).elim (some (-1)) fun r =>
        (getPwdMd5 md5 UID pwdMD5 r.PwdSalt).map fun pwd2 =>
          if r.PwdMd5 = pwd2 then 0 else -2) := by
  rw [AuthPassword_live _ md5 hconn hst, hdrv.executeQuery_sql rows rfl (by simp [Stmt.strings]),
    authResult_row]

/-- A call that ends with an update. -/
theorem acts_of_update (hdrv : Executes sch m.t drv) {α : Type} {x : DbM (List Row) α}
    {s : Stmt} {a a' : α} (f : α → Result) {next : Long}
    (hx : x m = updateAnswer m rows a a' (drv.executeUpdate rows (s.sql m.t)))
    (hs : s.isQuery = false) (hsql : ∀ u ∈ s.strings, Plain m.t.dialect u)
    (hquiet : Quiet op (.ok (f a')))
    (hchanges : ∀ rows', update sch rows s = some rows' → Changes md5 next rows op (f a) rows') :
    Acts md5 next m rows op ((do return f (← x) : DbM (List Row) Result) m) := by
  rw [hdrv.executeUpdate_sql rows hs hsql] at hx
  cases hupd : update sch rows s with
  | none =>
    rw [hupd] at hx
    rw [return_of_ok f hx]
    exact .quiet hquiet
  | some rows' =>
    rw [hupd] at hx
    rw [return_of_ok f hx]
    exact .changes (hchanges rows' hupd)

theorem quiet_createAccount (b : Fin 16 → UInt8) (UName UEmail pwdMd5 : Text) :
    Quiet (.createAccount b UName UEmail pwdMd5) (.ok (.uid (-1))) := ⟨fun _ => rfl, rfl⟩

theorem quiet_updatePwd (b : Fin 16 → UInt8) (UID : Long) (OldPwdMd5 NewPwdMd5 : Text) {c : Int}
    (h : c ≠ 0) : Quiet (.updatePwd b UID OldPwdMd5 NewPwdMd5) (.ok (.code c)) :=
  ⟨fun _ => if_neg h, rfl⟩

/-- One call, whatever MD5 is. -/
theorem call_acts (hdrv : Executes sch m.t drv) (md5 : MD5) (hconn : m.conn = .connected rows st)
    (hst : st ≠ .closed) (hop : Unquoted op) :
    Acts md5 (nextResult (query sch rows .getnextUID)) m rows op
      (op.call drv md5 m) := by
  have hplain := hop.plain m.t.dialect
  cases op with
  | createAccount b UName UEmail pwdMd5 =>
    have hnext : nextResult (drv.executeQuery rows (Stmt.getnextUID.sql m.t)) =
        nextResult (query sch rows .getnextUID) := by
      rw [hdrv.executeQuery_sql rows rfl (by simp [Stmt.strings])]
    cases hpwd : getPwdMd5 md5 (nextResult (query sch rows .getnextUID)) pwdMd5 (getRandSalt b) with
    | none =>
      have hcall := createAccount_throws drv md5 hconn hst hnext b UName UEmail hpwd
      rw [Op.call, bind_of_error hcall]
      exact .throws
    | some pwd2 =>
      have hcall := createAccount_live drv md5 hconn hst hnext b UName UEmail hpwd
      refine acts_of_update hdrv .uid hcall rfl (plain_hash b hpwd _ hplain)
        (quiet_createAccount b UName UEmail pwdMd5) fun rows' hupd => ?_
      simp only [update] at hupd
      split_ifs at hupd with hany
      cases hupd
      refine .createAccount hpwd fun r hr hUID => hany ?_
      rw [Bool.or_eq_true, List.any_eq_true]
      exact Or.inl ⟨r, hr, by rw [hUID]; simp⟩
  | AuthPassword UID pwdMD5 =>
    have hcall := call_AuthPassword_row hdrv md5 hconn hst UID pwdMD5
    cases hauth : (rowOf rows UID).elim (some (-1)) fun r =>
        (getPwdMd5 md5 UID pwdMD5 r.PwdSalt).map fun pwd2 => if r.PwdMd5 = pwd2 then 0 else -2 with
    | none =>
      rw [hauth] at hcall
      rw [Op.call, bind_of_error hcall]
      exact .throws
    | some c =>
      rw [hauth] at hcall
      rw [Op.call, return_of_ok _ hcall]
      exact .quiet ⟨fun _ => rfl, rfl⟩
  | updatePwd b UID OldPwdMd5 NewPwdMd5 =>
    have hold := call_AuthPassword_row hdrv md5 hconn hst UID OldPwdMd5
    cases hauth : (rowOf rows UID).elim (some (-1)) fun r =>
        (getPwdMd5 md5 UID OldPwdMd5 r.PwdSalt).map fun pwd2 =>
          if r.PwdMd5 = pwd2 then 0 else -2 with
    | none =>
      rw [hauth] at hold
      rw [Op.call, bind_of_error (updatePwd_of_error _ md5 hold b NewPwdMd5)]
      exact .throws
    | some c =>
      rw [hauth] at hold
      by_cases hzero : c = 0
      · subst hzero
        have hfound : (rowOf rows UID).isSome := by
          cases hrow : rowOf rows UID with
          | none =>
            rw [hrow] at hauth
            cases hauth
          | some r => rfl
        have hcall := updatePwd_of_auth _ md5 hold b NewPwdMd5
        cases hpwd : getPwdMd5 md5 UID NewPwdMd5 (getRandSalt b) with
        | none =>
          rw [hpwd] at hcall
          rw [Op.call, bind_of_error hcall]
          exact .throws
        | some pwd2 =>
          rw [hpwd] at hcall
          have hdb := catch_update_live drv (m := m.opened rows) rfl (by decide)
            ((Stmt.updatePwd UID pwd2 (getRandSalt b)).sql m.t) (0 : Int) (-2)
          refine acts_of_update hdrv .code (hcall.trans hdb) rfl (plain_hash b hpwd _ (by simp))
            (quiet_updatePwd b UID OldPwdMd5 NewPwdMd5 (by decide)) fun rows' hupd => ?_
          cases hupd
          exact .updatePwd hpwd hfound
      · rw [Op.call, return_of_ok _ (updatePwd_of_refused _ md5 hold hzero b NewPwdMd5)]
        exact .quiet (quiet_updatePwd b UID OldPwdMd5 NewPwdMd5 (by decide))
  | updateUName UID NewName =>
    have hcall := updateUName_live drv hconn hst UID NewName
    refine acts_of_update hdrv .code hcall rfl hplain ⟨fun _ => rfl, rfl⟩ fun rows' hupd => ?_
    simp only [update] at hupd
    split_ifs at hupd
    cases hupd
    exact .updateUName
  | updateUEmail UID Email =>
    have hcall := updateUEmail_live drv hconn hst UID Email
    refine acts_of_update hdrv .code hcall rfl hplain ⟨fun _ => rfl, rfl⟩ fun rows' hupd => ?_
    simp only [update] at hupd
    split_ifs at hupd
    cases hupd
    exact .updateUEmail
  | getUIDbyName UName =>
    have hcall := getUIDbyName_live drv hconn hst UName
    rw [Op.call, return_of_ok _ hcall]
    exact .quiet ⟨fun _ => rfl, rfl⟩
  | getUIDbyEmail Email =>
    have hcall := getUIDbyEmail_live drv hconn hst Email
    rw [Op.call, return_of_ok _ hcall]
    exact .quiet ⟨fun _ => rfl, rfl⟩

end

/-! ## What a change tells -/

theorem rowOf_change (UID u : Long) {f : Row → Row} (hf : ∀ r, (f r).UID = r.UID) :
    rowOf (change UID f rows) u =
      (rowOf rows u).map fun r => if r.UID = UID then f r else r := by
  rw [rowOf, change, List.find?_map]
  congr 2
  funext r
  show decide ((if r.UID = UID then f r else r).UID = u) = _
  split_ifs
  · rw [hf]
  · rfl

theorem map_UID_change (UID : Long) {f : Row → Row} (hf : ∀ r, (f r).UID = r.UID) :
    (change UID f rows).map Row.UID = rows.map Row.UID := by
  rw [change, List.map_map]
  refine List.map_congr_left fun r _ => ?_
  show (if r.UID = UID then f r else r).UID = r.UID
  split_ifs
  · exact hf r
  · rfl

theorem length_change (UID : Long) (f : Row → Row) : (change UID f rows).length = rows.length :=
  List.length_map _

theorem UID_of_rowOf {u : Long} {r : Row} (h : rowOf rows u = some r) : r.UID = u := by
  simpa using List.find?_some h

/-- A change that keeps the hashes and the salts. -/
theorem Known.change (h : Known md5 rows known) (UID : Long) {f : Row → Row}
    (hUID : ∀ r, (f r).UID = r.UID) (hsalt : ∀ r, (f r).PwdSalt = r.PwdSalt)
    (hhash : ∀ r, (f r).PwdMd5 = r.PwdMd5) : Known md5 (Database.change UID f rows) known where
  password u := by
    rw [rowOf_change UID u hUID]
    have hrel := h.password u
    cases hrow : rowOf rows u with
    | none =>
      rw [hrow] at hrel
      exact hrel
    | some r =>
      rw [hrow] at hrel
      cases hk : known u with
      | none =>
        rw [hk] at hrel
        cases hrel
      | some k =>
        rw [hk] at hrel
        cases hrel with
        | some hholds =>
          refine .some ?_
          show Holds md5 (if r.UID = UID then f r else r) k
          split_ifs
          · refine ⟨(hsalt r).trans hholds.salt_eq, ?_, ?_⟩
            · rw [hsalt]
              exact hholds.salt_length
            · rw [hUID, hhash]
              exact hholds.hash_eq
          · exact hholds
  numbered := by
    rw [map_UID_change UID hUID, h.numbered, length_change]

theorem Known.created (h : Known md5 rows known) {next : Long} {b : Fin 16 → UInt8}
    {UName UEmail pwdMd5 pwd2 : Text} (hnext : next = BitVec.ofNat 64 (rows.length + 1))
    (hash : getPwdMd5 md5 next pwdMd5 (getRandSalt b) = some pwd2)
    (new : ∀ r ∈ rows, r.UID ≠ next) :
    Known md5 (rows ++ [⟨next, pwd2, getRandSalt b, UName, UEmail⟩])
      (Function.update known next (some (hexStr2Bytes pwdMd5, getRandSalt b))) where
  password u := by
    rw [rowOf, List.find?_append]
    by_cases hu : u = next
    · subst hu
      have hnone : rows.find? (fun r => r.UID = u) = none := by
        rw [List.find?_eq_none]
        intro r hr hUID
        exact new r hr (by simpa using hUID)
      rw [Function.update_self, hnone]
      simp only [Option.none_or, List.find?_cons, decide_true]
      exact .some ⟨rfl, getRandSalt_length b, hash⟩
    · have hlast : List.find? (fun r : Row => r.UID = u)
          [⟨next, pwd2, getRandSalt b, UName, UEmail⟩] = none := by
        simp [Ne.symm hu]
      rw [Function.update_of_ne hu, hlast, Option.or_none]
      exact h.password u
  numbered := by
    rw [List.map_append, h.numbered, List.length_append, List.length_singleton, List.range_succ,
      List.map_append, List.map_singleton, List.map_singleton, hnext]

theorem Known.updated (h : Known md5 rows known) {UID : Long} {b : Fin 16 → UInt8}
    {NewPwdMd5 pwd2 : Text} (hash : getPwdMd5 md5 UID NewPwdMd5 (getRandSalt b) = some pwd2)
    (found : (rowOf rows UID).isSome) :
    Known md5
      (Database.change UID (fun r => { r with PwdMd5 := pwd2, PwdSalt := getRandSalt b }) rows)
      (Function.update known UID (some (hexStr2Bytes NewPwdMd5, getRandSalt b))) where
  password u := by
    rw [rowOf_change UID u (f := fun r => { r with PwdMd5 := pwd2, PwdSalt := getRandSalt b })
      fun _ => rfl]
    by_cases hu : u = UID
    · subst hu
      obtain ⟨r, hr⟩ := Option.isSome_iff_exists.mp found
      have hUID := UID_of_rowOf hr
      rw [Function.update_self, hr, Option.map_some, if_pos hUID]
      refine .some ⟨rfl, getRandSalt_length b, ?_⟩
      show hashOf md5 r.UID _ _ = _
      rw [hUID]
      exact hash
    · rw [Function.update_of_ne hu]
      have hrel := h.password u
      cases hrow : rowOf rows u with
      | none =>
        rw [hrow] at hrel
        exact hrel
      | some r =>
        rw [hrow] at hrel
        rw [Option.map_some, if_neg (UID_of_rowOf hrow ▸ hu)]
        exact hrel
  numbered := by
    rw [map_UID_change UID (f := fun r => { r with PwdMd5 := pwd2, PwdSalt := getRandSalt b })
      fun _ => rfl, h.numbered, length_change]

/-- A change tells what it has changed. -/
theorem Changes.tells (hknown : Known md5 rows known) (hlen : rows.length + 1 < 2 ^ 63)
    (h : Changes md5 (nextResult (query sch rows .getnextUID)) rows op r rows') :
    Known md5 rows' (note known (op, .ok r)) ∧
      rows'.map Row.UID = rows.map Row.UID ++ (created (op, .ok r)).toList ∧
      rows'.length ≤ rows.length + 1 := by
  have hnext := hknown.nextUID_eq sch (by omega)
  have hkeep : ∀ {UID : Long} {f : Row → Row}, (∀ r, (f r).UID = r.UID) →
      (change UID f rows).map Row.UID = rows.map Row.UID ++ [] ∧
        (change UID f rows).length ≤ rows.length + 1 := by
    intro UID f hf
    rw [map_UID_change UID hf, List.append_nil, length_change]
    exact ⟨rfl, Nat.le_succ _⟩
  cases h with
  | @createAccount b UName UEmail pwdMd5 pwd2 hash new =>
    have hne : nextResult (query sch rows .getnextUID) ≠ -1 := hnext ▸ ofNat_ne_error hlen
    have hcreated : Database.created (.createAccount b UName UEmail pwdMd5,
        .ok (.uid (nextResult (query sch rows .getnextUID)))) =
          some (nextResult (query sch rows .getnextUID)) := if_neg hne
    have hnote : note known (.createAccount b UName UEmail pwdMd5,
        .ok (.uid (nextResult (query sch rows .getnextUID)))) =
          Function.update known (nextResult (query sch rows .getnextUID))
            (some (hexStr2Bytes pwdMd5, getRandSalt b)) := if_neg hne
    rw [hcreated, hnote]
    exact ⟨hknown.created hnext hash new, List.map_append, by simp⟩
  | updatePwd hash found => exact ⟨hknown.updated hash found, hkeep fun _ => rfl⟩
  | updateUName =>
    exact ⟨hknown.change _ (fun _ => rfl) (fun _ => rfl) fun _ => rfl, hkeep fun _ => rfl⟩
  | updateUEmail =>
    exact ⟨hknown.change _ (fun _ => rfl) (fun _ => rfl) fun _ => rfl, hkeep fun _ => rfl⟩

/-! ## One process -/

section

variable {δ : Type} {drv : Driver δ} {m : AccountMgr δ} {db : δ}

/-- A call with a closed statement tells nothing new. -/
theorem call_closed_quiet (drv : Driver δ) (hconn : m.conn = .connected db .closed) (op : Op) :
    (∃ r, op.call drv md5 m = .ok r m.misuse ∧ Quiet op (.ok r)) ∨
      ∃ e, op.call drv md5 m = .error e m.misuse := by
  cases op with
  | createAccount b UName UEmail pwdMd5 =>
    have hcall := createAccount_closed drv md5 hconn b UName UEmail pwdMd5
    cases hpwd : getPwdMd5 md5 (-1) pwdMd5 (getRandSalt b) with
    | none =>
      rw [hpwd] at hcall
      exact Or.inr ⟨_, bind_of_error hcall⟩
    | some pwd2 =>
      rw [hpwd] at hcall
      exact Or.inl ⟨_, return_of_ok _ hcall, fun _ => rfl, rfl⟩
  | updatePwd b UID OldPwdMd5 NewPwdMd5 =>
    exact Or.inl ⟨_, return_of_ok _ (updatePwd_closed drv md5 hconn b UID OldPwdMd5 NewPwdMd5),
      fun _ => rfl, rfl⟩
  | _ =>
    rcases call_closed drv hconn _ with ⟨r, hcall⟩ | ⟨e, hcall⟩
    · exact Or.inl ⟨r, hcall, fun _ => rfl, rfl⟩
    · exact Or.inr ⟨e, hcall⟩

/-- So do calls with a closed statement. -/
theorem calls_closed_quiet (md5 : MD5) (drv : Driver δ) (hconn : m.conn = .connected db .closed)
    (known : Long → Option Secret) (ops : List Op) :
    (calls drv md5 m ops).1.conn = m.conn ∧
      (ops.zip (calls drv md5 m ops).2).foldl note known = known ∧
      (ops.zip (calls drv md5 m ops).2).filterMap created = [] := by
  induction ops generalizing m with
  | nil => exact ⟨rfl, rfl, rfl⟩
  | cons op ops ih =>
    obtain ⟨hend, hnote, hcreated⟩ := ih (m := m.misuse) hconn
    rcases call_closed_quiet drv hconn op with ⟨r, hcall, hn, hc⟩ | ⟨e, hcall⟩
    · rw [calls_of_ok hcall, List.zip_cons_cons, List.foldl_cons, hn, List.filterMap_cons_none hc]
      exact ⟨hend, hnote, hcreated⟩
    · obtain ⟨hn, hc⟩ := quiet_error op e
      rw [calls_of_error hcall, List.zip_cons_cons, List.foldl_cons, hn,
        List.filterMap_cons_none hc]
      exact ⟨hend, hnote, hcreated⟩

end

/-- What a log tells, and what the table holds. -/
structure Logged (md5 : MD5) (rows : List Row) (known : Long → Option Secret) (log : List Entry)
    (rows' : List Row) : Prop where
  known : Known md5 rows' (log.foldl note known)
  UIDs : rows'.map Row.UID = rows.map Row.UID ++ log.filterMap created

theorem Logged.nil (h : Known md5 rows known) : Logged md5 rows known [] rows :=
  ⟨h, (List.append_nil _).symm⟩

/-- A call that tells nothing new, in front of others. -/
theorem Logged.cons_quiet {log : List Entry} {x : Except DbExc Result}
    (h : Logged md5 rows known log rows') (hx : Quiet op x) :
    Logged md5 rows known ((op, x) :: log) rows' where
  known := by
    rw [List.foldl_cons, hx.1]
    exact h.known
  UIDs := by
    rw [List.filterMap_cons_none hx.2]
    exact h.UIDs

/-- The calls of one process.  By induction on them: as long as the statement is not closed, the
table holds what the observer knows. -/
theorem calls_logged {drv : Driver (List Row)} {m : AccountMgr (List Row)}
    (hdrv : Executes sch m.t drv) (md5 : MD5) {st : StStatus} (hconn : m.conn = .connected rows st)
    (hst : st ≠ .closed) (hknown : Known md5 rows known)
    (hlen : rows.length + 1 < 2 ^ 63) {ops : List Op} (hops : ∀ op ∈ ops, Unquoted op) :
    Logged md5 rows known (ops.zip (calls drv md5 m ops).2)
        (calls drv md5 m ops).1.users ∧
      (calls drv md5 m ops).1.users.length ≤ rows.length + 1 := by
  have hopened : StStatus.opened ≠ .closed := by decide
  induction ops generalizing m st with
  | nil =>
    rw [calls, users_connected hconn]
    exact ⟨Logged.nil hknown, Nat.le_succ _⟩
  | cons op ops ih =>
    rcases List.forall_mem_cons.mp hops with ⟨hop, hops⟩
    obtain ⟨hrest, hle⟩ := ih (m := m.opened rows) hdrv rfl hopened hops
    have hacts := call_acts hdrv md5 hconn hst hop
    generalize hcall : op.call drv md5 m = x at hacts
    cases hacts with
    | quiet hquiet =>
      rw [calls_of_ok hcall, List.zip_cons_cons]
      exact ⟨hrest.cons_quiet hquiet, hle⟩
    | throws =>
      rw [calls_of_error hcall, List.zip_cons_cons]
      exact ⟨hrest.cons_quiet (quiet_error op _), hle⟩
    | @changes r rows' hchanges =>
      obtain ⟨hknown', hUIDs, hle'⟩ := hchanges.tells hknown hlen
      obtain ⟨hend, hnote, hcreated⟩ := calls_closed_quiet md5 (m := m.closed rows')
        drv rfl (note known (op, .ok r)) ops
      rw [calls_of_ok hcall, List.zip_cons_cons, users_connected hend]
      refine ⟨⟨?_, ?_⟩, hle'⟩
      · rw [List.foldl_cons, hnote]
        exact hknown'
      · rw [hUIDs, List.filterMap_cons, hcreated]
        cases created (op, .ok r) <;> rfl

/-! ## Whole histories -/

theorem Logged.trans {rows₁ : List Row} {log log' : List Entry}
    (h : Logged md5 rows known log rows₁)
    (h' : Logged md5 rows₁ (log.foldl note known) log' rows') :
    Logged md5 rows known (log ++ log') rows' where
  known := by
    rw [List.foldl_append]
    exact h'.known
  UIDs := by rw [List.filterMap_append, h'.UIDs, h.UIDs, List.append_assoc]

theorem history_logged {drv : Driver (List Row)} (hdrv : Executes sch t drv) (md5 : MD5)
    {hist : List (List Op)} (hknown : Known md5 rows known)
    (hlen : rows.length + hist.length < 2 ^ 63) (hops : ∀ ops ∈ hist, ∀ op ∈ ops, Unquoted op) :
    Logged md5 rows known (history drv t md5 rows hist).2 (history drv t md5 rows hist).1 ∧
      (history drv t md5 rows hist).1.length ≤ rows.length + hist.length := by
  induction hist generalizing rows known with
  | nil => exact ⟨Logged.nil hknown, Nat.le_refl _⟩
  | cons ops hist ih =>
    rcases List.forall_mem_cons.mp hops with ⟨hfst, hops⟩
    rw [List.length_cons] at hlen
    have hnull : StStatus.null ≠ .closed := by decide
    have hprocess : Logged md5 rows known
          (ops.zip (calls drv md5 (initialized t rows) ops).2)
          (calls drv md5 (initialized t rows) ops).1.users ∧
        (calls drv md5 (initialized t rows) ops).1.users.length ≤
          rows.length + 1 :=
      calls_logged (m := initialized t rows) hdrv md5 rfl hnull hknown (by omega) hfst
    obtain ⟨hlog, hle⟩ := hprocess
    obtain ⟨hrest, hle'⟩ := ih hlog.known (by omega) hops
    rw [List.length_cons]
    refine ⟨hlog.trans hrest, ?_⟩
    show (history drv t md5 _ hist).1.length ≤ _
    omega

/-- A history of an empty database. -/
theorem history_empty {drv : Driver (List Row)} (hdrv : Executes sch t drv) (md5 : MD5)
    {hist : List (List Op)} (hops : ∀ ops ∈ hist, ∀ op ∈ ops, Unquoted op)
    (hlen : hist.length < 2 ^ 63) :
    Logged md5 [] (fun _ => none) (history drv t md5 [] hist).2 (history drv t md5 [] hist).1 ∧
      (history drv t md5 [] hist).1.length ≤ hist.length := by
  have hnone : Known md5 [] fun _ => none := ⟨fun _ => .none, rfl⟩
  have h := history_logged hdrv md5 hnone (by rwa [List.length_nil, Nat.zero_add]) hops
  rwa [List.length_nil, Nat.zero_add] at h

/-- The answer to a password, if `stored` is the right one.  There is none when it cannot be
hashed. -/
def verdict (md5 : MD5) (UID : Long) (stored : Option Secret) (pwdMD5 : Text) : Option Int :=
  match stored with
  | none => some (-1)
  | some (a, salt) => (getPwdMd5 md5 UID pwdMD5 salt).map fun pwd2 =>
      if hashOf md5 UID a salt = some pwd2 then 0 else -2

/-- From an empty database on, and whatever the processes have called and got: a new process
answers to a password by the one that the log says was the last one set for the UID, and by
the salt that was drawn with it; and it tells a UID that was never given out. -/
theorem login_iff_logged {sch : Schema} {t : DBtype} {drv : Driver (List Row)}
    (hdrv : Executes sch t drv) (md5 : MD5) {hist : List (List Op)}
    (hops : ∀ ops ∈ hist, ∀ op ∈ ops, Unquoted op) (hlen : hist.length < 2 ^ 63) (UID : Long)
    (pwdMD5 : Text) :
    AuthPassword drv md5 UID pwdMD5
        (initialized t (history drv t md5 [] hist).1) =
      answer ((initialized t (history drv t md5 [] hist).1).opened (history drv t md5 [] hist).1)
        (verdict md5 UID (passwords (history drv t md5 [] hist).2 UID) pwdMD5) := by
  have hnull : StStatus.null ≠ .closed := by decide
  have hcall := call_AuthPassword_row (m := initialized t (history drv t md5 [] hist).1) hdrv md5
    rfl hnull UID pwdMD5
  refine hcall.trans (congrArg _ ?_)
  have hrel := (history_empty hdrv md5 hops hlen).1.known.password UID
  show _ = verdict md5 UID ((history drv t md5 [] hist).2.foldl note (fun _ => none) UID) pwdMD5
  generalize hrow : rowOf (history drv t md5 [] hist).1 UID = row at hrel
  generalize (history drv t md5 [] hist).2.foldl note (fun _ => none) UID = stored at hrel
  cases hrel with
  | none => rfl
  | @some r k hholds =>
    have hhash := hholds.hash_eq
    rw [UID_of_rowOf hrow] at hhash
    show (getPwdMd5 md5 UID pwdMD5 r.PwdSalt).map _ =
      (getPwdMd5 md5 UID pwdMD5 k.2).map fun pwd2 =>
        if hashOf md5 UID k.1 k.2 = some pwd2 then 0 else -2
    rw [hholds.salt_eq, hhash]
    simp only [Option.some.injEq]

/-- From an empty database on, the UIDs that were given out are 1, 2, 3 and so on, none of them
twice. -/
theorem created_numbered {sch : Schema} {t : DBtype} {drv : Driver (List Row)}
    (hdrv : Executes sch t drv) (md5 : MD5) {hist : List (List Op)}
    (hops : ∀ ops ∈ hist, ∀ op ∈ ops, Unquoted op) (hlen : hist.length < 2 ^ 63) :
    ∃ n ≤ hist.length, (history drv t md5 [] hist).2.filterMap created =
      (List.range n).map fun i => BitVec.ofNat 64 (i + 1) := by
  obtain ⟨hlog, hle⟩ := history_empty hdrv md5 hops hlen
  have hUIDs := hlog.UIDs
  rw [List.map_nil, List.nil_append] at hUIDs
  exact ⟨_, hle, by rw [← hUIDs, hlog.known.numbered]⟩

/-- Two processes: an account, and another password for it. -/
def twoProcesses : List (List Op) :=
  [[.createAccount (fun _ => 0) [110] [101] [48, 49], .AuthPassword 1 [48, 49]],
    [.updatePwd (fun _ => 1) 1 [48, 49] [48, 50]]]

theorem twoProcesses_unquoted : ∀ ops ∈ twoProcesses, ∀ op ∈ ops, Unquoted op := by
  intro ops hops op hop u hu c hc
  simp only [twoProcesses, List.mem_cons, List.not_mem_nil, or_false] at hops
  rcases hops with rfl | rfl
  · simp only [List.mem_cons, List.not_mem_nil, or_false] at hop
    rcases hop with rfl | rfl
    · simp only [Op.strings, List.mem_cons, List.not_mem_nil, or_false] at hu
      rcases hu with rfl | rfl <;> simp_all [quote, backslash]
    · simp [Op.strings] at hu
  · rw [List.mem_singleton.mp hop] at hu
    simp [Op.strings] at hu

/-- What they leave, and their log. -/
def twoHistory : List Row × List Entry :=
  history (tableDriver plainSchema .sqlite) .sqlite unitsMD5 [] twoProcesses

theorem login_iff_logged_two :
    AuthPassword (tableDriver plainSchema .sqlite) unitsMD5 1 [48, 50]
        (initialized .sqlite twoHistory.1) =
      answer ((initialized .sqlite twoHistory.1).opened twoHistory.1)
        (verdict unitsMD5 1 (passwords twoHistory.2 1) [48, 50]) :=
  login_iff_logged (tableDriver_executes plainSchema .sqlite) unitsMD5 twoProcesses_unquoted
    (by decide) 1 _

theorem created_numbered_two :
    ∃ n ≤ 2, twoHistory.2.filterMap created =
      (List.range n).map fun i => BitVec.ofNat 64 (i + 1) :=
  created_numbered (tableDriver_executes plainSchema .sqlite) unitsMD5 twoProcesses_unquoted
    (by decide)

end OCServer.Database
