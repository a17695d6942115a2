import OCServer.GameProto.Model

/-!
# The services

The registry of `JCommChannel` (`Core/src/jImpl.cpp`) and what
`EvDispatch::proc_msg` does with a message.

A `jobject` is the number of the object that `NewObject` returned, and a
null pointer is `none`; `NewObject` never returns the same object twice.
What the virtual machine says about a class is a `ClassAnswer`.

`proc_msg` is a list of operations: the accesses to the message, its
release, and the call of `execTransact`.
-/

namespace OCServer

open GameProto

/-- What the virtual machine says about a class: there is no such class, its
constructor fails, or there is a new object. -/
inductive ClassAnswer
  | missing
  | failed
  | object
  deriving DecidableEq, Repr

/-- The services of `JCommChannel`: those that the configuration names, and
those that are registered.  `objects` counts the objects. -/
structure JCommChannel where
  avaSrvs : List (List UInt8)
  regSrvs : List (List UInt8 × Option Nat)
  objects : Nat
  deriving DecidableEq, Repr

/-- What is done with the message of that number. -/
inductive MsgOp
  | alloc (m : Nat)
  | access (m : Nat)
  | release (m : Nat)
  | execTransact (srv : Nat) (tosrv : List UInt8)
  deriving DecidableEq, Repr

namespace JCommChannel

/-- `JCommChannel`, with the list that `loadJavaSrvConf` has read. -/
def start (avaSrvs : List (List UInt8)) : JCommChannel where
  avaSrvs := avaSrvs
  regSrvs := []
  objects := 0

/-- `reg_srvs.insert`, which does not replace an entry. -/
def insert (jc : JCommChannel) (cmdName : List UInt8) (app : Option Nat) : JCommChannel :=
  match jc.regSrvs.lookup cmdName with
  | some _ => jc
  | none => { jc with regSrvs := jc.regSrvs ++ [(cmdName, app)] }

/-- `loadJavaSrv`. -/
def loadJavaSrv (jc : JCommChannel) (classpath : List UInt8) : ClassAnswer → Bool × JCommChannel
  | .missing => (false, jc)
  | .failed => (false, jc.insert classpath none)
  | .object => (false, { jc with objects := jc.objects + 1 }.insert classpath (some jc.objects))

/-- The loop of `load_allAvaJavaSrvs`. -/
def loadFrom (jc : JCommChannel) (jvm : List UInt8 → ClassAnswer) :
    List (List UInt8) → Bool × JCommChannel
  | [] => (true, jc)
  | a :: rest =>
    let (res, jc) := jc.loadJavaSrv a (jvm a)
    if res then jc.loadFrom jvm rest else (false, jc)

/-- `load_allAvaJavaSrvs`. -/
def load_allAvaJavaSrvs (jc : JCommChannel) (jvm : List UInt8 → ClassAnswer) :
    Bool × JCommChannel :=
  jc.loadFrom jvm jc.avaSrvs

/-- `getService`. -/
def getService (jc : JCommChannel) (cmdName : List UInt8) : Option Nat :=
  match jc.regSrvs.lookup cmdName with
  | none => none
  | some app => app

/-- `EvDispatch::proc_msg` of the message `msg`, which has the number `m`. -/
def procMsg (jc : JCommChannel) (m : Nat) (msg : FromMsg) : List MsgOp :=
  .access m :: match jc.getService msg.serviceCmd with
    | none => [.release m]
    | some srv => [.access m, .execTransact srv msg.netBuffer, .release m]

end JCommChannel

/-- The calls of `execTransact` among some operations. -/
def transacts (ops : List MsgOp) : List (Nat × List UInt8) :=
  ops.filterMap fun
    | .execTransact srv tosrv => some (srv, tosrv)
    | _ => none

namespace JCommChannel

variable {jc : JCommChannel}

theorem transacts_procMsg (jc : JCommChannel) (m : Nat) (msg : FromMsg) :
    transacts (jc.procMsg m msg) =
      (jc.getService msg.serviceCmd).toList.map fun srv => (srv, msg.netBuffer) := by
  unfold procMsg
  cases jc.getService msg.serviceCmd with
  | none => rfl
  | some srv => rfl

/-! ## Registries -/

/-- The registries that calls of `loadJavaSrv` make. -/
inductive Loaded : JCommChannel → Prop
  | start (avaSrvs : List (List UInt8)) : Loaded (start avaSrvs)
  | load {jc : JCommChannel} (classpath : List UInt8) (answer : ClassAnswer) :
      Loaded jc → Loaded (jc.loadJavaSrv classpath answer).2

/-- No two names have one object, and an object has been counted. -/
structure Distinct (jc : JCommChannel) : Prop where
  lt : ∀ name srv, jc.getService name = some srv → srv < jc.objects
  inj : ∀ name name' srv, jc.getService name = some srv → jc.getService name' = some srv →
    name = name'

theorem getService_insert {jc : JCommChannel} {cmdName : List UInt8} {app : Option Nat}
    {name : List UInt8} {srv : Nat} (h : (jc.insert cmdName app).getService name = some srv) :
    jc.getService name = some srv ∨ name = cmdName ∧ app = some srv := by
  unfold insert at h
  cases hfind : jc.regSrvs.lookup cmdName with
  | some found =>
    rw [hfind] at h
    exact Or.inl h
  | none =>
    rw [hfind] at h
    unfold getService at h ⊢
    simp only [List.lookup_append] at h
    cases hname : jc.regSrvs.lookup name with
    | some found =>
      rw [hname] at h
      exact Or.inl h
    | none =>
      rw [hname] at h
      simp only [List.lookup_cons, List.lookup_nil, Option.none_or] at h
      by_cases heq : name = cmdName
      · subst heq
        simp only [beq_self_eq_true] at h
        exact Or.inr ⟨rfl, h⟩
      · rw [beq_eq_false_iff_ne.mpr heq] at h
        cases h

theorem Loaded.distinct (h : Loaded jc) : Distinct jc := by
  induction h with
  | start avaSrvs => exact ⟨nofun, nofun⟩
  | @load jc classpath answer _ ih =>
    cases answer with
    | missing => exact ih
    | failed =>
      have hold : ∀ name srv, (jc.insert classpath none).getService name = some srv →
          jc.getService name = some srv := by
        intro name srv hsrv
        rcases getService_insert hsrv with hsrv | ⟨_, happ⟩
        · exact hsrv
        · cases happ
      have hobjects : (jc.insert classpath none).objects = jc.objects := by
        unfold insert
        split <;> rfl
      constructor
      · intro name srv hsrv
        exact hobjects ▸ ih.lt name srv (hold name srv hsrv)
      · intro name name' srv hsrv hsrv'
        exact ih.inj name name' srv (hold name srv hsrv) (hold name' srv hsrv')
    | object =>
      have hold : ∀ name srv,
          ({ jc with objects := jc.objects + 1 }.insert classpath (some jc.objects)).getService
            name = some srv →
          jc.getService name = some srv ∨ name = classpath ∧ srv = jc.objects := by
        intro name srv hsrv
        rcases getService_insert hsrv with hsrv | ⟨hname, happ⟩
        · exact Or.inl hsrv
        · exact Or.inr ⟨hname, (Option.some.inj happ).symm⟩
      have hobjects :
          ({ jc with objects := jc.objects + 1 }.insert classpath (some jc.objects)).objects =
            jc.objects + 1 := by
        unfold insert
        split <;> rfl
      constructor
      · intro name srv hsrv
        show srv < (JCommChannel.insert _ _ _).objects
        rw [hobjects]
        rcases hold name srv hsrv with hsrv | ⟨_, rfl⟩
        · exact Nat.lt_succ_of_lt (ih.lt name srv hsrv)
        · exact Nat.lt_succ_self _
      · intro name name' srv hsrv hsrv'
        rcases hold name srv hsrv with hsrv | ⟨rfl, rfl⟩
        · rcases hold name' srv hsrv' with hsrv' | ⟨_, rfl⟩
          · exact ih.inj name name' srv hsrv hsrv'
          · exact absurd (ih.lt name _ hsrv) (Nat.lt_irrefl _)
        · rcases hold name' _ hsrv' with hsrv' | ⟨rfl, _⟩
          · exact absurd (ih.lt name' _ hsrv') (Nat.lt_irrefl _)
          · rfl

/-! ## Loading the services -/

/-- `loadJavaSrv` answers `false` on every path. -/
theorem loadJavaSrv_fst (jc : JCommChannel) (classpath : List UInt8) (answer : ClassAnswer) :
    (jc.loadJavaSrv classpath answer).1 = false := by
  cases answer with
  | missing => rfl
  | failed => rfl
  | object => rfl

/-- So the loop loads one service, and answers `false`. -/
theorem loadFrom_cons (jc : JCommChannel) (jvm : List UInt8 → ClassAnswer) (a : List UInt8)
    (rest : List (List UInt8)) :
    jc.loadFrom jvm (a :: rest) = (false, (jc.loadJavaSrv a (jvm a)).2) := by
  rw [loadFrom]
  simp only [loadJavaSrv_fst, Bool.false_eq_true, if_false]

theorem load_allAvaJavaSrvs_eq (a : List UInt8) (rest : List (List UInt8))
    (jvm : List UInt8 → ClassAnswer) :
    (start (a :: rest)).load_allAvaJavaSrvs jvm =
      (false, ((start (a :: rest)).loadJavaSrv a (jvm a)).2) :=
  loadFrom_cons _ jvm a rest

/-- No service behind the first one is registered. -/
theorem getService_load_allAvaJavaSrvs {a name : List UInt8} {rest : List (List UInt8)}
    {jvm : List UInt8 → ClassAnswer}
    (h : ((start (a :: rest)).load_allAvaJavaSrvs jvm).2.getService name ≠ none) :
    name = a := by
  rw [load_allAvaJavaSrvs_eq] at h
  obtain ⟨srv, hsrv⟩ := Option.ne_none_iff_exists'.mp h
  have hempty : ∀ srv', (start (a :: rest)).getService name ≠ some srv' := nofun
  cases hanswer : jvm a with
  | missing =>
    rw [hanswer] at hsrv
    exact absurd hsrv (hempty srv)
  | failed =>
    rw [hanswer] at hsrv
    rcases getService_insert hsrv with hold | ⟨hname, -⟩
    · exact absurd hold (hempty srv)
    · exact hname
  | object =>
    rw [hanswer] at hsrv
    rcases getService_insert hsrv with hold | ⟨hname, -⟩
    · exact absurd hold (hempty srv)
    · exact hname

/-- If the classes of all configured services exist and can be constructed, the
call answers `true` and every service is registered; if a class is missing, it
answers `false`. -/
structure RegistersAll (jc : JCommChannel) (jvm : List UInt8 → ClassAnswer) : Prop where
  result : (∀ name ∈ jc.avaSrvs, jvm name = .object) → (jc.load_allAvaJavaSrvs jvm).1 = true
  registered : (∀ name ∈ jc.avaSrvs, jvm name = .object) →
    ∀ name ∈ jc.avaSrvs, (jc.load_allAvaJavaSrvs jvm).2.getService name ≠ none
  missing : (∃ name ∈ jc.avaSrvs, jvm name = .missing) → (jc.load_allAvaJavaSrvs jvm).1 = false

theorem load_allAvaJavaSrvs_nil (h : jc.avaSrvs = []) (jvm : List UInt8 → ClassAnswer) :
    jc.load_allAvaJavaSrvs jvm = (true, jc) := by
  rw [load_allAvaJavaSrvs, h, loadFrom]

/-- Of a list with a service in it, whatever the virtual machine says. -/
theorem load_allAvaJavaSrvs_fst (h : jc.avaSrvs ≠ []) (jvm : List UInt8 → ClassAnswer) :
    (jc.load_allAvaJavaSrvs jvm).1 = false := by
  obtain ⟨a, rest, hava⟩ := List.exists_cons_of_ne_nil h
  rw [load_allAvaJavaSrvs, hava, loadFrom_cons]

/-- Every configured service is registered, and the result says so, if and only
if no service is configured or one of them cannot be made. -/
theorem registersAll_iff (jc : JCommChannel) (jvm : List UInt8 → ClassAnswer) :
    RegistersAll jc jvm ↔ jc.avaSrvs = [] ∨ ∃ name ∈ jc.avaSrvs, jvm name ≠ .object := by
  constructor
  · intro h
    by_contra hnot
    push Not at hnot
    have hfalse := load_allAvaJavaSrvs_fst hnot.1 jvm
    have htrue := h.result hnot.2
    rw [hfalse] at htrue
    cases htrue
  · rintro (hnil | ⟨name, hmem, hanswer⟩)
    · refine ⟨fun _ => by rw [load_allAvaJavaSrvs_nil hnil], fun _ name hmem => ?_, ?_⟩
      · rw [hnil] at hmem
        cases hmem
      · rintro ⟨name, hmem, -⟩
        rw [hnil] at hmem
        cases hmem
    · exact ⟨fun hall => absurd (hall name hmem) hanswer,
        fun hall => absurd (hall name hmem) hanswer,
        fun _ => load_allAvaJavaSrvs_fst (List.ne_nil_of_mem hmem) jvm⟩

/-- Two services that can be made: the call answers `false`. -/
theorem not_always_registersAll : ¬∀ avaSrvs jvm, RegistersAll (start avaSrvs) jvm := by
  intro h
  have hresult := (h [[0x41], [0x42]] fun _ => .object).result fun _ _ => rfl
  revert hresult
  decide

/-! ## Routing -/

/-- A command as clients send it. -/
def command (name method : List UInt8) : List UInt8 := name ++ 0x2F :: method

theorem command_ne (name method : List UInt8) : command name method ≠ name := by
  intro heq
  have hlen := congrArg List.length heq
  simp only [command, List.length_append, List.length_cons] at hlen
  omega

/-- A message for a service goes to the service of that name, once, and to
no other; if there is no such service, it goes nowhere. -/
def Routed (jc : JCommChannel) (name : List UInt8) (msg : FromMsg) : Prop :=
  ∀ m, transacts (jc.procMsg m msg) =
    (jc.getService name).toList.map fun srv => (srv, msg.netBuffer)

/-- For every registry and every message: the message is routed if and only
if neither its service nor its whole command is registered. -/
theorem routed_iff (h : Loaded jc) (name method : List UInt8) (msg : FromMsg) :
    Routed jc name { msg with serviceCmd := command name method } ↔
      jc.getService name = none ∧ jc.getService (command name method) = none := by
  unfold Routed
  simp only [transacts_procMsg]
  constructor
  · intro hrouted
    have hsame := hrouted 0
    cases hcmd : jc.getService (command name method) with
    | none =>
      rw [hcmd] at hsame
      cases hname : jc.getService name with
      | none => exact ⟨rfl, rfl⟩
      | some srv =>
        rw [hname] at hsame
        cases hsame
    | some srv =>
      rw [hcmd] at hsame
      cases hname : jc.getService name with
      | none =>
        rw [hname] at hsame
        cases hsame
      | some srv' =>
        rw [hname] at hsame
        obtain rfl : srv = srv' := congrArg Prod.fst (List.cons.inj hsame).1
        exact absurd (h.distinct.inj _ _ srv hcmd hname) (command_ne name method)
  · rintro ⟨hname, hcmd⟩ _
    rw [hname, hcmd]

/-- `LoginSvc`. -/
def loginSvc : List UInt8 := [0x4C, 0x6F, 0x67, 0x69, 0x6E, 0x53, 0x76, 0x63]

/-- `Login`. -/
def login : List UInt8 := [0x4C, 0x6F, 0x67, 0x69, 0x6E]

/-- A message of the client 0. -/
def newMsg : FromMsg := { client := 0 }

/-- `GameSvc`. -/
def gameSvc : List UInt8 := [0x47, 0x61, 0x6D, 0x65, 0x53, 0x76, 0x63]

/-- Only another service is registered. -/
theorem routed_iff_other :
    Routed ((start [loginSvc, gameSvc]).loadJavaSrv gameSvc .object).2 loginSvc
      { newMsg with serviceCmd := command loginSvc login } :=
  (routed_iff (.load gameSvc .object (.start [loginSvc, gameSvc])) loginSvc login newMsg).mpr
    ⟨by decide, by decide⟩

/-- `LoginSvc/Login` with `LoginSvc` registered goes nowhere. -/
theorem not_always_routed :
    ¬∀ jc name method (msg : FromMsg), Loaded jc →
      Routed jc name { msg with serviceCmd := command name method } := by
  intro hrouted
  have hsame := hrouted _ loginSvc login newMsg
    (.load loginSvc .object (.start [loginSvc])) 0
  revert hsame
  decide

end JCommChannel

end OCServer
