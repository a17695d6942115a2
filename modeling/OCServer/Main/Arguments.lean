import OCServer.Lib.Loop
import OCServer.Util.Hex

/-!
# The option loop of `main`

`argv` is the list of the arguments with the null pointer behind them, and
`argv[0]` of the loop is the argument at the index `argv` of the state.  A handler
gets the arguments that are left and answers how many of them it has used.  None
of them looks at the number that is left.

`consumed` records the indices that the loop has gone over.  `Dangling` arguments
end in an option that misses its parameter, and `safeParse_iff` says that the loop
stays inside `argv` for all the others.
-/

namespace OCServer.Main

open Loop

/-! ## Settings -/

/-- A C string. -/
abbrev Text := List UInt8

/-- A string literal. -/
def chars (s : String) : Text := s.toList.map fun c => UInt8.ofNat c.toNat

/-- What ends the program in the middle of the loop.  The first two are accesses to
memory that is not there. -/
inductive Stop
  | nullPointer
  | outOfBounds
  | outOfRange
  | runtimeError (what : String)
  | exit (code : Int)
  | returned (code : Int)
  deriving DecidableEq, Repr

def Stop.IsFault : Stop → Prop
  | .nullPointer => True
  | .outOfBounds => True
  | _ => False

/-- `FILENAMES`. -/
abbrev FileMap := String → Option Text

/-- `FILENAMES[name]`. -/
def FileMap.get (filenames : FileMap) (name : String) : Text := (filenames name).getD []

/-- `FILENAMES[name] = path`. -/
def FileMap.set (filenames : FileMap) (name : String) (path : Text) : FileMap :=
  fun n => if n = name then some path else filenames n

/-- `update_pathname`.  No character is both separators, so that one is always put
behind the path. -/
def updatePathname (name : String) (path : Text) (filenames : FileMap) : Except Stop FileMap :=
  match path.getLast? with
  | none => .error .outOfRange
  | some ch =>
    let path := if ch ≠ 47 ∨ ch ≠ 92 then path ++ [47] else path
    .ok (filenames.set name path)

/-- `update_datadir`. -/
def updateDatadir (filenames : FileMap) : Except Stop FileMap := do
  let filenames ← updatePathname "librarydir" (filenames.get "basedir" ++ chars "modules") filenames
  let filenames ← updatePathname "logdir" (filenames.get "userdir" ++ chars "logs") filenames
  updatePathname "javadir" (filenames.get "basedir" ++ chars "Java") filenames

/-- The digits that `strtol` takes. -/
def scanDecimal : Text → Nat → Nat
  | [], n => n
  | c :: s, n => if 48 ≤ c ∧ c ≤ 57 then scanDecimal s (n * 10 + (c.toNat - 48)) else n

/-- `strtol( s, nullptr, 10 )`. -/
def strtol (s : Text) : Int :=
  let (negative, s) := Util.scanSign (s.dropWhile Util.isspace)
  let n : Int := scanDecimal s 0
  if negative then max (-n) (-2 ^ 63) else min n (2 ^ 63 - 1)

/-- `atoi`. -/
def atoi (s : Text) : Int := (BitVec.ofInt 32 (strtol s)).toInt

/-- What the options set. -/
structure Settings where
  isDaemon : Bool
  configureFile : Text
  port : Int
  filenames : FileMap
  debugLevel : Int

/-! ## Handlers -/

/-- The string that `argv[i]` points to. -/
def deref (args : List Text) (i : Nat) : Except Stop Text :=
  match args[i]? with
  | some s => .ok s
  | none => if i = args.length then .error .nullPointer else .error .outOfBounds

/-- `arg_handler`.  A handler gets `argc` and the index of `params`. -/
structure ArgHandler where
  flag : Text
  handler : List Text → Int → Nat → Settings → Except Stop (Int × Settings)

/-- A handler that uses `params[0]`. -/
def withParam (flag : Text) (use : Text → Settings → Except Stop Settings) : ArgHandler where
  flag := flag
  handler := fun args _ params s => do
    let param ← deref args params
    let s ← use param s
    pure (1, s)

def daemonArg : ArgHandler :=
  ⟨chars "--daemon", fun _ _ _ s => .ok (0, { s with isDaemon := true })⟩

def configArg : ArgHandler :=
  withParam (chars "--config") fun param s => .ok { s with configureFile := param }

def portArg : ArgHandler :=
  withParam (chars "--port") fun param s => .ok { s with port := atoi param }

def logArg : ArgHandler :=
  withParam (chars "--log") fun param s => do
    let filenames ← updatePathname "logdir" param s.filenames
    pure { s with filenames := filenames }

def userdirArg : ArgHandler :=
  withParam (chars "--userdir") fun param s => do
    let filenames ← updatePathname "userdir" param s.filenames
    let filenames ← updateDatadir filenames
    pure { s with filenames := filenames }

/-- `D_ERROR` is 8. -/
def loglevelArg : ArgHandler :=
  withParam (chars "--loglevel") fun param s =>
    let bitmask := atoi param
    if 0 ≤ bitmask ∧ bitmask ≤ 15 then .ok { s with debugLevel := (bitmask.toNat ||| 8 : Nat) }
    else .error (.runtimeError "--loglevel available values are 0 to 15.\n")

/-- `arg_proc`. -/
def argProc : List ArgHandler := [daemonArg, configArg, portArg, logArg, userdirArg, loglevelArg]

/-! ## The loop -/

/-- The variables of the loop. -/
structure ArgState where
  argc : Int
  argv : Nat
  settings : Settings
  consumed : List Nat

/-- In front of the loop, behind `--argc` and `++argv`. -/
def start (args : List Text) (settings : Settings) : ArgState where
  argc := args.length - 1
  argv := 1
  settings := settings
  consumed := []

/-- `argc -= n` and `argv += n`. -/
def ArgState.consume (st : ArgState) (n : Int) : ArgState where
  argc := st.argc - n
  argv := (st.argv + n).toNat
  settings := st.settings
  consumed := st.consumed ++ List.range' st.argv n.toNat

/-- The option loop, once around.  It is over when `argc` is zero. -/
def step (args : List Text) (st : ArgState) : Except Stop ArgState :=
  if st.argc = 0 then .ok st
  else do
    let arg ← deref args st.argv
    if arg = chars "--help" then throw (.returned 0)
    match argProc.find? (fun arg_handler => arg = arg_handler.flag) with
    | some arg_handler =>
      let st := st.consume 1
      let answer ← arg_handler.handler args st.argc st.argv st.settings
      let args_consumed := answer.1
      if args_consumed < 0 then throw (.exit 1)
      pure ({ st with settings := answer.2 }.consume args_consumed)
    | none => pure (st.consume 1)

/-- The loop ends, `argc` is never negative, no argument is consumed twice, none is
consumed that is not there, and no access is outside of `argv` or to the null pointer. -/
structure SafeParse (args : List Text) (settings : Settings) : Prop where
  ends : ∃ n, match iterate (step args) n (start args settings) with
    | .ok st => st.argc = 0
    | .error _ => True
  argc : ∀ n st, iterate (step args) n (start args settings) = .ok st → 0 ≤ st.argc
  once : ∀ n st, iterate (step args) n (start args settings) = .ok st →
    st.consumed.Nodup ∧ ∀ i ∈ st.consumed, i < args.length
  memory : ∀ n e, iterate (step args) n (start args settings) = .error e → ¬e.IsFault

/-! ## Which arguments are safe -/

/-- The options with a parameter. -/
def TakesParam (o : Text) : Prop :=
  o ∈ [chars "--config", chars "--port", chars "--log", chars "--userdir", chars "--loglevel"]

instance (o : Text) : Decidable (TakesParam o) := by
  unfold TakesParam
  infer_instance

/-- The parameters that no handler throws at. -/
def Accepted (o param : Text) : Prop :=
  if o = chars "--log" ∨ o = chars "--userdir" then param ≠ []
  else if o = chars "--loglevel" then 0 ≤ atoi param ∧ atoi param ≤ 15
  else True

/-- The last argument is an option whose parameter is missing, behind arguments that the
loop goes over one after the other and options with parameters that are accepted. -/
inductive Dangling : List Text → Prop
  | last {o : Text} : TakesParam o → Dangling [o]
  | skip {arg : Text} {args : List Text} : arg ≠ chars "--help" → ¬TakesParam arg →
    Dangling args → Dangling (arg :: args)
  | param {o param : Text} {args : List Text} : TakesParam o → Accepted o param →
    Dangling args → Dangling (o :: param :: args)

/-! ## Handlers -/

section

variable {args pre rest : List Text} {arg : Text}

theorem deref_append : deref (pre ++ arg :: rest) pre.length = .ok arg := by
  simp [deref]

theorem deref_length : deref args args.length = .error .nullPointer := by
  simp [deref]

/-- A path with a character is not refused. -/
theorem updatePathname_ok (name : String) {path : Text} (filenames : FileMap) (h : path ≠ []) :
    updatePathname name path filenames = .ok (filenames.set name (path ++ [47])) := by
  unfold updatePathname
  rw [List.getLast?_eq_some_getLast h]
  have hch : ∀ ch : UInt8, ch ≠ 47 ∨ ch ≠ 92 := by
    intro ch
    by_cases h47 : ch = 47
    · exact Or.inr (by rw [h47]; decide)
    · exact Or.inl h47
  simp only [if_pos (hch _)]

theorem updateDatadir_ok (filenames : FileMap) : ∃ filenames', updateDatadir filenames =
    .ok filenames' := by
  have hne : ∀ (dir : Text) (name : String), chars name ≠ [] → dir ++ chars name ≠ [] :=
    fun dir name hname h => hname (List.append_eq_nil_iff.mp h).2
  unfold updateDatadir
  rw [updatePathname_ok _ _ (hne _ "modules" (by decide)), ok_bind,
    updatePathname_ok _ _ (hne _ "logs" (by decide)), ok_bind,
    updatePathname_ok _ _ (hne _ "Java" (by decide))]
  exact ⟨_, rfl⟩

/-- What a handler does with its parameter: it takes what is accepted, and throws at the
rest. -/
def Uses (o : Text) (use : Text → Settings → Except Stop Settings) : Prop :=
  ∀ param s, (Accepted o param → ∃ s', use param s = .ok s') ∧
    (¬Accepted o param → ∃ e, use param s = .error e ∧ ¬e.IsFault)

theorem uses_all {o : Text} {use : Text → Settings → Except Stop Settings}
    (haccepted : ∀ param, Accepted o param) (hok : ∀ param s, ∃ s', use param s = .ok s') :
    Uses o use := fun param s => ⟨fun _ => hok param s, fun hnot => absurd (haccepted param) hnot⟩

theorem uses_path {o : Text} {use : Text → Settings → Except Stop Settings}
    (haccepted : ∀ param, Accepted o param ↔ param ≠ [])
    (hok : ∀ param s, param ≠ [] → ∃ s', use param s = .ok s')
    (hempty : ∀ s, use [] s = .error .outOfRange) : Uses o use := by
  intro param s
  rw [haccepted]
  refine ⟨hok param s, ?_⟩
  intro hnot
  rw [not_not.mp hnot]
  exact ⟨_, hempty s, id⟩

/-- The handler of an option with a parameter. -/
theorem find_takesParam {o : Text} (h : TakesParam o) :
    ∃ use, argProc.find? (fun arg_handler => o = arg_handler.flag) = some (withParam o use) ∧
      Uses o use := by
  simp only [TakesParam, List.mem_cons, List.not_mem_nil, or_false] at h
  rcases h with rfl | rfl | rfl | rfl | rfl
  · exact ⟨_, rfl, uses_all (fun _ => trivial) fun _ _ => ⟨_, rfl⟩⟩
  · exact ⟨_, rfl, uses_all (fun _ => trivial) fun _ _ => ⟨_, rfl⟩⟩
  · refine ⟨_, rfl, uses_path (fun _ => Iff.rfl) (fun param s hparam => ?_) fun _ => rfl⟩
    rw [updatePathname_ok _ _ hparam]
    exact ⟨_, rfl⟩
  · refine ⟨_, rfl, uses_path (fun _ => Iff.rfl) (fun param s hparam => ?_) fun _ => rfl⟩
    obtain ⟨filenames, hdatadir⟩ :=
      updateDatadir_ok (s.filenames.set "userdir" (param ++ [47]))
    rw [updatePathname_ok _ _ hparam, ok_bind, hdatadir]
    exact ⟨_, rfl⟩
  · refine ⟨_, rfl, fun param s => ⟨fun haccepted => ?_, fun hnot => ?_⟩⟩
    · exact ⟨_, if_pos haccepted⟩
    · exact ⟨_, if_neg hnot, id⟩

/-- An option that has none is `--daemon`, or nothing at all. -/
theorem find_not_takesParam (h : ¬TakesParam arg) :
    argProc.find? (fun arg_handler => arg = arg_handler.flag) = some daemonArg ∨
      argProc.find? (fun arg_handler => arg = arg_handler.flag) = none := by
  by_cases hdaemon : arg = chars "--daemon"
  · rw [hdaemon]
    exact Or.inl rfl
  · refine Or.inr (List.find?_eq_none.mpr ?_)
    intro arg_handler hmem heq
    have hflag : arg ∈ argProc.map ArgHandler.flag :=
      List.mem_map.mpr ⟨arg_handler, hmem, (of_decide_eq_true heq).symm⟩
    rcases List.mem_cons.mp hflag with heq | htakes
    · exact hdaemon heq
    · exact h htakes

/-! ## One step -/

variable {st : ArgState}

/-- The arguments that are left, and the ones in front of them. -/
structure Fits (args : List Text) (st : ArgState) (rest : List Text) : Prop where
  split : ∃ pre, args = pre ++ rest ∧ st.argv = pre.length
  pos : 1 ≤ st.argv
  argc : st.argc = rest.length
  consumed : st.consumed = List.range' 1 (st.argv - 1)

theorem Fits.consume (used : List Text) (h : Fits args st (used ++ rest)) :
    Fits args (st.consume used.length) rest := by
  obtain ⟨⟨pre, hsplit, hargv⟩, hpos, hargc, hconsumed⟩ := h
  have hlen : (st.consume used.length).argv = st.argv + used.length := by
    show ((st.argv : Int) + used.length).toNat = _
    omega
  refine ⟨⟨pre ++ used, ?_, ?_⟩, ?_, ?_, ?_⟩
  · rw [hsplit, List.append_assoc]
  · rw [hlen, hargv, List.length_append]
  · rw [hlen]
    omega
  · show st.argc - used.length = _
    rw [hargc, List.length_append]
    omega
  · rw [hlen]
    show st.consumed ++ List.range' st.argv (used.length : Int).toNat = _
    rw [hconsumed, Int.toNat_natCast]
    have hjoin : st.argv = 1 + (st.argv - 1) := by omega
    have hsum : st.argv + used.length - 1 = (st.argv - 1) + used.length := by omega
    rw [hsum, ← List.range'_append_1, ← hjoin]

theorem Fits.deref (h : Fits args st (arg :: rest)) : Main.deref args st.argv = .ok arg := by
  obtain ⟨pre, hsplit, hargv⟩ := h.split
  rw [hsplit, hargv]
  exact deref_append

theorem Fits.argc_ne (h : Fits args st (arg :: rest)) : st.argc ≠ 0 := by
  rw [h.argc, List.length_cons]
  omega

/-- The state does not say what the settings are. -/
theorem Fits.with_settings (h : Fits args st rest) (settings : Settings) :
    Fits args { st with settings := settings } rest := ⟨h.split, h.pos, h.argc, h.consumed⟩

theorem step_nil (h : Fits args st []) : step args st = .ok st := by
  have hargc : st.argc = 0 := h.argc
  unfold step
  rw [if_pos hargc]

theorem step_help (h : Fits args st (chars "--help" :: rest)) :
    step args st = .error (.returned 0) := by
  unfold step
  rw [if_neg h.argc_ne, h.deref]
  rfl

/-- `--daemon`, and whatever is skipped. -/
theorem step_skip (h : Fits args st (arg :: rest)) (hhelp : arg ≠ chars "--help")
    (harg : ¬TakesParam arg) : ∃ st', step args st = .ok st' ∧ Fits args st' rest := by
  have hone : Fits args (st.consume 1) rest := h.consume [arg]
  unfold step
  rw [if_neg h.argc_ne, h.deref, ok_bind, if_neg hhelp]
  rcases find_not_takesParam harg with hfind | hfind
  · rw [hfind]
    exact ⟨_, rfl, (hone.with_settings _).consume []⟩
  · rw [hfind]
    exact ⟨_, rfl, hone⟩

/-- An option with a parameter, up to the handler. -/
theorem step_takesParam {o : Text} (h : Fits args st (o :: rest)) (ho : TakesParam o) :
    ∃ use, Uses o use ∧ step args st = (do
      let param ← deref args (st.consume 1).argv
      let settings ← use param st.settings
      pure ({ st.consume 1 with settings := settings }.consume 1)) := by
  obtain ⟨use, hfind, huses⟩ := find_takesParam ho
  refine ⟨use, huses, ?_⟩
  have hhelp : o ≠ chars "--help" := by
    rintro rfl
    exact absurd ho (by decide)
  unfold step
  rw [if_neg h.argc_ne, h.deref, ok_bind, if_neg hhelp, hfind]
  show ((deref args (st.consume 1).argv >>= fun param => use param st.settings >>= fun s =>
    pure ((1 : Int), s)) >>= _) = _
  cases deref args (st.consume 1).argv with
  | error e => rfl
  | ok param =>
    rw [ok_bind, ok_bind]
    cases use param st.settings with
    | error e => rfl
    | ok settings => rfl

/-- The handler takes the null pointer for a string. -/
theorem step_missing {o : Text} (h : Fits args st [o]) (ho : TakesParam o) :
    step args st = .error .nullPointer := by
  obtain ⟨use, -, hstep⟩ := step_takesParam h ho
  have hone : Fits args (st.consume 1) [] := h.consume [o]
  obtain ⟨pre, hsplit, hargv⟩ := hone.split
  rw [List.append_nil] at hsplit
  rw [hstep, hargv, ← hsplit, deref_length]
  rfl

theorem step_param {o param : Text} (h : Fits args st (o :: param :: rest)) (ho : TakesParam o) :
    (Accepted o param → ∃ st', step args st = .ok st' ∧ Fits args st' rest) ∧
      (¬Accepted o param → ∃ e, step args st = .error e ∧ ¬e.IsFault) := by
  obtain ⟨use, huses, hstep⟩ := step_takesParam h ho
  have hone : Fits args (st.consume 1) (param :: rest) := h.consume [o]
  rw [hone.deref, ok_bind] at hstep
  refine ⟨fun haccepted => ?_, fun hnot => ?_⟩
  · obtain ⟨settings, huse⟩ := (huses param st.settings).1 haccepted
    rw [huse] at hstep
    exact ⟨_, hstep, (hone.with_settings settings).consume [param]⟩
  · obtain ⟨e, huse, hfault⟩ := (huses param st.settings).2 hnot
    rw [huse] at hstep
    exact ⟨e, hstep, hfault⟩

/-! ## Runs -/

/-- The arguments that are left are safe. -/
def Safe (args : List Text) (st : ArgState) : Prop := ∃ rest, Fits args st rest ∧ ¬Dangling rest

/-- A step goes on with fewer arguments, or ends the program in a harmless way. -/
theorem step_safe (h : Safe args st) : step args st = .ok st ∧ st.argc = 0 ∨
    (∃ st', step args st = .ok st' ∧ Safe args st' ∧ st'.argc < st.argc) ∨
      ∃ e, step args st = .error e ∧ ¬e.IsFault := by
  obtain ⟨rest, hfits, hsafe⟩ := h
  cases rest with
  | nil => exact Or.inl ⟨step_nil hfits, hfits.argc⟩
  | cons arg rest =>
    by_cases harg : TakesParam arg
    · cases rest with
      | nil => exact absurd (Dangling.last harg) hsafe
      | cons param rest =>
        obtain ⟨hok, herror⟩ := step_param hfits harg
        by_cases haccepted : Accepted arg param
        · obtain ⟨st', hstep, hfits'⟩ := hok haccepted
          have hsafe' : ¬Dangling rest := fun h => hsafe (.param harg haccepted h)
          refine Or.inr (Or.inl ⟨st', hstep, ⟨rest, hfits', hsafe'⟩, ?_⟩)
          rw [hfits.argc, hfits'.argc]
          simp only [List.length_cons]
          omega
        · exact Or.inr (Or.inr (herror haccepted))
    · by_cases hhelp : arg = chars "--help"
      · rw [hhelp] at hfits
        exact Or.inr (Or.inr ⟨_, step_help hfits, id⟩)
      · obtain ⟨st', hstep, hfits'⟩ := step_skip hfits hhelp harg
        have hsafe' : ¬Dangling rest := fun h => hsafe (.skip hhelp harg h)
        refine Or.inr (Or.inl ⟨st', hstep, ⟨rest, hfits', hsafe'⟩, ?_⟩)
        rw [hfits.argc, hfits'.argc, List.length_cons]
        omega

/-- The missing parameter is reached. -/
theorem run_dangling (h : Dangling rest) : ∀ {st : ArgState}, Fits args st rest →
    ∃ n, iterate (step args) n st = .error .nullPointer := by
  induction h with
  | last ho =>
    intro st hfits
    exact ⟨1, iterate_succ_error 0 (step_missing hfits ho)⟩
  | skip hhelp harg _ ih =>
    intro st hfits
    obtain ⟨st', hstep, hfits'⟩ := step_skip hfits hhelp harg
    obtain ⟨n, hrun⟩ := ih hfits'
    exact ⟨n + 1, (iterate_succ_ok n hstep).trans hrun⟩
  | param ho haccepted _ ih =>
    intro st hfits
    obtain ⟨st', hstep, hfits'⟩ := (step_param hfits ho).1 haccepted
    obtain ⟨n, hrun⟩ := ih hfits'
    exact ⟨n + 1, (iterate_succ_ok n hstep).trans hrun⟩

/-- What a safe state says about the arguments that have been consumed. -/
theorem Fits.once (h : Fits args st rest) :
    st.consumed.Nodup ∧ ∀ i ∈ st.consumed, i < args.length := by
  obtain ⟨⟨pre, hsplit, hargv⟩, hpos, -, hconsumed⟩ := h
  rw [hconsumed]
  refine ⟨List.nodup_range', ?_⟩
  intro i hi
  rw [List.mem_range'_1] at hi
  rw [hsplit, List.length_append]
  omega

theorem Safe.argc_nonneg (h : Safe args st) : 0 ≤ st.argc := by
  obtain ⟨rest, hfits, -⟩ := h
  rw [hfits.argc]
  exact Int.natCast_nonneg _

/-- Every run from a safe state goes on to safe states, or ends in a harmless way. -/
theorem run_safe (h : Safe args st) (n : Nat) :
    (∃ st', iterate (step args) n st = .ok st' ∧ Safe args st') ∨
      ∃ e, iterate (step args) n st = .error e ∧ ¬e.IsFault := by
  refine iterate_inv (fun st hst => ?_) n st h
  rcases step_safe hst with ⟨hstep, -⟩ | ⟨st', hstep, hsafe, -⟩ | herror
  · exact Or.inl ⟨st, hstep, hst⟩
  · exact Or.inl ⟨st', hstep, hsafe⟩
  · exact Or.inr herror

/-- The loop ends. -/
theorem run_ends (h : Safe args st) :
    (∃ st', iterate (step args) (st.argc.toNat + 1) st = .ok st' ∧ Safe args st' ∧ st'.argc = 0) ∨
      ∃ e, iterate (step args) (st.argc.toNat + 1) st = .error e ∧ ¬e.IsFault := by
  refine iterate_stops (Safe args) (fun st => st.argc = 0) (fun st => st.argc.toNat) ?_ ?_ _ st h
    (Nat.lt_succ_self _)
  · intro st hargc
    exact if_pos hargc
  · intro st hst hargc
    rcases step_safe hst with ⟨-, hzero⟩ | ⟨st', hstep, hsafe, hlt⟩ | herror
    · exact absurd hzero hargc
    · have hnonneg := hsafe.argc_nonneg
      exact Or.inl ⟨st', hstep, hsafe, by omega⟩
    · exact Or.inr herror

theorem safeParse_of_safe {settings : Settings} (h : Safe args (start args settings)) :
    SafeParse args settings := by
  have hok : ∀ n st, iterate (step args) n (start args settings) = .ok st → Safe args st := by
    intro n st hst
    rcases run_safe h n with ⟨st', hst', hsafe⟩ | ⟨e, he, -⟩
    · rw [hst] at hst'
      cases hst'
      exact hsafe
    · rw [hst] at he
      cases he
  constructor
  · refine ⟨(start args settings).argc.toNat + 1, ?_⟩
    rcases run_ends h with ⟨st, hst, -, hargc⟩ | ⟨e, he, -⟩
    · rw [hst]
      exact hargc
    · rw [he]
      trivial
  · exact fun n st hst => (hok n st hst).argc_nonneg
  · intro n st hst
    obtain ⟨rest, hfits, -⟩ := hok n st hst
    exact hfits.once
  · intro n e he
    rcases run_safe h n with ⟨st', hst', -⟩ | ⟨e', he', hfault⟩
    · rw [he] at hst'
      cases hst'
    · rw [he] at he'
      cases he'
      exact hfault

theorem start_fits (arg : Text) (args : List Text) (settings : Settings) :
    Fits (arg :: args) (start (arg :: args) settings) args := by
  refine ⟨⟨[arg], rfl, rfl⟩, Nat.le_refl 1, ?_, rfl⟩
  show ((args.length + 1 : Nat) : Int) - 1 = args.length
  omega

/-- The last argument is the option. -/
theorem Dangling.getLast (h : Dangling args) : ∃ o, args.getLast? = some o ∧ TakesParam o := by
  induction h with
  | last ho => exact ⟨_, rfl, ho⟩
  | skip _ _ hrest ih =>
    obtain ⟨o, hlast, ho⟩ := ih
    exact ⟨o, by rw [List.getLast?_cons, hlast]; rfl, ho⟩
  | param _ _ hrest ih =>
    obtain ⟨o, hlast, ho⟩ := ih
    exact ⟨o, by rw [List.getLast?_cons, List.getLast?_cons, hlast]; rfl, ho⟩

/-- Arguments that end in anything else are safe, whatever is in front of it. -/
theorem safeParse_of_getLast {settings : Settings} {o : Text} (hlast : args.getLast? = some o)
    (ho : ¬TakesParam o) : SafeParse (arg :: args) settings := by
  refine safeParse_of_safe ⟨args, start_fits arg args settings, fun h => ?_⟩
  obtain ⟨o', hlast', ho'⟩ := h.getLast
  rw [hlast] at hlast'
  cases hlast'
  exact ho ho'

end

/-- For every argument vector and whatever the settings are: the loop stays inside `argv`
if and only if there is a program name and the arguments behind it do not end in an option
whose parameter is missing. -/
theorem safeParse_iff (args : List Text) (settings : Settings) :
    SafeParse args settings ↔ args ≠ [] ∧ ¬Dangling args.tail := by
  cases args with
  | nil =>
    refine iff_of_false (fun h => ?_) fun h => h.1 rfl
    have hargc : (0 : Int) ≤ ((0 : Nat) : Int) - 1 := h.argc 0 _ rfl
    omega
  | cons arg args =>
    have hfits := start_fits arg args settings
    constructor
    · intro h
      refine ⟨List.cons_ne_nil _ _, fun hdangling => ?_⟩
      obtain ⟨n, hrun⟩ := run_dangling hdangling hfits
      exact h.memory n _ hrun trivial
    · exact fun h => safeParse_of_safe ⟨args, hfits, h.2⟩

/-- `--port`, and nothing behind it. -/
theorem not_always_safeParse : ¬∀ (args : List Text) (settings : Settings),
    chars "--help" ∉ args → SafeParse args settings := by
  intro h
  let settings : Settings := ⟨false, chars "config.json", 9001, fun _ => none, 8⟩
  have hsafe := h [chars "OCServer", chars "--port"] settings (by decide)
  obtain ⟨n, hrun⟩ := run_dangling (.last (show TakesParam (chars "--port") by decide))
    (start_fits _ _ settings)
  exact hsafe.memory n _ hrun trivial

end OCServer.Main
