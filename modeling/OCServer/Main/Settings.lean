import OCServer.Main.Arguments

/-!
# What the options mean

`options` reads the arguments from left to right, without `argc` and `argv`: an option takes
the argument behind it as its parameter, whatever that looks like.  `outcome` says what a
list of options leaves, setting by setting.  `completes_iff` says that the option loop of
`main` computes just that.

`--userdir` sets the log directory again, so that a `--log` in front of it is lost.
`started_paths` is about the paths that `main` goes on with, from `init_user_dir` on.
-/

namespace OCServer.Main

open Loop

/-! ## Options -/

/-- An option and its parameter. -/
inductive Opt
  | daemon
  | config (param : Text)
  | port (param : Text)
  | log (param : Text)
  | userdir (param : Text)
  | loglevel (param : Text)
  deriving DecidableEq, Repr

/-- What the handler does. -/
def Opt.apply (s : Settings) : Opt → Except Stop Settings
  | .daemon => .ok { s with isDaemon := true }
  | .config param => .ok { s with configureFile := param }
  | .port param => .ok { s with port := atoi param }
  | .log param => do
    let filenames ← updatePathname "logdir" param s.filenames
    pure { s with filenames := filenames }
  | .userdir param => do
    let filenames ← updatePathname "userdir" param s.filenames
    let filenames ← updateDatadir filenames
    pure { s with filenames := filenames }
  | .loglevel param =>
    let bitmask := atoi param
    if 0 ≤ bitmask ∧ bitmask ≤ 15 then .ok { s with debugLevel := (bitmask.toNat ||| 8 : Nat) }
    else .error (.runtimeError "--loglevel available values are 0 to 15.\n")

/-- The options with a parameter. -/
def optWith (arg : Text) : Option (Text → Opt) :=
  if arg = chars "--config" then some .config
  else if arg = chars "--port" then some .port
  else if arg = chars "--log" then some .log
  else if arg = chars "--userdir" then some .userdir
  else if arg = chars "--loglevel" then some .loglevel
  else none

/-- The options among the arguments, unless there is a `--help` or a parameter is missing. -/
def options : List Text → Option (List Opt)
  | [] => some []
  | arg :: args =>
    if arg = chars "--help" then none
    else if arg = chars "--daemon" then (options args).map (.daemon :: ·)
    else
      match optWith arg, args with
      | some _, [] => none
      | some opt, param :: args => (options args).map (opt param :: ·)
      | none, args => options args

/-! ## What a list of options leaves -/

/-- The last option that `f` answers for. -/
def lastOf {α : Type} (f : Opt → Option α) (os : List Opt) : Option α := (os.filterMap f).getLast?

def Opt.isDaemon : Opt → Bool
  | .daemon => true
  | _ => false

def Opt.configParam : Opt → Option Text
  | .config param => some param
  | _ => none

def Opt.portNumber : Opt → Option Int
  | .port param => some (atoi param)
  | _ => none

def Opt.level : Opt → Option Int
  | .loglevel param => some ((atoi param).toNat ||| 8 : Nat)
  | _ => none

def Opt.userPath : Opt → Option Text
  | .userdir param => some (param ++ [47])
  | _ => none

/-- Both options set the log directory. -/
def Opt.logPath : Opt → Option Text
  | .log param => some (param ++ [47])
  | .userdir param => some (param ++ [47] ++ chars "logs" ++ [47])
  | _ => none

/-- The directories of the program are only set along with the one of the user. -/
def Opt.basePath (basedir : Text) (name : String) : Opt → Option Text
  | .userdir _ => some (basedir ++ chars name ++ [47])
  | _ => none

/-- What `FILENAMES` is set to. -/
def Opt.path (basedir : Text) (name : String) : Opt → Option Text :=
  if name = "userdir" then Opt.userPath
  else if name = "logdir" then Opt.logPath
  else if name = "librarydir" then Opt.basePath basedir "modules"
  else if name = "javadir" then Opt.basePath basedir "Java"
  else fun _ => none

/-- The settings behind the options: of each of them the last one counts. -/
def outcome (s : Settings) (os : List Opt) : Settings where
  isDaemon := s.isDaemon || os.any Opt.isDaemon
  configureFile := (lastOf Opt.configParam os).getD s.configureFile
  port := (lastOf Opt.portNumber os).getD s.port
  filenames := fun name =>
    (lastOf (Opt.path (s.filenames.get "basedir") name) os).or (s.filenames name)
  debugLevel := (lastOf Opt.level os).getD s.debugLevel

/-- No handler throws at it. -/
def Opt.Accepted : Opt → Prop
  | .log param => param ≠ []
  | .userdir param => param ≠ []
  | .loglevel param => 0 ≤ atoi param ∧ atoi param ≤ 15
  | _ => True

theorem lastOf_concat {α : Type} (f : Opt → Option α) (os : List Opt) (o : Opt) :
    lastOf f (os ++ [o]) = (f o).or (lastOf f os) := by
  unfold lastOf
  rw [List.filterMap_append]
  cases h : f o with
  | none => simp [h]
  | some a => simp [h]

theorem lastOf_none {α : Type} (os : List Opt) : lastOf (fun _ => (none : Option α)) os = none := by
  simp [lastOf]

theorem updateDatadir_eq (filenames : FileMap) : updateDatadir filenames =
    .ok (((filenames.set "librarydir" (filenames.get "basedir" ++ chars "modules" ++ [47])).set
      "logdir" (filenames.get "userdir" ++ chars "logs" ++ [47])).set
      "javadir" (filenames.get "basedir" ++ chars "Java" ++ [47])) := by
  have hne : ∀ (dir : Text) (name : String), chars name ≠ [] → dir ++ chars name ≠ [] :=
    fun dir name hname h => hname (List.append_eq_nil_iff.mp h).2
  unfold updateDatadir
  rw [updatePathname_ok _ _ (hne _ "modules" (by decide)), ok_bind,
    updatePathname_ok _ _ (hne _ "logs" (by decide)), ok_bind,
    updatePathname_ok _ _ (hne _ "Java" (by decide))]
  rfl

/-! ## One option -/

section

variable {s s' : Settings} {os : List Opt} {o : Opt}

theorem outcome_nil (s : Settings) : outcome s [] = s := by
  simp [outcome, lastOf]

theorem outcome_basedir (s : Settings) (os : List Opt) :
    (outcome s os).filenames.get "basedir" = s.filenames.get "basedir" := by
  have hnone : Opt.path (s.filenames.get "basedir") "basedir" = fun _ => none := by
    simp [Opt.path]
  show ((lastOf (Opt.path _ "basedir") os).or (s.filenames "basedir")).getD [] = _
  rw [hnone, lastOf_none]
  rfl

/-- What one option does to the settings, setting by setting. -/
def Opt.effect (basedir : Text) (s : Settings) (o : Opt) : Settings where
  isDaemon := s.isDaemon || o.isDaemon
  configureFile := o.configParam.getD s.configureFile
  port := o.portNumber.getD s.port
  filenames := fun name => (o.path basedir name).or (s.filenames name)
  debugLevel := o.level.getD s.debugLevel

theorem outcome_concat (s : Settings) (os : List Opt) (o : Opt) :
    outcome s (os ++ [o]) = o.effect (s.filenames.get "basedir") (outcome s os) := by
  simp only [outcome, Opt.effect, lastOf_concat, List.any_append, List.any_cons, List.any_nil,
    Bool.or_false, Bool.or_assoc, Option.or_assoc, Option.getD_or]

/-- An option without a path. -/
theorem path_of_not_path (h : o.userPath = none ∧ o.logPath = none) (basedir : Text)
    (name : String) : o.path basedir name = none := by
  unfold Opt.path
  cases o with
  | log param => cases h.2
  | userdir param => cases h.1
  | _ => split_ifs <;> rfl

/-- The paths that `--userdir` sets. -/
theorem userdir_paths (filenames : FileMap) (param : Text) :
    updateDatadir (filenames.set "userdir" (param ++ [47])) =
      .ok fun name =>
        ((Opt.userdir param).path (filenames.get "basedir") name).or (filenames name) := by
  rw [updateDatadir_eq]
  congr 1
  funext name
  by_cases huser : name = "userdir"
  · subst huser
    simp [FileMap.set, Opt.path, Opt.userPath]
  · by_cases hlog : name = "logdir"
    · subst hlog
      simp [FileMap.set, FileMap.get, Opt.path, Opt.logPath]
    · by_cases hlibrary : name = "librarydir"
      · subst hlibrary
        simp [FileMap.set, FileMap.get, Opt.path, Opt.basePath]
      · by_cases hjava : name = "javadir"
        · subst hjava
          simp [FileMap.set, FileMap.get, Opt.path, Opt.basePath]
        · simp [FileMap.set, Opt.path, huser, hlog, hlibrary, hjava]

theorem log_paths (basedir : Text) (filenames : FileMap) (param : Text) :
    filenames.set "logdir" (param ++ [47]) =
      fun name => ((Opt.log param).path basedir name).or (filenames name) := by
  funext name
  by_cases hlog : name = "logdir"
  · subst hlog
    simp [FileMap.set, Opt.path, Opt.logPath]
  · by_cases huser : name = "userdir"
    · subst huser
      simp [FileMap.set, Opt.path, Opt.userPath]
    · simp only [FileMap.set, Opt.path, if_neg hlog, if_neg huser]
      split_ifs <;> rfl

/-- The handler does it to what it accepts. -/
theorem apply_eq (s : Settings) (h : o.Accepted) :
    o.apply s = .ok (o.effect (s.filenames.get "basedir") s) := by
  have hnone : o.userPath = none ∧ o.logPath = none →
      (o.effect (s.filenames.get "basedir") s).filenames = s.filenames := by
    intro hpath
    funext name
    show (o.path _ name).or (s.filenames name) = _
    rw [path_of_not_path hpath]
    rfl
  cases o with
  | log param =>
    show (updatePathname "logdir" param s.filenames >>= _) = _
    rw [updatePathname_ok _ _ h, ok_bind, log_paths (s.filenames.get "basedir")]
    simp [Opt.effect, Opt.isDaemon, Opt.configParam, Opt.portNumber, Opt.level, pure, Except.pure]
  | userdir param =>
    show (updatePathname "userdir" param s.filenames >>= _) = _
    rw [updatePathname_ok _ _ h, ok_bind, userdir_paths, ok_bind]
    simp [Opt.effect, Opt.isDaemon, Opt.configParam, Opt.portNumber, Opt.level, pure, Except.pure]
  | loglevel param =>
    have hfiles := hnone ⟨rfl, rfl⟩
    have happly : (Opt.loglevel param).apply s =
        .ok { s with debugLevel := ((atoi param).toNat ||| 8 : Nat) } := if_pos h
    rw [happly]
    congr 1
    simp only [Opt.effect] at hfiles ⊢
    rw [hfiles]
    simp [Opt.isDaemon, Opt.configParam, Opt.portNumber, Opt.level]
  | _ =>
    have hfiles := hnone ⟨rfl, rfl⟩
    show Except.ok _ = Except.ok _
    congr 1
    simp only [Opt.effect] at hfiles ⊢
    rw [hfiles]
    simp [Opt.isDaemon, Opt.configParam, Opt.portNumber, Opt.level]

/-- The others it throws at. -/
theorem apply_rejected (s : Settings) (h : ¬o.Accepted) : ∃ e, o.apply s = .error e := by
  cases o with
  | log param =>
    rw [Opt.Accepted, not_not] at h
    subst h
    exact ⟨_, rfl⟩
  | userdir param =>
    rw [Opt.Accepted, not_not] at h
    subst h
    exact ⟨_, rfl⟩
  | loglevel param => exact ⟨_, if_neg h⟩
  | _ => exact absurd trivial h

/-- Options one after the other. -/
theorem foldlM_apply_iff (s s' : Settings) (os : List Opt) :
    os.foldlM Opt.apply s = .ok s' ↔ (∀ o ∈ os, o.Accepted) ∧ s' = outcome s os := by
  induction os using List.reverseRecOn generalizing s' with
  | nil =>
    rw [outcome_nil]
    refine ⟨fun h => ⟨by simp, ?_⟩, fun h => ?_⟩
    · cases h
      rfl
    · rw [h.2]
      rfl
  | append_singleton os o ih =>
    rw [List.foldlM_append]
    constructor
    · intro h
      obtain ⟨s₁, hs₁, h⟩ := Incremental.bind_eq_ok h
      obtain ⟨haccepted, rfl⟩ := (ih s₁).mp hs₁
      obtain ⟨s₂, ho, h⟩ := Incremental.bind_eq_ok h
      cases h
      by_cases hlast : o.Accepted
      · rw [apply_eq _ hlast, outcome_basedir, ← outcome_concat] at ho
        cases ho
        refine ⟨?_, rfl⟩
        rw [List.forall_mem_append, List.forall_mem_singleton]
        exact ⟨haccepted, hlast⟩
      · obtain ⟨e, he⟩ := apply_rejected (outcome s os) hlast
        rw [he] at ho
        cases ho
    · rintro ⟨haccepted, rfl⟩
      rw [List.forall_mem_append, List.forall_mem_singleton] at haccepted
      rw [(ih _).mpr ⟨haccepted.1, rfl⟩, ok_bind, List.foldlM_cons, apply_eq _ haccepted.2,
        outcome_basedir, ← outcome_concat]
      rfl

end

/-! ## The loop -/

/-- The loop goes over all arguments and leaves the settings `s'`. -/
def Ends (args : List Text) (st : ArgState) (s' : Settings) : Prop :=
  ∃ n st', iterate (step args) n st = .ok st' ∧ st'.argc = 0 ∧ st'.settings = s'

section

variable {args rest : List Text} {st st₁ : ArgState} {s' : Settings} {arg : Text}

theorem ends_step (hargc : st.argc ≠ 0) (h : step args st = .ok st₁) :
    Ends args st s' ↔ Ends args st₁ s' := by
  constructor
  · rintro ⟨n, st', hrun, hzero, hs'⟩
    cases n with
    | zero =>
      cases hrun
      exact absurd hzero hargc
    | succ n =>
      rw [iterate_succ_ok n h] at hrun
      exact ⟨n, st', hrun, hzero, hs'⟩
  · rintro ⟨n, st', hrun, hend⟩
    exact ⟨n + 1, st', (iterate_succ_ok n h).trans hrun, hend⟩

theorem not_ends_of_error (hargc : st.argc ≠ 0) {e : Stop} (h : step args st = .error e) :
    ¬Ends args st s' := by
  rintro ⟨n, st', hrun, hzero, -⟩
  cases n with
  | zero =>
    cases hrun
    exact hargc hzero
  | succ n =>
    rw [iterate_succ_error n h] at hrun
    cases hrun

theorem ends_nil (h : Fits args st []) : Ends args st s' ↔ st.settings = s' := by
  constructor
  · rintro ⟨n, st', hrun, -, rfl⟩
    rw [iterate_fixed (step_nil h)] at hrun
    cases hrun
    rfl
  · intro hs'
    exact ⟨0, st, rfl, h.argc, hs'⟩

theorem not_takesParam_of_optWith (h : optWith arg = none) : ¬TakesParam arg := by
  unfold optWith at h
  split_ifs at h with hconfig hport hlog huserdir hloglevel
  simp only [TakesParam, List.mem_cons, List.not_mem_nil, or_false, not_or]
  exact ⟨hconfig, hport, hlog, huserdir, hloglevel⟩

/-- `--daemon`. -/
theorem step_daemon (h : Fits args st (chars "--daemon" :: rest)) :
    ∃ st₁, step args st = .ok st₁ ∧ Fits args st₁ rest ∧
      Opt.daemon.apply st.settings = .ok st₁.settings := by
  have hone : Fits args (st.consume 1) rest := h.consume [chars "--daemon"]
  unfold step
  rw [if_neg h.argc_ne, h.deref, ok_bind, if_neg (by decide)]
  exact ⟨_, rfl, (hone.with_settings _).consume [], rfl⟩

/-- An argument that is no option. -/
theorem step_other (h : Fits args st (arg :: rest)) (hhelp : arg ≠ chars "--help")
    (hdaemon : arg ≠ chars "--daemon") (harg : optWith arg = none) :
    ∃ st₁, step args st = .ok st₁ ∧ Fits args st₁ rest ∧ st₁.settings = st.settings := by
  have hone : Fits args (st.consume 1) rest := h.consume [arg]
  have hfind : argProc.find? (fun arg_handler => arg = arg_handler.flag) = none := by
    rcases find_not_takesParam (not_takesParam_of_optWith harg) with hfind | hfind
    · have hflag := List.find?_some hfind
      exact absurd (of_decide_eq_true hflag) hdaemon
    · exact hfind
  unfold step
  rw [if_neg h.argc_ne, h.deref, ok_bind, if_neg hhelp, hfind]
  exact ⟨_, rfl, hone, rfl⟩

theorem find_optWith {opt : Text → Opt} (h : optWith arg = some opt) :
    argProc.find? (fun arg_handler => arg = arg_handler.flag) =
      some (withParam arg fun param s => (opt param).apply s) := by
  unfold optWith at h
  split_ifs at h with hconfig hport hlog huserdir hloglevel
  · subst hconfig
    cases h
    rfl
  · subst hport
    cases h
    rfl
  · subst hlog
    cases h
    rfl
  · subst huserdir
    cases h
    rfl
  · subst hloglevel
    cases h
    rfl

theorem takesParam_of_optWith {opt : Text → Opt} (h : optWith arg = some opt) :
    TakesParam arg := by
  by_contra harg
  rcases find_not_takesParam harg with hfind | hfind
  · rw [find_optWith h] at hfind
    have hflag := congrArg ArgHandler.flag (Option.some.inj hfind)
    have hdaemon : arg = chars "--daemon" := hflag
    rw [hdaemon] at h
    cases h
  · rw [find_optWith h] at hfind
    cases hfind

/-- An option and its parameter. -/
theorem step_optWith {opt : Text → Opt} {param : Text} (h : Fits args st (arg :: param :: rest))
    (hhelp : arg ≠ chars "--help") (hopt : optWith arg = some opt) :
    (∃ st₁, step args st = .ok st₁ ∧ Fits args st₁ rest ∧
        (opt param).apply st.settings = .ok st₁.settings) ∨
      ∃ e, step args st = .error e ∧ (opt param).apply st.settings = .error e := by
  have hone : Fits args (st.consume 1) (param :: rest) := h.consume [arg]
  unfold step
  rw [if_neg h.argc_ne, h.deref, ok_bind, if_neg hhelp, find_optWith hopt]
  show (∃ st₁, ((deref args (st.consume 1).argv >>= fun param =>
      (opt param).apply st.settings >>= fun s => pure ((1 : Int), s)) >>= _) = _ ∧ _) ∨ ∃ e,
    ((deref args (st.consume 1).argv >>= fun param =>
      (opt param).apply st.settings >>= fun s => pure ((1 : Int), s)) >>= _) = _ ∧ _
  rw [hone.deref, ok_bind]
  cases happly : (opt param).apply st.settings with
  | error e => exact Or.inr ⟨e, rfl, rfl⟩
  | ok settings =>
    exact Or.inl ⟨_, rfl, (hone.with_settings settings).consume [param], rfl⟩

/-- One option in front of the others. -/
theorem ends_cons {o : Opt} (hargc : st.argc ≠ 0)
    (hstep : (∃ st₁, step args st = .ok st₁ ∧ Fits args st₁ rest ∧
        o.apply st.settings = .ok st₁.settings) ∨
      ∃ e, step args st = .error e ∧ o.apply st.settings = .error e)
    (ih : ∀ {st₁ : ArgState}, Fits args st₁ rest → (Ends args st₁ s' ↔
      ∃ os, options rest = some os ∧ os.foldlM Opt.apply st₁.settings = .ok s')) :
    Ends args st s' ↔ ∃ os, (options rest).map (o :: ·) = some os ∧
      os.foldlM Opt.apply st.settings = .ok s' := by
  have hcons : (∃ os, (options rest).map (o :: ·) = some os ∧
      os.foldlM Opt.apply st.settings = .ok s') ↔ ∃ os, options rest = some os ∧
        (o.apply st.settings >>= fun s => os.foldlM Opt.apply s) = .ok s' := by
    constructor
    · rintro ⟨os, hos, hfold⟩
      obtain ⟨os, hrest, rfl⟩ := Option.map_eq_some_iff.mp hos
      exact ⟨os, hrest, hfold⟩
    · rintro ⟨os, hrest, hfold⟩
      exact ⟨o :: os, by rw [hrest]; rfl, hfold⟩
  rw [hcons]
  rcases hstep with ⟨st₁, hstep, hfits, happly⟩ | ⟨e, hstep, happly⟩
  · rw [ends_step hargc hstep, ih hfits, happly]
    rfl
  · rw [happly]
    refine iff_of_false (not_ends_of_error hargc hstep) ?_
    rintro ⟨os, -, hfold⟩
    cases hfold

/-- By induction on the arguments that are left: the loop does what their options do. -/
theorem ends_iff (h : Fits args st rest) : Ends args st s' ↔
    ∃ os, options rest = some os ∧ os.foldlM Opt.apply st.settings = .ok s' := by
  induction rest using options.induct generalizing st with
  | case1 =>
    rw [ends_nil h]
    constructor
    · intro hs'
      exact ⟨[], rfl, by rw [hs']; rfl⟩
    · rintro ⟨os, hos, hfold⟩
      cases hos
      cases hfold
      rfl
  | case2 rest =>
    refine iff_of_false (not_ends_of_error h.argc_ne (step_help h)) ?_
    rintro ⟨os, hos, -⟩
    unfold options at hos
    rw [if_pos rfl] at hos
    cases hos
  | case3 rest hhelp ih =>
    have hrest : options (chars "--daemon" :: rest) = (options rest).map (.daemon :: ·) := by
      conv_lhs => unfold options
      rw [if_neg hhelp, if_pos rfl]
    rw [hrest]
    exact ends_cons h.argc_ne (Or.inl (step_daemon h)) ih
  | case4 arg hhelp hdaemon opt hopt =>
    refine iff_of_false (not_ends_of_error h.argc_ne
      (step_missing h (takesParam_of_optWith hopt))) ?_
    rintro ⟨os, hos, -⟩
    unfold options at hos
    rw [if_neg hhelp, if_neg hdaemon, hopt] at hos
    cases hos
  | case5 arg hhelp hdaemon opt param rest hopt ih =>
    have hrest : options (arg :: param :: rest) = (options rest).map (opt param :: ·) := by
      conv_lhs => unfold options
      rw [if_neg hhelp, if_neg hdaemon, hopt]
    rw [hrest]
    exact ends_cons h.argc_ne (step_optWith h hhelp hopt) ih
  | case6 arg hhelp hdaemon rest hopt ih =>
    obtain ⟨st₁, hstep, hfits, hsame⟩ := step_other h hhelp hdaemon hopt
    have hrest : options (arg :: rest) = options rest := by
      conv_lhs => unfold options
      rw [if_neg hhelp, if_neg hdaemon, hopt]
    rw [ends_step h.argc_ne hstep, ih hfits, hrest, hsame]

end

/-- For every argument vector and whatever the settings are: the loop goes over all arguments
if and only if there is no `--help` and no missing parameter among the options and every
parameter is accepted; and what it leaves is, setting by setting, what the last option for it
says. -/
theorem completes_iff (arg : Text) (args : List Text) (s s' : Settings) :
    Ends (arg :: args) (start (arg :: args) s) s' ↔
      ∃ os, options args = some os ∧ (∀ o ∈ os, o.Accepted) ∧ s' = outcome s os := by
  rw [ends_iff (start_fits arg args s)]
  simp only [foldlM_apply_iff]
  rfl

/-! ## The paths that `main` goes on with -/

/-- `init_user_dir`.  `cwd` and `home` are the answers of `getcwd` and `getenv`. -/
def initUserDir (cwd home : Option Text) (ud : Text) (filenames : FileMap) :
    Except Stop FileMap :=
  match cwd with
  | none => .error (.runtimeError "mfilesystem.cpp:getcwd() Failed!\n")
  | some bdir =>
    match bdir.getLast? with
    | none => .error .outOfRange
    | some ch =>
      let bdir := if ch ≠ 47 ∨ ch ≠ 92 then bdir ++ [47] else bdir
      let filenames := filenames.set "basedir" bdir
      if ud = [] then
        match home with
        | none => .error .nullPointer
        | some user_dir => .ok (filenames.set "userdir" (user_dir ++ chars "/.OCServer/"))
      else .ok (filenames.set "userdir" ud)

/-- The settings in front of the options. -/
def initial (cwd home : Option Text) (debugLevel : Int) : Except Stop Settings := do
  let filenames ← initUserDir cwd home [] fun _ => none
  let filenames ← updateDatadir filenames
  pure ⟨false, chars "config.json", 9001, filenames, debugLevel⟩

/-- What `main` hands on: to `setupDebug`, to `Configure` and to `createJVM`.  As a daemon it
does not call `setupDebug`. -/
structure Paths where
  log : Option Text
  conf : Text
  classpath : Text
  nlibrary : Text
  deriving DecidableEq, Repr

def paths (s : Settings) : Paths where
  log := if s.isDaemon then none else some (s.filenames.get "logdir" ++ chars "Server.log")
  conf := s.filenames.get "userdir" ++ chars "config.json"
  classpath := s.filenames.get "javadir" ++ chars "JavaP.jar:" ++ s.filenames.get "javadir" ++
    chars "lib/mysql-connector-java-5.1.46.jar"
  nlibrary := s.filenames.get "basedir" ++ chars "Core"

/-- The directories in front of the options. -/
theorem initial_paths {cwd home : Text} {level : Int} {s : Settings}
    (h : initial (some cwd) (some home) level = .ok s) :
    s.isDaemon = false ∧ s.filenames.get "basedir" = cwd ++ [47] ∧ s.filenames.get "userdir" =
      home ++ chars "/.OCServer/" ∧ s.filenames "logdir" =
      some (home ++ chars "/.OCServer/logs/") ∧
      s.filenames "javadir" = some (cwd ++ chars "/Java/") := by
  unfold initial initUserDir at h
  cases hlast : cwd.getLast? with
  | none =>
    simp only [hlast] at h
    cases h
  | some ch =>
    have hch : ch ≠ 47 ∨ ch ≠ 92 := by
      by_cases h47 : ch = 47
      · exact Or.inr (by rw [h47]; decide)
      · exact Or.inl h47
    simp only [hlast, if_pos hch, ite_true, ok_bind, updateDatadir_eq] at h
    cases h
    have hslash : chars "/.OCServer/" ++ chars "logs" ++ [47] = chars "/.OCServer/logs/" := rfl
    have hjava : [47] ++ chars "Java" ++ [47] = chars "/Java/" := rfl
    refine ⟨rfl, by simp [FileMap.set, FileMap.get], by simp [FileMap.set, FileMap.get], ?_, ?_⟩
    · simp [FileMap.set, FileMap.get, ← hslash]
    · simp [FileMap.set, FileMap.get, ← hjava]

/-- Two options set `javadir` to what it is. -/
theorem lastOf_basePath {basedir : Text} {name : String} {os : List Opt} {path : Text}
    (h : lastOf (Opt.basePath basedir name) os = some path) :
    path = basedir ++ chars name ++ [47] := by
  obtain ⟨o, -, ho⟩ := List.mem_filterMap.mp (List.mem_of_getLast? h)
  cases o with
  | userdir param => exact (Option.some.inj ho).symm
  | _ => cases ho

/-- Whatever the options are: the Java part and its library are found from the working
directory, and the configuration is read from the directory of the user, `--config` or not.
The log goes to the last `--log`, unless a `--userdir` is behind it, and nowhere with a
`--daemon`. -/
theorem started_paths {cwd home arg : Text} {args : List Text} {level : Int} {s s' : Settings}
    (hs : initial (some cwd) (some home) level = .ok s)
    (h : Ends (arg :: args) (start (arg :: args) s) s') :
    ∃ os, options args = some os ∧ paths s' = {
      log := if os.any Opt.isDaemon then none else some
        ((lastOf Opt.logPath os).getD (home ++ chars "/.OCServer/logs/") ++ chars "Server.log")
      conf := (lastOf Opt.userPath os).getD (home ++ chars "/.OCServer/") ++ chars "config.json"
      classpath := cwd ++ chars "/Java/JavaP.jar:" ++ cwd ++
        chars "/Java/lib/mysql-connector-java-5.1.46.jar"
      nlibrary := cwd ++ chars "/Core" } := by
  obtain ⟨os, hos, hfold⟩ := (ends_iff (start_fits arg args s)).mp h
  obtain ⟨-, rfl⟩ := (foldlM_apply_iff s s' os).mp hfold
  obtain ⟨hforeground, hbase, huser, hlog, hjava⟩ := initial_paths hs
  refine ⟨os, hos, ?_⟩
  have hbasedir : (outcome s os).filenames.get "basedir" = cwd ++ [47] := by
    rw [outcome_basedir, hbase]
  have huserdir : (outcome s os).filenames.get "userdir" =
      (lastOf Opt.userPath os).getD (home ++ chars "/.OCServer/") := by
    show ((lastOf Opt.userPath os).or (s.filenames "userdir")).getD [] = _
    rw [Option.getD_or]
    exact congrArg _ huser
  have hlogdir : (outcome s os).filenames.get "logdir" =
      (lastOf Opt.logPath os).getD (home ++ chars "/.OCServer/logs/") := by
    show ((lastOf Opt.logPath os).or (s.filenames "logdir")).getD [] = _
    rw [hlog, Option.getD_or]
    rfl
  have hjavadir : (outcome s os).filenames.get "javadir" = cwd ++ chars "/Java/" := by
    show ((lastOf (Opt.basePath (s.filenames.get "basedir") "Java") os).or
      (s.filenames "javadir")).getD [] = _
    rw [hjava, hbase]
    cases hlast : lastOf (Opt.basePath (cwd ++ [47]) "Java") os with
    | none => rfl
    | some path =>
      rw [lastOf_basePath hlast, List.append_assoc, List.append_assoc]
      rfl
  have hdaemon : (outcome s os).isDaemon = os.any Opt.isDaemon := by
    show (s.isDaemon || _) = _
    rw [hforeground, Bool.false_or]
  unfold paths
  rw [hbasedir, huserdir, hlogdir, hjavadir, hdaemon]
  simp only [List.append_assoc]
  rfl

/-- `--log` in front of `--userdir`. -/
theorem started_paths_userdir : ∃ s s' : Settings, ∃ os,
    initial (some (chars "/srv")) (some (chars "/home")) 8 = .ok s ∧
      options [chars "--log", chars "/var", chars "--userdir", chars "y"] = some os ∧
      paths s' = {
        log := if os.any Opt.isDaemon then none else some
          ((lastOf Opt.logPath os).getD (chars "/home" ++ chars "/.OCServer/logs/") ++
            chars "Server.log")
        conf := (lastOf Opt.userPath os).getD (chars "/home" ++ chars "/.OCServer/") ++
          chars "config.json"
        classpath := chars "/srv" ++ chars "/Java/JavaP.jar:" ++ chars "/srv" ++
          chars "/Java/lib/mysql-connector-java-5.1.46.jar"
        nlibrary := chars "/srv" ++ chars "/Core" } := by
  obtain ⟨s, hs⟩ : ∃ s, initial (some (chars "/srv")) (some (chars "/home")) 8 = .ok s := ⟨_, rfl⟩
  have haccepted : ∀ o ∈ [Opt.log (chars "/var"), Opt.userdir (chars "y")], o.Accepted := by
    simp [Opt.Accepted, chars]
  have hoptions : options [chars "--log", chars "/var", chars "--userdir", chars "y"] =
      some [Opt.log (chars "/var"), Opt.userdir (chars "y")] := rfl
  have hends := (ends_iff (start_fits (chars "OCServer") _ s)).mpr
    ⟨_, hoptions, (foldlM_apply_iff s _ _).mpr ⟨haccepted, rfl⟩⟩
  obtain ⟨os, hos, hpaths⟩ := started_paths hs hends
  exact ⟨s, _, os, hs, hos, hpaths⟩

end OCServer.Main
