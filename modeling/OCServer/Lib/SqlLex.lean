import Mathlib.Data.List.Basic
import Mathlib.Data.List.Induction
import Mathlib.Tactic.Common

/-!
# The lexical syntax of SQL

Text is a list of 16-bit code units.  The lexer is a machine that takes one
code unit after the other: `lexFrom` runs it from any of its modes.  A quote
ends a literal unless it is doubled, and in some dialects a backslash
escapes what comes next.

`scan` reads one literal from behind its opening quote, and `lexFrom_lit`
says that this is what the lexer does there.  `scan_append_iff` is about text
that was pasted between the two quotes of a literal: the value of the literal
is that text if and only if it is `Plain`.

SQL that is built by concatenation is fixed text with literals between:
`Opens`, `Bridges` and `Closes` say of the pieces of fixed text which tokens
they are, and their `iff` lemmas read such SQL from left to right.
-/

namespace SqlLex

/-- Code units. -/
abbrev Text := List UInt16

/-- The code units of a string of characters of the basic plane. -/
def text (s : String) : Text := s.toList.map fun c => UInt16.ofNat c.toNat

abbrev quote : UInt16 := 39
abbrev backslash : UInt16 := 92
abbrev backtick : UInt16 := 96

@[simp] theorem backslash_ne_quote : backslash ≠ quote := by decide

/-- Whether a backslash escapes. -/
structure Dialect where
  escapes : Bool
  deriving DecidableEq, Repr

/-- The lexemes: a keyword or number, a quoted name, a literal, and anything
else by itself. -/
inductive Token
  | word (w : Text)
  | name (n : Text)
  | lit (v : Text)
  | punct (c : UInt16)
  deriving DecidableEq, Repr

/-- What the lexer is in the middle of.  In `closing` it has read a quote
inside a literal, in `escape` a backslash. -/
inductive Mode
  | base
  | word (w : Text)
  | name (n : Text)
  | lit (v : Text)
  | closing (v : Text)
  | escape (v : Text)
  deriving DecidableEq, Repr

/-- Letters, digits and the underscore. -/
def isWord (c : UInt16) : Bool :=
  (48 ≤ c && c ≤ 57) || (65 ≤ c && c ≤ 90) || (97 ≤ c && c ≤ 122) || c == 95

/-- Blanks. -/
def isBlank (c : UInt16) : Bool := c == 32 || (9 ≤ c && c ≤ 13)

/-- The escape of a code unit.  `\x5c%` and `\x5c_` stand for themselves. -/
def unescape (c : UInt16) : Text :=
  if c = 48 then [0]
  else if c = 98 then [8]
  else if c = 110 then [10]
  else if c = 114 then [13]
  else if c = 116 then [9]
  else if c = 90 then [26]
  else if c = 37 ∨ c = 95 then [backslash, c]
  else [c]

/-- A code unit outside of any lexeme. -/
def stepBase (toks : List Token) (c : UInt16) : List Token × Mode :=
  if c = quote then (toks, .lit [])
  else if c = backtick then (toks, .name [])
  else if isWord c then (toks, .word [c])
  else if isBlank c then (toks, .base)
  else (toks ++ [.punct c], .base)

section

variable (d : Dialect)

/-- One code unit. -/
def step (s : List Token × Mode) (c : UInt16) : List Token × Mode :=
  match s.2 with
  | .base => stepBase s.1 c
  | .word w => if isWord c then (s.1, .word (w ++ [c])) else stepBase (s.1 ++ [.word w]) c
  | .name n => if c = backtick then (s.1 ++ [.name n], .base) else (s.1, .name (n ++ [c]))
  | .lit v =>
    if c = quote then (s.1, .closing v)
    else if d.escapes ∧ c = backslash then (s.1, .escape v)
    else (s.1, .lit (v ++ [c]))
  | .closing v =>
    if c = quote then (s.1, .lit (v ++ [quote])) else stepBase (s.1 ++ [.lit v]) c
  | .escape v => (s.1, .lit (v ++ unescape c))

/-- The end of the text.  A name or a literal must be closed. -/
def finish (s : List Token × Mode) : Option (List Token) :=
  match s.2 with
  | .base => some s.1
  | .word w => some (s.1 ++ [.word w])
  | .closing v => some (s.1 ++ [.lit v])
  | .name _ | .lit _ | .escape _ => none

/-- The code units of a text. -/
def run (s : List Token × Mode) (cs : Text) : List Token × Mode := cs.foldl (step d) s

/-- The tokens of the rest of a text. -/
def lexFrom (m : Mode) (cs : Text) : Option (List Token) := finish (run d ([], m) cs)

/-- The tokens of a text. -/
def lex (cs : Text) : Option (List Token) := lexFrom d .base cs

/-- One literal behind its opening quote: its value, and what follows. -/
def scan : Text → Option (Text × Text)
  | [] => none
  | c :: cs =>
    if c = quote then
      match cs with
      | [] => some ([], [])
      | c' :: cs' =>
        if c' = quote then (scan cs').map fun r => (quote :: r.1, r.2) else some ([], c' :: cs')
    else if d.escapes ∧ c = backslash then
      match cs with
      | [] => none
      | e :: cs' => (scan cs').map fun r => (unescape e ++ r.1, r.2)
    else (scan cs).map fun r => (c :: r.1, r.2)

/-- Text that stands for itself inside a literal: no quote, and where a
backslash escapes, none but before `%` and `_`. -/
def Plain : Text → Prop
  | [] => True
  | c :: cs =>
    if c = quote then False
    else if d.escapes ∧ c = backslash then
      match cs with
      | [] => False
      | e :: cs' => (e = 37 ∨ e = 95) ∧ Plain cs'
    else Plain cs

/-- The code units that mean something inside a literal. -/
def Special (c : UInt16) : Prop := c = quote ∨ d.escapes = true ∧ c = backslash

end

/-! ## The lexer in pieces -/

section

variable {d : Dialect}

@[simp] theorem run_nil (s : List Token × Mode) : run d s [] = s := rfl

@[simp] theorem run_cons (s : List Token × Mode) (c : UInt16) (cs : Text) :
    run d s (c :: cs) = run d (step d s c) cs := rfl

theorem run_append (s : List Token × Mode) (cs cs' : Text) :
    run d s (cs ++ cs') = run d (run d s cs) cs' := List.foldl_append

/-- Tokens that have been read stay where they are. -/
theorem stepBase_append (toks toks' : List Token) (c : UInt16) :
    stepBase (toks ++ toks') c = (toks ++ (stepBase toks' c).1, (stepBase toks' c).2) := by
  unfold stepBase
  repeat' split
  all_goals simp

theorem step_append (toks toks' : List Token) (m : Mode) (c : UInt16) :
    step d (toks ++ toks', m) c = (toks ++ (step d (toks', m) c).1, (step d (toks', m) c).2) := by
  cases m with
  | base => exact stepBase_append toks toks' c
  | word w =>
    simp only [step]
    split
    · rfl
    · rw [List.append_assoc, stepBase_append]
  | name n =>
    simp only [step]
    split
    · rw [List.append_assoc]
    · rfl
  | lit v =>
    simp only [step]
    repeat' split
    all_goals rfl
  | closing v =>
    simp only [step]
    split
    · rfl
    · rw [List.append_assoc, stepBase_append]
  | escape v => rfl

theorem run_append_tokens (toks toks' : List Token) (m : Mode) (cs : Text) :
    run d (toks ++ toks', m) cs =
      (toks ++ (run d (toks', m) cs).1, (run d (toks', m) cs).2) := by
  induction cs generalizing toks' m with
  | nil => rfl
  | cons c cs ih =>
    rw [run_cons, run_cons, step_append]
    exact ih _ _

theorem finish_append (toks toks' : List Token) (m : Mode) :
    finish (toks ++ toks', m) = (finish (toks', m)).map (toks ++ ·) := by
  cases m with
  | word w => simp [finish]
  | closing v => simp [finish]
  | _ => rfl

/-- Text that leaves the lexer in a mode, and what comes behind it. -/
theorem lexFrom_append {m m' : Mode} {cs : Text} {toks : List Token}
    (h : run d ([], m) cs = (toks, m')) (cs' : Text) :
    lexFrom d m (cs ++ cs') = (lexFrom d m' cs').map (toks ++ ·) := by
  have happend := run_append_tokens toks [] m' cs' (d := d)
  rw [List.append_nil] at happend
  show finish (run d ([], m) (cs ++ cs')) = _
  rw [run_append, h, happend, finish_append]
  rfl

/-! ## Literals -/

theorem scan_quote_quote (cs : Text) :
    scan d (quote :: quote :: cs) = (scan d cs).map fun r => (quote :: r.1, r.2) := by
  simp [scan]

/-- A quote that is not doubled ends the literal. -/
theorem scan_quote {cs : Text} (h : cs.head? ≠ some quote) :
    scan d (quote :: cs) = some ([], cs) := by
  cases cs with
  | nil => simp [scan]
  | cons c cs =>
    have hc : c ≠ quote := by simpa using h
    simp [scan, hc]

theorem scan_escape (hd : d.escapes = true) (e : UInt16) (cs : Text) :
    scan d (backslash :: e :: cs) = (scan d cs).map fun r => (unescape e ++ r.1, r.2) := by
  simp [scan, hd]

theorem scan_plain {c : UInt16} (h : ¬Special d c) (cs : Text) :
    scan d (c :: cs) = (scan d cs).map fun r => (c :: r.1, r.2) := by
  have hc : c ≠ quote := fun h' => h (Or.inl h')
  have hb : ¬(d.escapes = true ∧ c = backslash) := fun h' => h (Or.inr h')
  rw [scan.eq_def]
  simp only [if_neg hc, if_neg hb]

/-- What the lexer does behind an opening quote. -/
theorem lexFrom_lit (v cs : Text) :
    lexFrom d (.lit v) cs =
      (scan d cs).bind fun r => (lexFrom d .base r.2).map (Token.lit (v ++ r.1) :: ·) := by
  fun_induction scan d cs generalizing v with
  | case1 => rfl
  | case2 => simp [lexFrom, step, finish]
  | case3 cs ih =>
    have hstep : lexFrom d (.lit v) (quote :: quote :: cs) =
        lexFrom d (.lit (v ++ [quote])) cs := by
      simp [lexFrom, step]
    rw [hstep, ih]
    simp [Option.bind_map, Function.comp_def]
  | case4 c cs hc =>
    have hstep : lexFrom d (.lit v) (quote :: c :: cs) =
        finish (run d (stepBase ([.lit v] ++ []) c) cs) := by
      simp [lexFrom, step, hc]
    rw [hstep, stepBase_append]
    show finish (run d (_ ++ _, _) cs) = _
    rw [run_append_tokens, finish_append]
    simp [lexFrom, step]
  | case5 c hc hesc => simp [lexFrom, step, finish, hesc]
  | case6 c hc hesc e cs ih =>
    have hstep : lexFrom d (.lit v) (c :: e :: cs) = lexFrom d (.lit (v ++ unescape e)) cs := by
      simp [lexFrom, step, hesc]
    rw [hstep, ih]
    simp [Option.bind_map, Function.comp_def]
  | case7 c cs hc hesc ih =>
    have hstep : lexFrom d (.lit v) (c :: cs) = lexFrom d (.lit (v ++ [c])) cs := by
      simp [lexFrom, step, hc, hesc]
    rw [hstep, ih]
    simp [Option.bind_map, Function.comp_def]

/-! ## Pasted text -/

theorem not_plain_quote (cs : Text) : ¬Plain d (quote :: cs) := by
  rw [Plain.eq_def]
  simp

theorem plain_escape (hd : d.escapes = true) (e : UInt16) (cs : Text) :
    Plain d (backslash :: e :: cs) ↔ (e = 37 ∨ e = 95) ∧ Plain d cs := by
  simp [Plain, hd]

theorem plain_cons {c : UInt16} (h : ¬Special d c) (cs : Text) :
    Plain d (c :: cs) ↔ Plain d cs := by
  have hc : c ≠ quote := fun h' => h (Or.inl h')
  have hb : ¬(d.escapes = true ∧ c = backslash) := fun h' => h (Or.inr h')
  rw [Plain.eq_def]
  simp only [if_neg hc, if_neg hb]

/-- Text without anything special. -/
theorem plain_of_forall {cs : Text} (h : ∀ c ∈ cs, ¬Special d c) : Plain d cs := by
  induction cs with
  | nil => trivial
  | cons c cs ih =>
    rw [plain_cons (h c List.mem_cons_self)]
    exact ih fun c hmem => h c (List.mem_cons_of_mem _ hmem)

/-- An escape stands for itself or for one code unit, and for a special one
only if that was escaped. -/
theorem unescape_cases (e : UInt16) :
    (∃ c, unescape e = [c] ∧ (Special d c → c = e)) ∨
      (e = 37 ∨ e = 95) ∧ unescape e = [backslash, e] := by
  have hcontrol : ∀ c : UInt16, c ≠ 39 → c ≠ 92 → (Special d c → c = e) := by
    intro c hq hb h
    rcases h with hc | ⟨-, hc⟩
    · exact absurd hc hq
    · exact absurd hc hb
  unfold unescape
  split
  · exact Or.inl ⟨0, rfl, hcontrol 0 (by decide) (by decide)⟩
  split
  · exact Or.inl ⟨8, rfl, hcontrol 8 (by decide) (by decide)⟩
  split
  · exact Or.inl ⟨10, rfl, hcontrol 10 (by decide) (by decide)⟩
  split
  · exact Or.inl ⟨13, rfl, hcontrol 13 (by decide) (by decide)⟩
  split
  · exact Or.inl ⟨9, rfl, hcontrol 9 (by decide) (by decide)⟩
  split
  · exact Or.inl ⟨26, rfl, hcontrol 26 (by decide) (by decide)⟩
  split
  · next he => exact Or.inr ⟨he, rfl⟩
  · exact Or.inl ⟨e, rfl, fun _ => rfl⟩

variable {rest : Text}

/-- Plain text, then the quote that closes the literal. -/
theorem scan_of_plain {u : Text} (hu : Plain d u) (hrest : rest.head? ≠ some quote) :
    scan d (u ++ quote :: rest) = some (u, rest) := by
  fun_induction Plain d u with
  | case1 => exact scan_quote hrest
  | case2 => exact hu.elim
  | case3 => exact hu.elim
  | case4 c hc hesc e cs ih =>
    rcases hesc with ⟨hd, rfl⟩
    have hstands : unescape e = [backslash, e] := by
      rcases hu.1 with rfl | rfl <;> rfl
    show scan d (backslash :: e :: (cs ++ quote :: rest)) = _
    rw [scan_escape hd, ih hu.2, hstands]
    rfl
  | case5 c cs hc hesc ih =>
    show scan d (c :: (cs ++ quote :: rest)) = _
    rw [scan_plain (not_or_intro hc hesc), ih hu]
    rfl

/-- How the value of a literal can start with something special: it was
doubled or escaped, or it is the backslash of an escape that stands for
itself. -/
theorem scan_special {c s : UInt16} {cs v r : Text} (hs : Special d s)
    (h : scan d (c :: cs) = some (s :: v, r)) :
    ∃ e cs', cs = e :: cs' ∧ Special d c ∧
      (e = s ∧ scan d cs' = some (v, r) ∨
        (d.escapes = true ∧ c = backslash) ∧ (e = 37 ∨ e = 95) ∧
          ∃ v', v = e :: v' ∧ scan d cs' = some (v', r)) := by
  by_cases hc : Special d c
  · rcases hc with rfl | ⟨hd, rfl⟩
    · cases cs with
      | nil => simp [scan] at h
      | cons e cs =>
        by_cases he : e = quote
        · subst he
          rw [scan_quote_quote, Option.map_eq_some_iff] at h
          rcases h with ⟨⟨v', r'⟩, hscan, hv⟩
          cases hv
          exact ⟨quote, cs, rfl, Or.inl rfl, Or.inl ⟨rfl, hscan⟩⟩
        · rw [scan_quote (by simpa using he)] at h
          cases h
    · cases cs with
      | nil => simp [scan] at h
      | cons e cs =>
        rw [scan_escape hd, Option.map_eq_some_iff] at h
        rcases h with ⟨⟨v', r'⟩, hscan, hv⟩
        refine ⟨e, cs, rfl, Or.inr ⟨hd, rfl⟩, ?_⟩
        rcases unescape_cases (d := d) e with ⟨c, hc, hspec⟩ | ⟨he, hstands⟩
        · simp only [hc, List.singleton_append, Prod.mk.injEq, List.cons.injEq] at hv
          rcases hv with ⟨⟨rfl, rfl⟩, rfl⟩
          exact Or.inl ⟨(hspec hs).symm, hscan⟩
        · simp only [hstands, List.cons_append, List.nil_append, Prod.mk.injEq,
            List.cons.injEq] at hv
          rcases hv with ⟨⟨-, rfl⟩, rfl⟩
          exact Or.inr ⟨⟨hd, rfl⟩, he, v', rfl, hscan⟩
  · rw [scan_plain hc, Option.map_eq_some_iff] at h
    rcases h with ⟨⟨v', r'⟩, -, hv⟩
    cases hv
    exact absurd hs hc

theorem special_quote : Special d quote := Or.inl rfl

theorem not_special_wildcard {e : UInt16} (he : e = 37 ∨ e = 95) : ¬Special d e := by
  rcases he with rfl | rfl
  all_goals
    intro h
    rcases h with h | ⟨-, h⟩
    · exact absurd h (by decide)
    · exact absurd h (by decide)

/-- Behind the closing quote of the template comes nothing special, so no
literal that has run past it starts with something special. -/
theorem scan_rest_ne (hrest : ∀ c, rest.head? = some c → ¬Special d c) {q r : Text}
    (hq : q ≠ []) (hspec : ∀ c ∈ q, Special d c) : scan d rest ≠ some (q, r) := by
  intro h
  cases rest with
  | nil => cases h
  | cons x rest =>
    cases q with
    | nil => exact hq rfl
    | cons s q =>
      rcases scan_special (hspec s List.mem_cons_self) h with ⟨_, _, -, hx, -⟩
      exact hrest x rfl hx

/-- Once something was read that does not stand for itself, the literal lags
behind the text.  What it lags behind by, `q`, is special, and it never
catches up. -/
theorem scan_ne (hrest : ∀ c, rest.head? = some c → ¬Special d c) (w r : Text) {q : Text}
    (hq : q ≠ []) (hspec : ∀ c ∈ q, Special d c) :
    scan d (w ++ quote :: rest) ≠ some (q ++ w, r) := by
  have hend : rest.head? ≠ some quote := fun h => hrest quote h special_quote
  induction w using List.twoStepInduction generalizing q with
  | nil =>
    intro h
    rw [List.nil_append, scan_quote hend, List.append_nil] at h
    cases h
    exact hq rfl
  | singleton c =>
    intro h
    cases q with
    | nil => exact hq rfl
    | cons s q =>
      rcases scan_special (hspec s List.mem_cons_self) h with ⟨e, cs, hcs, hc, hnext⟩
      cases hcs
      rcases hnext with ⟨-, hscan⟩ | ⟨-, he, -⟩
      · refine scan_rest_ne hrest (by simp) ?_ hscan
        intro x hx
        rcases List.mem_append.mp hx with hx | hx
        · exact hspec x (List.mem_cons_of_mem _ hx)
        · rw [List.mem_singleton.mp hx]
          exact hc
      · exact not_special_wildcard (d := d) he special_quote
  | cons_cons c e w ih _ =>
    intro h
    cases q with
    | nil => exact hq rfl
    | cons s q =>
      rcases scan_special (hspec s List.mem_cons_self) h with ⟨e', cs, hcs, hc, hnext⟩
      cases hcs
      have hq' : ∀ x ∈ q ++ [c], Special d x := by
        intro x hx
        rcases List.mem_append.mp hx with hx | hx
        · exact hspec x (List.mem_cons_of_mem _ hx)
        · rw [List.mem_singleton.mp hx]
          exact hc
      rcases hnext with ⟨he, hscan⟩ | ⟨-, he, v, hv, -⟩
      · -- the lag is now the rest of `q` with what was just read
        refine ih (q := (q ++ [c]) ++ [e]) (by simp) ?_ (by simpa using hscan)
        intro x hx
        rcases List.mem_append.mp hx with hx | hx
        · exact hq' x hx
        · rw [List.mem_singleton.mp hx, he]
          exact hspec s List.mem_cons_self
      · refine not_special_wildcard he (hq' e ?_)
        cases q with
        | nil =>
          cases hv
          exact List.mem_cons_self
        | cons x q =>
          cases hv
          exact List.mem_cons_self

/-- Only plain text is read back as it is. -/
theorem plain_of_scan (hrest : ∀ c, rest.head? = some c → ¬Special d c) {u r : Text}
    (h : scan d (u ++ quote :: rest) = some (u, r)) : Plain d u := by
  induction u using List.twoStepInduction generalizing r with
  | nil => trivial
  | singleton c =>
    by_cases hc : Special d c
    · rcases scan_special hc h with ⟨e, cs, hcs, -, hnext⟩
      cases hcs
      rcases hnext with ⟨-, hscan⟩ | ⟨-, he, -⟩
      · cases rest with
        | nil => cases hscan
        | cons x rest =>
          rw [scan_plain (hrest x rfl), Option.map_eq_some_iff] at hscan
          rcases hscan with ⟨_, -, hv⟩
          cases hv
      · exact absurd special_quote (not_special_wildcard (d := d) he)
    · rw [plain_cons hc]
      trivial
  | cons_cons c e w ih ihc =>
    by_cases hc : Special d c
    · rcases scan_special hc h with ⟨e', cs, hcs, -, hnext⟩
      cases hcs
      rcases hnext with ⟨rfl, hscan⟩ | ⟨⟨hd, rfl⟩, he, v, hv, hscan⟩
      · exact absurd hscan (scan_ne hrest w r (q := [e]) (by simp) (by simpa using hc))
      · cases hv
        exact (plain_escape hd e w).mpr ⟨he, ih hscan⟩
    · rw [plain_cons hc]
      have hscan : scan d (c :: (e :: w ++ quote :: rest)) = some (c :: e :: w, r) := h
      rw [scan_plain hc, Option.map_eq_some_iff] at hscan
      rcases hscan with ⟨⟨v', r'⟩, hscan, hv⟩
      cases hv
      exact ihc e hscan

/-- Text between the two quotes of a literal: it is the value of the
literal if and only if it is plain. -/
theorem scan_append_iff (hrest : ∀ c, rest.head? = some c → ¬Special d c) (u r : Text) :
    scan d (u ++ quote :: rest) = some (u, r) ↔ Plain d u ∧ r = rest := by
  have hend : rest.head? ≠ some quote := fun h => hrest quote h special_quote
  constructor
  · intro h
    have hplain := plain_of_scan hrest h
    rw [scan_of_plain hplain hend] at h
    cases h
    exact ⟨hplain, rfl⟩
  · intro h
    rcases h with ⟨hplain, rfl⟩
    exact scan_of_plain hplain hend

/-- The same of the lexer: the pasted text is one literal, and the tokens
behind it are those of the template. -/
theorem lexFrom_lit_iff (hrest : ∀ c, rest.head? = some c → ¬Special d c) (u : Text)
    (toks : List Token) :
    lexFrom d (.lit []) (u ++ quote :: rest) = some (.lit u :: toks) ↔
      Plain d u ∧ lexFrom d .base rest = some toks := by
  rw [lexFrom_lit]
  constructor
  · intro h
    rcases Option.bind_eq_some_iff.mp h with ⟨⟨v, r⟩, hscan, hmap⟩
    rcases Option.map_eq_some_iff.mp hmap with ⟨toks', htoks, heq⟩
    cases heq
    rcases (scan_append_iff hrest _ r).mp hscan with ⟨hplain, rfl⟩
    exact ⟨hplain, htoks⟩
  · intro h
    rcases h with ⟨hplain, htoks⟩
    rw [(scan_append_iff hrest u rest).mpr ⟨hplain, rfl⟩]
    show (lexFrom d .base rest).map _ = _
    rw [htoks]
    rfl

end

/-! ## Fixed text around literals -/

/-- Fixed text up to the opening quote of a literal. -/
def Opens (cs : Text) (toks : List Token) : Prop :=
  ∀ d, run d ([], .base) cs = (toks, .lit [])

/-- Text that starts with a quote, which what comes next does not double. -/
def Ends (cs : Text) : Prop :=
  cs.head? = some quote ∧ cs.tail.head? ≠ some quote ∧ cs.tail.head? ≠ some backslash

/-- Fixed text between two literals, with both quotes. -/
def Bridges (cs : Text) (toks : List Token) : Prop :=
  Ends cs ∧ cs.tail ≠ [] ∧ Opens cs.tail toks

/-- Fixed text behind the last literal, with its quote. -/
def Closes (cs : Text) (toks : List Token) : Prop :=
  Ends cs ∧ ∀ d, lex d cs.tail = some toks

theorem forall_dialect {p : Dialect → Prop} : (p ⟨true⟩ ∧ p ⟨false⟩) ↔ ∀ d, p d :=
  ⟨fun h d => match d with
    | ⟨true⟩ => h.1
    | ⟨false⟩ => h.2, fun h => ⟨h _, h _⟩⟩

instance (cs : Text) (toks : List Token) : Decidable (Opens cs toks) :=
  decidable_of_iff _ forall_dialect

instance (cs : Text) : Decidable (Ends cs) := inferInstanceAs (Decidable (_ ∧ _ ∧ _))

instance (cs : Text) (toks : List Token) : Decidable (Bridges cs toks) :=
  inferInstanceAs (Decidable (_ ∧ _ ∧ _))

instance (cs : Text) (toks : List Token) : Decidable (∀ d, lex d cs = some toks) :=
  decidable_of_iff _ forall_dialect

instance (cs : Text) (toks : List Token) : Decidable (Closes cs toks) :=
  inferInstanceAs (Decidable (_ ∧ _))

section

variable {d : Dialect} {cs cs' : Text} {toks toks' : List Token}

theorem not_special {c : UInt16} (h : c ≠ quote ∧ c ≠ backslash) : ¬Special d c := by
  intro h
  rcases h with hc | ⟨-, hc⟩
  · exact h.1 hc
  · exact h.2 hc

theorem Opens.iff (h : Opens cs toks) :
    lexFrom d .base (cs ++ cs') = some (toks ++ toks') ↔
      lexFrom d (.lit []) cs' = some toks' := by
  rw [lexFrom_append (h d)]
  constructor
  · intro hmap
    rcases Option.map_eq_some_iff.mp hmap with ⟨_, hcs, heq⟩
    rw [hcs, List.append_cancel_left heq]
  · intro hcs
    rw [hcs]
    rfl

theorem Ends.eq_cons (h : Ends cs) : cs = quote :: cs.tail :=
  (List.cons_head?_tail h.1).symm

theorem Ends.not_special (h : Ends cs) {c : UInt16} (hc : cs.tail.head? = some c) :
    ¬Special d c := by
  intro h
  rcases h with rfl | ⟨-, rfl⟩
  · exact h.2.1 hc
  · exact h.2.2 hc

theorem Bridges.head (h : Bridges cs toks) (cs' : Text) {c : UInt16}
    (hc : (cs.tail ++ cs').head? = some c) : ¬Special d c := by
  rw [List.head?_append_of_ne_nil _ h.2.1] at hc
  exact h.1.not_special hc

theorem Bridges.iff (h : Bridges cs toks) (u : Text) :
    lexFrom d (.lit []) (u ++ (cs ++ cs')) = some (.lit u :: (toks ++ toks')) ↔
      Plain d u ∧ lexFrom d (.lit []) cs' = some toks' := by
  rw [h.1.eq_cons, List.cons_append, lexFrom_lit_iff fun _ => h.head cs', h.2.2.iff]

theorem Closes.iff (h : Closes cs toks) (u : Text) :
    lexFrom d (.lit []) (u ++ cs) = some (.lit u :: toks) ↔ Plain d u := by
  rw [h.1.eq_cons, lexFrom_lit_iff fun c hc => h.1.not_special hc]
  exact and_iff_left (h.2 d)

end

end SqlLex
