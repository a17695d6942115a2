import OCServer.Lib.Fuel
import OCServer.Lib.Incremental
import OCServer.Tls.Queue

/-!
# The live connections of a TLS context

`evt_ctx_get_tls` makes a connection and appends it to the list `live_con` of its
context, `evt_tls_free` takes it out of that list, and `evt_ctx_free` walks the
list and shuts every connection down.

`Registry` says what the list is for: the connections that have been made and not
been freed, in the order in which they were made.  `run_iff` says that the list in
memory is that registry after any run, and that the only undefined runs are those
that free a connection twice.

The walk of `evt_ctx_free` goes on from the connection that it has just shut
down.  `session_yields` says when that is still there: if and only if no close
callback frees its own connection.
-/

namespace OCServer.Tls

open Ring Incremental

/-- What the libraries answer to `evt_ctx_get_tls`. -/
structure GetAnswers where
  malloc : Bool
  sslNew : Bool
  bioPair : Bool
  deriving DecidableEq, Repr

/-- The address of `live_con`. -/
abbrev liveCon : Nat := 0

/-- The calls for a context.  Its own list is not a connection. -/
inductive CtxEvent
  | getTls (answers : GetAnswers)
  | free (con : Nat) (hne : con ≠ liveCon)
  deriving DecidableEq, Repr

/-- A context with the node of its list, as `malloc` gave it, in memory. -/
def blankNodes (garbage : Queue) : Nodes := (Heap.empty.alloc garbage).2

/-- `evt_ctx_init`, as far as the list is concerned. -/
def evt_ctx_init (garbage : Queue) : Except Fault Nodes := QUEUE_INIT (blankNodes garbage) liveCon

/-- `evt_ctx_get_tls`.  The connection is found at the address of its queue node. -/
def evt_ctx_get_tls (m : Nodes) (answers : GetAnswers) : Except Fault (Nodes × Option Nat) :=
  if ¬answers.malloc then .ok (m, none)
  else do
    let con := (m.alloc ⟨0, 0⟩).1
    let m := (m.alloc ⟨0, 0⟩).2
    if ¬answers.sslNew ∨ ¬answers.bioPair then
      let m ← m.free con
      pure (m, none)
    else
      let m ← QUEUE_INIT m con
      let m ← QUEUE_INSERT_TAIL m liveCon con
      pure (m, some con)

/-- `evt_tls_free`.  Its first access is to the fields of the connection. -/
def evt_tls_free (m : Nodes) (con : Nat) : Except Fault Nodes := do
  let _ ← m.get con
  let m ← QUEUE_REMOVE m con
  let m ← QUEUE_INIT m con
  m.free con

/-- One call, and the connection that it returns. -/
def step (m : Nodes) : CtxEvent → Except Fault (Nodes × List Nat)
  | .getTls answers => do
    let (m, con) ← evt_ctx_get_tls m answers
    pure (m, con.toList)
  | .free con _ => do
    let m ← evt_tls_free m con
    pure (m, [])

abbrev run : Nodes → List CtxEvent → Except Fault (Nodes × List Nat) := feedAll step

/-- `evt_ctx_free`: the walk over the list, from `q` on, with the connections that it shuts
down.  `closeFrees` says which close callbacks free their connection. -/
def shutdowns (closeFrees : Nat → Bool) : Nat → Nodes → Nat → Except Fault (List Nat)
  | 0, _, _ => .error .outOfFuel
  | fuel + 1, m, q =>
    if q = liveCon then .ok []
    else do
      let _ ← m.get q
      let m ← if closeFrees q then evt_tls_free m q else pure m
      let behind ← QUEUE_NEXT m q
      let rest ← shutdowns closeFrees fuel m behind
      pure (q :: rest)

def evt_ctx_free (closeFrees : Nat → Bool) (fuel : Nat) (m : Nodes) : Except Fault (List Nat) := do
  let q ← QUEUE_NEXT m liveCon
  shutdowns closeFrees fuel m q

/-! ## What the list is for -/

/-- The connections that have been made and not been freed. -/
structure Registry where
  live : List Nat
  made : Nat
  deriving DecidableEq, Repr

/-- One call.  The memory of a new connection is memory that no other one has had. -/
def Registry.step (r : Registry) : CtxEvent → Option Registry
  | .getTls answers =>
    if ¬answers.malloc then some r
    else if ¬answers.sslNew ∨ ¬answers.bioPair then some { r with made := r.made + 1 }
    else some ⟨r.live ++ [r.made], r.made + 1⟩
  | .free con _ => if con ∈ r.live then some { r with live := r.live.erase con } else none

def Registry.run (r : Registry) (es : List CtxEvent) : Option Registry := es.foldlM Registry.step r

/-- No connection has been made. -/
def Registry.start : Registry := ⟨[], 1⟩

/-- The list in memory is the registry, and there are no other nodes. -/
structure Represents (m : Nodes) (r : Registry) : Prop where
  holds : Holds m liveCon r.live
  next : m.next = r.made
  gone : ∀ a, a ∉ liveCon :: r.live → m.cell a = none

section

variable {m m' : Nodes} {r r' : Registry}

theorem Represents.lt (h : Represents m r) {a : Nat} (ha : a ∈ liveCon :: r.live) : a < r.made := by
  by_contra hge
  have hcell := m.fresh a (by rw [h.next]; omega)
  have hsome := h.holds.isSome ha
  rw [hcell] at hsome
  cases hsome

/-- The context is set up with an empty registry. -/
theorem represents_init (garbage : Queue) :
    ∃ m, evt_ctx_init garbage = .ok m ∧ Represents m Registry.start := by
  have hcell : (blankNodes garbage).cell liveCon = some garbage :=
    Heap.alloc_cell_self Heap.empty garbage
  obtain ⟨m, hm, hholds, hsame, _⟩ := QUEUE_INIT_spec (m := blankNodes garbage) (q := liveCon) (by
    rw [hcell]
    rfl)
  refine ⟨m, hm, hholds, hsame.1, ?_⟩
  intro a ha
  have hne : a ≠ liveCon := fun heq => ha (heq ▸ List.mem_cons_self)
  have hnone : (blankNodes garbage).cell a = none := by
    rw [blankNodes, Heap.alloc_cell_of_ne hne]
    rfl
  have hsome := hsame.2 a
  rw [hnone] at hsome
  exact Option.isNone_iff_eq_none.mp (by simpa using hsome)

/-- Making a connection. -/
theorem Represents.getTls (h : Represents m r) (answers : GetAnswers) :
    ∃ m' r' con, evt_ctx_get_tls m answers = .ok (m', con) ∧
      r.step (.getTls answers) = some r' ∧ Represents m' r' := by
  unfold evt_ctx_get_tls Registry.step
  by_cases hmalloc : answers.malloc = true
  swap
  · exact ⟨m, r, none, if_pos hmalloc, if_pos hmalloc, h⟩
  have hnew : m.next ∉ liveCon :: r.live := fun hmem => by
    have hlt := h.lt hmem
    rw [← h.next] at hlt
    exact Nat.lt_irrefl _ hlt
  have hother : ∀ a ∈ liveCon :: r.live, (m.alloc ⟨0, 0⟩).2.cell a = m.cell a := fun a ha =>
    Heap.alloc_cell_of_ne fun heq => hnew (heq ▸ ha)
  have hself : (m.alloc ⟨0, 0⟩).2.cell m.next = some ⟨0, 0⟩ := Heap.alloc_cell_self m _
  have hholds : Holds (m.alloc ⟨0, 0⟩).2 liveCon r.live := h.holds.other hother
  have hgone : ∀ a, a ∉ liveCon :: r.live → a ≠ m.next → (m.alloc ⟨0, 0⟩).2.cell a = none := by
    intro a ha hne
    rw [Heap.alloc_cell_of_ne hne, h.gone a ha]
  simp only [hmalloc, not_true, if_false]
  by_cases hfail : ¬answers.sslNew ∨ ¬answers.bioPair
  · rw [if_pos hfail, if_pos hfail]
    refine ⟨(m.alloc ⟨0, 0⟩).2.modify m.next fun _ => none, { r with made := r.made + 1 }, none, ?_,
      rfl, ⟨?_, ?_, ?_⟩⟩
    · show (Heap.free _ m.next >>= _) = _
      rw [Heap.free_eq hself]
      rfl
    · exact hholds.other fun a ha => Heap.modify_cell_of_ne fun heq => hnew (heq ▸ ha)
    · exact congrArg (· + 1) h.next
    · intro a ha
      by_cases hne : a = m.next
      · rw [hne, Heap.modify_cell_self hself]
      · rw [Heap.modify_cell_of_ne hne, hgone a ha hne]
  · rw [if_neg hfail, if_neg hfail]
    have hnode : ((m.alloc ⟨0, 0⟩).2.cell m.next).isSome := by
      rw [hself]
      rfl
    obtain ⟨m₁, h₁, _, hs₁, hn₁, hp₁⟩ := QUEUE_INIT_spec hnode
    have hholds₁ : Holds m₁ liveCon r.live := hholds.updated hnew hn₁ hp₁
    obtain ⟨m₂, h₂, hholds₂, hs₂⟩ :=
      QUEUE_INSERT_TAIL_spec hholds₁ (by rw [hs₁.2, hnode]) hnew
    refine ⟨m₂, ⟨r.live ++ [r.made], r.made + 1⟩, some m.next, ?_, rfl, ⟨?_, ?_, ?_⟩⟩
    · show (QUEUE_INIT _ m.next >>= _) = _
      rw [h₁]
      show (QUEUE_INSERT_TAIL m₁ liveCon m.next >>= _) = _
      rw [h₂]
      rfl
    · rw [← h.next]
      exact hholds₂
    · rw [hs₂.1, hs₁.1]
      exact congrArg (· + 1) h.next
    · intro a ha
      rw [← h.next] at ha
      have hne : a ≠ m.next := by
        rintro rfl
        exact ha (List.mem_cons_of_mem _ (List.mem_append_right _ List.mem_cons_self))
      have hmem : a ∉ liveCon :: r.live := fun hm => ha (by
        rw [← List.cons_append]
        exact List.mem_append_left _ hm)
      have hsome := (hs₂.2 a).trans (hs₁.2 a)
      rw [hgone a hmem hne] at hsome
      exact Option.isNone_iff_eq_none.mp (by simpa using hsome)

/-- Freeing a live connection. -/
theorem Represents.freed (h : Represents m r) {con : Nat} (hcon : con ∈ r.live) :
    ∃ m', evt_tls_free m con = .ok m' ∧ Represents m' { r with live := r.live.erase con } ∧
      m'.cell con = none := by
  obtain ⟨l₁, l₂, hl⟩ := List.append_of_mem hcon
  have hnd := h.holds.nodup_tail
  have hhead := h.holds.head_notMem
  have hholds := h.holds
  rw [hl] at hholds hnd hhead
  have hne : con ≠ liveCon := by
    rintro rfl
    exact hhead (by simp)
  have hnot : con ∉ l₁ ∧ con ∉ l₂ := by
    have hsplit := List.nodup_append.mp hnd
    exact ⟨fun hm => hsplit.2.2 con hm con List.mem_cons_self rfl,
      (List.nodup_cons.mp hsplit.2.1).1⟩
  have herase : r.live.erase con = l₁ ++ l₂ := by
    rw [hl, List.erase_append_right _ hnot.1, List.erase_cons_head]
  have hnew : con ∉ liveCon :: (l₁ ++ l₂) := by
    simp only [List.mem_cons, List.mem_append, not_or]
    exact ⟨hne, hnot⟩
  have hcell : (m.cell con).isSome := h.holds.isSome (List.mem_cons_of_mem _ hcon)
  obtain ⟨node, hnode⟩ := Option.isSome_iff_exists.mp hcell
  obtain ⟨m₁, h₁, hholds₁, hs₁⟩ := QUEUE_REMOVE_spec hholds
  obtain ⟨m₂, h₂, _, hs₂, hn₂, hp₂⟩ := QUEUE_INIT_spec (m := m₁) (q := con) (by rw [hs₁.2, hcell])
  have hcell₂ : (m₂.cell con).isSome := by rw [hs₂.2, hs₁.2, hcell]
  obtain ⟨node₂, hnode₂⟩ := Option.isSome_iff_exists.mp hcell₂
  have hholds₂ : Holds m₂ liveCon (l₁ ++ l₂) := hholds₁.updated hnew hn₂ hp₂
  refine ⟨m₂.modify con fun _ => none, ?_, ⟨?_, ?_, ?_⟩, Heap.modify_cell_self hnode₂⟩
  · rw [evt_tls_free, Heap.get_eq hnode]
    show (QUEUE_REMOVE m con >>= _) = _
    rw [h₁]
    show (QUEUE_INIT m₁ con >>= _) = _
    rw [h₂]
    exact Heap.free_eq hnode₂
  · show Holds _ liveCon (r.live.erase con)
    rw [herase]
    exact hholds₂.other fun a ha => Heap.modify_cell_of_ne fun heq => hnew (heq ▸ ha)
  · exact (hs₂.1.trans hs₁.1).trans h.next
  · intro a ha
    by_cases hac : a = con
    · rw [hac, Heap.modify_cell_self hnode₂]
    · rw [Heap.modify_cell_of_ne hac]
      have hmem : a ∉ liveCon :: r.live := by
        intro hm
        refine ha (List.mem_cons.mpr ((List.mem_cons.mp hm).imp_right fun hm => ?_))
        exact (List.mem_erase_of_ne hac).mpr hm
      have hsome := (hs₂.2 a).trans (hs₁.2 a)
      rw [h.gone a hmem] at hsome
      exact Option.isNone_iff_eq_none.mp (by simpa using hsome)

/-- Freeing anything else. -/
theorem Represents.free_error (h : Represents m r) {con : Nat} (hcon : con ∉ liveCon :: r.live) :
    evt_tls_free m con = .error .outOfBounds := by
  rw [evt_tls_free, Heap.get, h.gone con hcon]
  rfl

/-- One call that the registry takes. -/
theorem Represents.step_some (h : Represents m r) {e : CtxEvent} (he : r.step e = some r') :
    ∃ m' out, step m e = .ok (m', out) ∧ Represents m' r' := by
  cases e with
  | getTls answers =>
    obtain ⟨m', r₁, con, hget, hr₁, hm'⟩ := h.getTls answers
    rw [hr₁] at he
    cases he
    refine ⟨m', con.toList, ?_, hm'⟩
    rw [step, hget]
    rfl
  | free con hne =>
    rw [Registry.step] at he
    split_ifs at he with hcon
    cases he
    obtain ⟨m', hfree, hm', _⟩ := h.freed hcon
    refine ⟨m', [], ?_, hm'⟩
    rw [step, hfree]
    rfl

/-- One call that it does not take. -/
theorem Represents.step_none (h : Represents m r) {e : CtxEvent} (he : r.step e = none) :
    step m e = .error .outOfBounds := by
  cases e with
  | getTls answers =>
    obtain ⟨_, _, _, _, hr₁, _⟩ := h.getTls answers
    rw [hr₁] at he
    cases he
  | free con hne =>
    rw [Registry.step] at he
    split_ifs at he with hcon
    rw [step, h.free_error fun hm => (List.mem_cons.mp hm).elim hne hcon]
    rfl

/-- A run of calls. -/
theorem Represents.run (h : Represents m r) (es : List CtxEvent) :
    match r.run es with
    | some r' => ∃ m' out, run m es = .ok (m', out) ∧ Represents m' r'
    | none => Tls.run m es = .error .outOfBounds := by
  induction es generalizing m r with
  | nil => exact ⟨m, [], rfl, h⟩
  | cons e es ih =>
    rw [Registry.run, List.foldlM_cons]
    cases he : r.step e with
    | none =>
      show Tls.run m (e :: es) = _
      rw [Tls.run, feedAll, h.step_none he]
      rfl
    | some r₁ =>
      obtain ⟨m₁, out, hstep, hm₁⟩ := h.step_some he
      have hrest := ih hm₁
      show match r₁.run es with
        | some r' => ∃ m' out, Tls.run m (e :: es) = .ok (m', out) ∧ Represents m' r'
        | none => Tls.run m (e :: es) = .error .outOfBounds
      cases hr : r₁.run es with
      | none =>
        rw [hr] at hrest
        have hrest : feedAll step m₁ es = .error .outOfBounds := hrest
        rw [Tls.run, feedAll, hstep]
        show (feedAll step m₁ es >>= _) = _
        rw [hrest]
        rfl
      | some r' =>
        rw [hr] at hrest
        obtain ⟨m', out', hrun, hm'⟩ := hrest
        exact ⟨m', out ++ out', feedAll_cons hstep hrun, hm'⟩

/-- The walk of `evt_ctx_free` behind the connections `l₁`. -/
theorem Represents.shutdowns (h : Represents m r) (closeFrees : Nat → Bool) {l₁ l₂ : List Nat}
    (hl : r.live = l₁ ++ l₂) {q : Nat} {t : List Nat} (hq : l₂ ++ [liveCon] = q :: t) {fuel : Nat}
    (hfuel : l₂.length < fuel) :
    Tls.shutdowns closeFrees fuel m q =
      if l₂.all fun c => !closeFrees c then .ok l₂ else .error .outOfBounds := by
  induction l₂ generalizing l₁ q t fuel with
  | nil =>
    obtain ⟨fuel, rfl⟩ : ∃ n, fuel = n + 1 := ⟨fuel - 1, by omega⟩
    cases hq
    rfl
  | cons c l₂ ih =>
    obtain ⟨fuel, rfl⟩ : ∃ n, fuel = n + 1 := ⟨fuel - 1, by omega⟩
    obtain ⟨rfl, _⟩ := List.cons.inj hq
    have hmem : c ∈ r.live := by
      rw [hl]
      simp
    have hne : c ≠ liveCon := fun heq => h.holds.head_notMem (heq ▸ hmem)
    obtain ⟨node, hnode⟩ :=
      Option.isSome_iff_exists.mp (h.holds.isSome (List.mem_cons_of_mem _ hmem))
    rw [Tls.shutdowns, if_neg hne, Heap.get_eq hnode]
    by_cases hclose : closeFrees c = true
    · -- the node that the walk goes on from is gone
      obtain ⟨m', hfree, _, hgone⟩ := h.freed hmem
      rw [if_pos hclose]
      show (evt_tls_free m c >>= _) = _
      rw [hfree]
      show (QUEUE_NEXT m' c >>= _) = _
      rw [QUEUE_NEXT_error hgone, if_neg (by simp [hclose])]
      rfl
    · obtain ⟨z, t', hz⟩ := Cycle.exists_after l₂ liveCon
      have hholds := h.holds
      rw [hl] at hholds
      have hnext : QUEUE_NEXT m c = .ok z := QUEUE_NEXT_eq (hholds.next_of_split hz)
      have hlen : l₂.length < fuel := by
        rw [List.length_cons] at hfuel
        omega
      have hsplit : r.live = (l₁ ++ [c]) ++ l₂ := by
        rw [hl, List.append_assoc]
        rfl
      have hrest := ih hsplit hz hlen
      rw [if_neg hclose]
      show (QUEUE_NEXT m c >>= _) = _
      rw [hnext]
      show (Tls.shutdowns closeFrees fuel m z >>= _) = _
      rw [hrest, List.all_cons]
      simp only [hclose, Bool.not_false, Bool.true_and]
      split_ifs <;> rfl

end

/-- The calls, and then the end of the context. -/
def session (garbage : Queue) (es : List CtxEvent) (closeFrees : Nat → Bool) (fuel : Nat) :
    Except Fault (List Nat) := do
  let m ← evt_ctx_init garbage
  let (m, _) ← run m es
  evt_ctx_free closeFrees fuel m

/-- After any run of calls the list in memory is the registry, and a run that the registry
does not take is undefined. -/
theorem run_iff (garbage : Queue) (es : List CtxEvent) :
    ∃ m, evt_ctx_init garbage = .ok m ∧
      (∀ r, Registry.start.run es = some r →
        ∃ m' out, run m es = .ok (m', out) ∧ Represents m' r) ∧
      (Registry.start.run es = none → run m es = .error .outOfBounds) := by
  obtain ⟨m, hm, hstart⟩ := represents_init garbage
  have hrun := hstart.run es
  refine ⟨m, hm, ?_, ?_⟩
  · intro r hr
    rw [hr] at hrun
    exact hrun
  · intro hr
    rw [hr] at hrun
    exact hrun

/-- `evt_ctx_free` shuts the live connections down, each one once and the oldest one first, if
and only if no close callback frees its connection. -/
theorem session_yields (garbage : Queue) (es : List CtxEvent) (closeFrees : Nat → Bool) :
    Fuel.Yields (fun fuel es => session garbage es closeFrees fuel) es
      (match Registry.start.run es with
        | some r =>
          if r.live.all fun c => !closeFrees c then .ok r.live else .error .outOfBounds
        | none => .error .outOfBounds) := by
  obtain ⟨m, hm, hstart⟩ := represents_init garbage
  have hrun := hstart.run es
  cases hr : Registry.start.run es with
  | none =>
    rw [hr] at hrun
    refine ⟨0, fun fuel _ => ?_⟩
    show session garbage es closeFrees fuel = _
    rw [session, hm]
    show (run m es >>= _) = _
    rw [hrun]
    rfl
  | some r =>
    rw [hr] at hrun
    obtain ⟨m', out, hm', hrep⟩ := hrun
    obtain ⟨q, t, hq⟩ := Cycle.exists_after r.live liveCon
    have hfirst : nextOf m' liveCon = some q := by
      have hfwd := hrep.holds.fwd
      rw [hq] at hfwd
      exact (Path.cons_iff.mp hfwd).1
    refine ⟨r.live.length + 1, fun fuel hfuel => ?_⟩
    show session garbage es closeFrees fuel = _
    rw [session, hm]
    show (run m es >>= _) = _
    rw [hm']
    show (QUEUE_NEXT m' liveCon >>= _) = _
    rw [QUEUE_NEXT_eq hfirst]
    exact hrep.shutdowns closeFrees (List.nil_append r.live).symm hq (Nat.lt_of_succ_le hfuel)

end OCServer.Tls
