import Mathlib.Data.List.Nodup
import OCServer.Lib.Heap
import OCServer.UvNet.Model

/-!
# Sending

A model of the part of `uvnet` that sends: `sendinl`, `AfterSend` and the
list of the `write_param`s that can be used again (`src/src/uv_net.cpp`).

The `write_param`s and their buffers are in two heaps, in which no address
is handed out twice.  libuv keeps a copy of `buf` for each `uv_write` that
it has accepted and calls `AfterSend` for it, once, at any time later and
in any order; `Stop.notEnabled` says that there is no such call to make.
The step puts out what libuv is asked to write and what it has completed,
so that `uncompleted` can say what each request was issued with.

`sends_exclusive` is the result: no access in any run leaves its memory, and
the state after any run is `Exclusive`.
-/

namespace OCServer

open Machine

/-- The fields of `write_param` that the model uses: `buf.base`, `buf.len`,
and `write_req.data`, which has no value before the first send. -/
structure WriteParam where
  base : Nat
  len : Nat
  client : Option Nat
  deriving DecidableEq, Repr

/-- What libuv knows about a `uv_write`: its request, and its copy of `buf`. -/
structure UvWrite where
  req : Nat
  base : Nat
  len : Nat
  deriving DecidableEq, Repr

/-- Whether `realloc` can leave the buffer where it is, and what `uv_write`
returns. -/
structure SendAnswers where
  inPlace : Bool
  iret : Int
  deriving DecidableEq, Repr

inductive SendEvent
  | sendinl (senddata : List UInt8) (client : Nat) (answers : SendAnswers)
  | afterSend (req : Nat) (status : Int)

/-- What libuv has been asked to write, and what it has completed. -/
inductive SendOp
  | uvWrite (req : Nat) (senddata : List UInt8)
  | completed (req : Nat)
  deriving DecidableEq, Repr

/-- The fields of `uvnet` that sending uses, the memory, and the `uv_write`s
that libuv has not completed. -/
structure UvSend where
  writeparamList : List Nat
  params : Heap WriteParam
  buffers : Heap Block
  writes : List UvWrite

namespace UvSend

/-- The server after its construction. -/
def start : UvSend where
  writeparamList := []
  params := .empty
  buffers := .empty
  writes := []

/-- `AllocWriteParam`. -/
def allocWriteParam (s : UvSend) (suggestedSize : Nat) : Nat × UvSend :=
  let (base, buffers) := s.buffers.alloc (Block.malloc suggestedSize)
  let (w, params) := s.params.alloc ⟨base, suggestedSize, none⟩
  (w, { s with params := params, buffers := buffers })

/-- `FreeWriteParam`. -/
def freeWriteParam (s : UvSend) (w : Nat) : Except Fault UvSend := do
  let param ← s.params.get w
  let buffers ← s.buffers.free param.base
  let params ← s.params.free w
  pure { s with params := params, buffers := buffers }

/-- `writeparam_list.push_back`. -/
def pushBack (s : UvSend) (w : Nat) : UvSend :=
  { s with writeparamList := s.writeparamList ++ [w] }

/-- The first of `writeparam_list`, or a new one. -/
def takeWriteParam (s : UvSend) : Nat × UvSend :=
  match s.writeparamList with
  | [] => s.allocWriteParam 10240
  | w :: rest => (w, { s with writeparamList := rest })

/-- The branch of `sendinl` that makes the buffer longer: `buf.len` is taken
for the length of its memory. -/
def grow (s : UvSend) (w n : Nat) (inPlace : Bool) : Except Fault UvSend := do
  let writep ← s.params.get w
  if writep.len < n then
    let moved ← s.buffers.realloc writep.base n inPlace
    let params ← s.params.set w { writep with base := moved.1, len := n }
    pure { s with params := params, buffers := moved.2 }
  else pure s

/-- The `memcpy` of `sendinl`, and the fields that are set behind it. -/
def fill (s : UvSend) (w : Nat) (senddata : List UInt8) (client : Nat) :
    Except Fault UvSend := do
  let writep ← s.params.get w
  let buffers ← s.buffers.memcpy writep.base senddata
  let params ← s.params.set w { writep with len := senddata.length, client := some client }
  pure { s with params := params, buffers := buffers }

/-- The `uv_write` of `sendinl`, and what follows it. -/
def issue (s : UvSend) (w : Nat) (senddata : List UInt8) (iret : Int) :
    Except Fault (Bool × UvSend × List SendOp) := do
  let writep ← s.params.get w
  if iret ≠ 0 then pure (false, s.pushBack w, [])
  else
    let write := ⟨w, writep.base, writep.len⟩
    pure (true, { s with writes := s.writes ++ [write] }, [.uvWrite w senddata])

/-- What `sendinl` does with the `write_param` that it has taken. -/
def sendWith (s : UvSend) (w : Nat) (senddata : List UInt8) (client : Nat)
    (answers : SendAnswers) : Except Fault (Bool × UvSend × List SendOp) := do
  let s ← s.grow w senddata.length answers.inPlace
  let s ← s.fill w senddata client
  s.issue w senddata answers.iret

/-- `sendinl`. -/
def sendinl (s : UvSend) (senddata : List UInt8) (client : Nat) (answers : SendAnswers) :
    Except Fault (Bool × UvSend × List SendOp) :=
  if senddata.isEmpty then pure (true, s, [])
  else
    let (w, s) := s.takeWriteParam
    s.sendWith w senddata client answers

/-- `AfterSend`, which finds the server through the client of the request. -/
def afterSend (s : UvSend) (w : Nat) : Except Fault UvSend := do
  let param ← s.params.get w
  match param.client with
  | none => .error .uninitialised
  | some _ =>
    if s.writeparamList.length > Uvnet.backlog then s.freeWriteParam w
    else pure (s.pushBack w)

/-- libuv is done with the first request of that number. -/
def complete (s : UvSend) (w : Nat) : UvSend :=
  { s with writes := s.writes.eraseP (·.req == w) }

/-- One call. -/
def step (s : UvSend) : SendEvent → Except Stop (UvSend × List SendOp)
  | .sendinl senddata client answers =>
    match s.sendinl senddata client answers with
    | .error f => .error (.fault f)
    | .ok (_, s, ops) => .ok (s, ops)
  | .afterSend w _ =>
    if w ∈ s.writes.map UvWrite.req then
      match (s.complete w).afterSend w with
      | .error f => .error (.fault f)
      | .ok s => .ok (s, [.completed w])
    else .error .notEnabled

/-- A sequence of calls. -/
abbrev run : UvSend → List SendEvent → Except Stop (UvSend × List SendOp) :=
  Incremental.feedAll step

/-- The requests that have been issued and not been completed, with the data
each was issued with. -/
def uncompleted (ops : List SendOp) : Nat → Option (List UInt8) :=
  ops.foldl (fun sent op => match op with
    | .uvWrite w senddata => Function.update sent w (some senddata)
    | .completed w => Function.update sent w none) fun _ => none

@[simp] theorem uncompleted_uvWrite (ops : List SendOp) (w : Nat) (senddata : List UInt8) :
    uncompleted (ops ++ [.uvWrite w senddata]) =
      Function.update (uncompleted ops) w (some senddata) := by
  simp only [uncompleted, List.foldl_append, List.foldl_cons, List.foldl_nil]

@[simp] theorem uncompleted_completed (ops : List SendOp) (w : Nat) :
    uncompleted (ops ++ [.completed w]) = Function.update (uncompleted ops) w none := by
  simp only [uncompleted, List.foldl_append, List.foldl_cons, List.foldl_nil]

/-- No `write_param` is used for two things, `buf.len` is within the memory
of each buffer that can be used again, and every request has the bytes that
it was issued with. -/
structure Exclusive (s : UvSend) (ops : List SendOp) : Prop where
  apart : ∀ u ∈ s.writes, u.req ∉ s.writeparamList
  nodup_list : s.writeparamList.Nodup
  nodup_writes : (s.writes.map UvWrite.req).Nodup
  capacity : ∀ w ∈ s.writeparamList, ∃ param b, s.params.cell w = some param ∧
    s.buffers.cell param.base = some b ∧ param.len ≤ b.len
  bytes : ∀ w senddata, uncompleted ops w = some senddata ↔
    ∃ u ∈ s.writes, u.req = w ∧
      ∃ b, s.buffers.cell u.base = some b ∧ b.read 0 u.len = .ok senddata
  length_le : s.writeparamList.length ≤ Uvnet.backlog + 1

/-! ## The memory -/

/-- Every `write_param` that has not been released has a buffer of its own,
and `buf.len` is within it. -/
structure Backed (s : UvSend) : Prop where
  buffer : ∀ w param, s.params.cell w = some param →
    ∃ b, s.buffers.cell param.base = some b ∧ param.len ≤ b.len
  own : ∀ w w' param param', s.params.cell w = some param → s.params.cell w' = some param' →
    param.base = param'.base → w = w'

/-- All that changes is one `write_param` and its buffer. -/
structure OnlyParam (w : Nat) (s s' : UvSend) : Prop where
  list_eq : s'.writeparamList = s.writeparamList
  writes_eq : s'.writes = s.writes
  params_eq : ∀ w', w' ≠ w → s'.params.cell w' = s.params.cell w'
  buffers_eq : ∀ w' param, w' ≠ w → s.params.cell w' = some param →
    s'.buffers.cell param.base = s.buffers.cell param.base

section

variable {s s' t : UvSend} {w : Nat} {param param' : WriteParam} {b : Block}

theorem OnlyParam.trans (h : OnlyParam w s t) (h' : OnlyParam w t s') : OnlyParam w s s' where
  list_eq := h'.list_eq.trans h.list_eq
  writes_eq := h'.writes_eq.trans h.writes_eq
  params_eq w' hne := (h'.params_eq w' hne).trans (h.params_eq w' hne)
  buffers_eq w' param hne hcell :=
    (h'.buffers_eq w' param hne ((h.params_eq w' hne).trans hcell)).trans
      (h.buffers_eq w' param hne hcell)

theorem OnlyParam.refl (s : UvSend) (w : Nat) : OnlyParam w s s :=
  ⟨rfl, rfl, fun _ _ => rfl, fun _ _ _ _ => rfl⟩

/-- What has to be said about the `write_param` that changes. -/
theorem Backed.only (h : Backed s) (hs : OnlyParam w s s')
    (hcell : s'.params.cell w = some param) (hbuf : s'.buffers.cell param.base = some b)
    (hlen : param.len ≤ b.len)
    (hown : ∀ w' param', w' ≠ w → s.params.cell w' = some param' → param'.base ≠ param.base) :
    Backed s' where
  buffer w' param' hcell' := by
    by_cases hw : w' = w
    · rw [hw, hcell] at hcell'
      cases hcell'
      exact ⟨b, hbuf, hlen⟩
    · rw [hs.params_eq w' hw] at hcell'
      rw [hs.buffers_eq w' param' hw hcell']
      exact h.buffer w' param' hcell'
  own w₁ w₂ p₁ p₂ h₁ h₂ hbase := by
    by_cases hw₁ : w₁ = w
    · by_cases hw₂ : w₂ = w
      · rw [hw₁, hw₂]
      · rw [hw₁, hcell] at h₁
        rw [hs.params_eq w₂ hw₂] at h₂
        cases h₁
        exact absurd hbase.symm (hown w₂ p₂ hw₂ h₂)
    · rw [hs.params_eq w₁ hw₁] at h₁
      by_cases hw₂ : w₂ = w
      · rw [hw₂, hcell] at h₂
        cases h₂
        exact absurd hbase (hown w₁ p₁ hw₁ h₁)
      · rw [hs.params_eq w₂ hw₂] at h₂
        exact h.own w₁ w₂ p₁ p₂ h₁ h₂ hbase

/-- Another `write_param` has another buffer. -/
theorem Backed.base_ne (h : Backed s) (hcell : s.params.cell w = some param) {w' : Nat}
    (hw : w' ≠ w) (hcell' : s.params.cell w' = some param') : param'.base ≠ param.base :=
  fun hbase => hw (h.own w' w param' param hcell' hcell hbase)

/-- The `write_param` is new, and so is its buffer. -/
theorem allocWriteParam_spec (h : Backed s) (n : Nat) :
    ∃ param, (s.allocWriteParam n).2.params.cell (s.allocWriteParam n).1 = some param ∧
      s.params.cell (s.allocWriteParam n).1 = none ∧
      OnlyParam (s.allocWriteParam n).1 s (s.allocWriteParam n).2 ∧
      Backed (s.allocWriteParam n).2 := by
  have hlive : ∀ w' param', s.params.cell w' = some param' →
      param'.base ≠ s.buffers.next := by
    intro w' param' hcell'
    obtain ⟨b, hbuf, -⟩ := h.buffer w' param' hcell'
    exact Heap.ne_next hbuf
  have honly : OnlyParam s.params.next s (s.allocWriteParam n).2 :=
    ⟨rfl, rfl, fun w' hne => Heap.alloc_cell_of_ne hne,
      fun w' param' _ hcell' => Heap.alloc_cell_of_ne (hlive w' param' hcell')⟩
  have hcell : (s.allocWriteParam n).2.params.cell s.params.next =
      some ⟨s.buffers.next, n, none⟩ := Heap.alloc_cell_self _ _
  have hbuf : (s.allocWriteParam n).2.buffers.cell s.buffers.next = some (Block.malloc n) :=
    Heap.alloc_cell_self _ _
  exact ⟨_, hcell, s.params.fresh _ (Nat.le_refl _), honly,
    h.only honly hcell hbuf (Nat.le_refl n) fun w' param' _ hcell' => hlive w' param' hcell'⟩

/-- Behind `grow` there is room for the data. -/
theorem grow_spec (h : Backed s) (hcell : s.params.cell w = some param) (n : Nat)
    (inPlace : Bool) :
    ∃ s' param', s.grow w n inPlace = .ok s' ∧ s'.params.cell w = some param' ∧
      n ≤ param'.len ∧ OnlyParam w s s' ∧ Backed s' := by
  obtain ⟨b, hbuf, -⟩ := h.buffer w param hcell
  unfold grow
  rw [Heap.get_eq hcell]
  by_cases hlen : param.len < n
  · obtain ⟨a, buffers, hrealloc, hmoved, hothers⟩ := Heap.realloc_spec hbuf n inPlace
    have hbase : ∀ w' param', w' ≠ w → s.params.cell w' = some param' →
        param'.base ≠ a ∧ buffers.cell param'.base = s.buffers.cell param'.base := by
      intro w' param' hw hcell'
      obtain ⟨b', hbuf', -⟩ := h.buffer w' param' hcell'
      apply hothers param'.base (h.base_ne hcell hw hcell')
      rw [hbuf']
      exact Option.some_ne_none b'
    let params := s.params.modify w fun _ => some { param with base := a, len := n }
    have honly : OnlyParam w s { s with params := params, buffers := buffers } :=
      ⟨rfl, rfl, fun w' hw => Heap.modify_cell_of_ne hw,
        fun w' param' hw hcell' => (hbase w' param' hw hcell').2⟩
    have hcell' : params.cell w = some { param with base := a, len := n } :=
      Heap.modify_cell_self hcell
    refine ⟨_, _, ?_, hcell', Nat.le_refl n, honly,
      h.only honly hcell' hmoved (Nat.le_refl n) fun w' param' hw hw' => (hbase w' param' hw hw').1⟩
    show (if param.len < n then _ else _) = _
    rw [if_pos hlen, hrealloc]
    show (s.params.set w _ >>= _) = _
    rw [Heap.set_eq hcell]
    rfl
  · refine ⟨s, param, ?_, hcell, Nat.le_of_not_lt hlen, .refl s w, h⟩
    exact if_neg hlen

/-- Behind `fill` the buffer starts with the data. -/
theorem fill_spec (h : Backed s) (hcell : s.params.cell w = some param) {senddata : List UInt8}
    (hlen : senddata.length ≤ param.len) (client : Nat) :
    ∃ s' param' b, s.fill w senddata client = .ok s' ∧ s'.params.cell w = some param' ∧
      param'.client = some client ∧ s'.buffers.cell param'.base = some b ∧
      b.read 0 param'.len = .ok senddata ∧ OnlyParam w s s' ∧ Backed s' := by
  obtain ⟨b, hbuf, hle⟩ := h.buffer w param hcell
  obtain ⟨b', buffers, hcopy, hbuf', hlen', hread, hothers⟩ :=
    Heap.memcpy_spec hbuf (Nat.le_trans hlen hle)
  let filled : WriteParam := { param with len := senddata.length, client := some client }
  let params := s.params.modify w fun _ => some filled
  have honly : OnlyParam w s { s with params := params, buffers := buffers } :=
    ⟨rfl, rfl, fun w' hw => Heap.modify_cell_of_ne hw,
      fun w' param' hw hcell' => hothers param'.base (h.base_ne hcell hw hcell')⟩
  have hcell' : params.cell w = some filled := Heap.modify_cell_self hcell
  have hroom : filled.len ≤ b'.len := by
    show senddata.length ≤ b'.len
    omega
  refine ⟨_, filled, b', ?_, hcell', rfl, hbuf', hread, honly,
    h.only honly hcell' hbuf' hroom fun w' param' hw hw' =>
      show param'.base ≠ param.base from h.base_ne hcell hw hw'⟩
  unfold fill
  rw [Heap.get_eq hcell]
  show (s.buffers.memcpy param.base senddata >>= _) = _
  rw [hcopy]
  show (s.params.set w filled >>= _) = _
  rw [Heap.set_eq hcell]
  rfl

/-- `FreeWriteParam` releases the buffer of no other `write_param`. -/
theorem freeWriteParam_spec (h : Backed s) (hcell : s.params.cell w = some param) :
    ∃ s', s.freeWriteParam w = .ok s' ∧ s'.params.cell w = none ∧ OnlyParam w s s' ∧
      Backed s' := by
  obtain ⟨b, hbuf, -⟩ := h.buffer w param hcell
  let params := s.params.modify w fun _ => none
  let buffers := s.buffers.modify param.base fun _ => none
  have honly : OnlyParam w s { s with params := params, buffers := buffers } :=
    ⟨rfl, rfl, fun w' hw => Heap.modify_cell_of_ne hw,
      fun w' param' hw hcell' => Heap.modify_cell_of_ne (h.base_ne hcell hw hcell')⟩
  have hgone : params.cell w = none := Heap.modify_cell_self hcell
  have hback : ∀ w' param', params.cell w' = some param' →
      w' ≠ w ∧ s.params.cell w' = some param' := by
    intro w' param' hcell'
    have hw : w' ≠ w := by
      rintro rfl
      rw [hgone] at hcell'
      cases hcell'
    exact ⟨hw, (honly.params_eq w' hw).symm.trans hcell'⟩
  refine ⟨{ s with params := params, buffers := buffers }, ?_, hgone, honly, ?_, ?_⟩
  · unfold freeWriteParam
    rw [Heap.get_eq hcell]
    show (s.buffers.free param.base >>= _) = _
    rw [Heap.free_eq hbuf]
    show (s.params.free w >>= _) = _
    rw [Heap.free_eq hcell]
    rfl
  · intro w' param' hcell'
    obtain ⟨hw, hold⟩ := hback w' param' hcell'
    obtain ⟨b', hbuf', hle⟩ := h.buffer w' param' hold
    exact ⟨b', (honly.buffers_eq w' param' hw hold).trans hbuf', hle⟩
  · intro w₁ w₂ p₁ p₂ h₁ h₂ hbase
    exact h.own w₁ w₂ p₁ p₂ (hback w₁ p₁ h₁).2 (hback w₂ p₂ h₂).2 hbase

end

/-! ## The list and the requests -/

/-- What is in the list or attached to a request. -/
def used (s : UvSend) : List Nat := s.writeparamList ++ s.writes.map UvWrite.req

/-- The buffer of the request holds the data, and `AfterSend` will find the
server. -/
structure Carries (s : UvSend) (u : UvWrite) (senddata : List UInt8) : Prop where
  param : ∃ param, s.params.cell u.req = some param ∧ param.base = u.base ∧
    param.client ≠ none
  bytes : ∃ b, s.buffers.cell u.base = some b ∧ b.read 0 u.len = .ok senddata

/-- What every call keeps. -/
structure Kept (s : UvSend) (ops : List SendOp) : Prop where
  backed : Backed s
  nodup : s.used.Nodup
  live : ∀ w ∈ s.writeparamList, s.params.cell w ≠ none
  sent : ∀ u ∈ s.writes, ∃ senddata, uncompleted ops u.req = some senddata ∧ Carries s u senddata
  issued : ∀ w, uncompleted ops w ≠ none → w ∈ s.writes.map UvWrite.req
  length_le : s.writeparamList.length ≤ Uvnet.backlog + 1

section

variable {s s' t : UvSend} {ops : List SendOp} {w : Nat} {u : UvWrite} {senddata : List UInt8}

theorem kept_start : Kept start [] where
  backed := ⟨nofun, nofun⟩
  nodup := List.nodup_nil
  live _ hw := absurd hw List.not_mem_nil
  sent _ hu := absurd hu List.not_mem_nil
  issued _ hw := absurd rfl hw
  length_le := Nat.zero_le _

theorem Kept.exclusive (h : Kept s ops) : Exclusive s ops where
  apart u hu hlist :=
    List.disjoint_of_nodup_append h.nodup hlist (List.mem_map_of_mem hu)
  nodup_list := (List.nodup_append'.mp h.nodup).1
  nodup_writes := (List.nodup_append'.mp h.nodup).2.1
  capacity w hw := by
    obtain ⟨param, hcell⟩ := Option.ne_none_iff_exists'.mp (h.live w hw)
    obtain ⟨b, hbuf, hle⟩ := h.backed.buffer w param hcell
    exact ⟨param, b, hcell, hbuf, hle⟩
  bytes w senddata := by
    constructor
    · intro hopen
      have hmem := h.issued w (by rw [hopen]; exact Option.some_ne_none _)
      obtain ⟨u, hu, rfl⟩ := List.mem_map.mp hmem
      obtain ⟨sent, hsent, hcarries⟩ := h.sent u hu
      rw [hopen] at hsent
      cases hsent
      exact ⟨u, hu, rfl, hcarries.bytes⟩
    · rintro ⟨u, hu, rfl, b, hbuf, hread⟩
      obtain ⟨sent, hsent, hcarries⟩ := h.sent u hu
      obtain ⟨b', hbuf', hread'⟩ := hcarries.bytes
      rw [hbuf] at hbuf'
      cases hbuf'
      rw [hread] at hread'
      cases hread'
      exact hsent
  length_le := h.length_le

/-- A `write_param` that is not in use may change. -/
theorem Carries.only (h : Carries s u senddata) (hs : OnlyParam w s s') (hu : u.req ≠ w) :
    Carries s' u senddata := by
  obtain ⟨param, hcell, hbase, hclient⟩ := h.param
  obtain ⟨b, hbuf, hread⟩ := h.bytes
  have hsame := hs.buffers_eq u.req param hu hcell
  rw [hbase] at hsame
  exact ⟨⟨param, (hs.params_eq u.req hu).trans hcell, hbase, hclient⟩,
    ⟨b, hsame.trans hbuf, hread⟩⟩

theorem Kept.only (h : Kept s ops) (hs : OnlyParam w s s') (hbacked : Backed s')
    (hw : w ∉ s.used) : Kept s' ops where
  backed := hbacked
  nodup := by
    rw [used, hs.list_eq, hs.writes_eq]
    exact h.nodup
  live w' hw' := by
    rw [hs.list_eq] at hw'
    have hne : w' ≠ w := fun heq => hw (List.mem_append_left _ (heq ▸ hw'))
    rw [hs.params_eq w' hne]
    exact h.live w' hw'
  sent u hu := by
    rw [hs.writes_eq] at hu
    obtain ⟨senddata, hopen, hcarries⟩ := h.sent u hu
    have hne : u.req ≠ w := by
      rintro rfl
      exact hw (List.mem_append_right _ (List.mem_map_of_mem hu))
    exact ⟨senddata, hopen, hcarries.only hs hne⟩
  issued w' hopen := by
    rw [hs.writes_eq]
    exact h.issued w' hopen
  length_le := by
    rw [hs.list_eq]
    exact h.length_le

/-- A call has taken `w`: it is there, and it is not in use. -/
structure Held (s : UvSend) (ops : List SendOp) (w : Nat) : Prop where
  kept : Kept s ops
  unused : w ∉ s.used
  cell : ∃ param, s.params.cell w = some param

theorem Held.only (h : Held s ops w) (hs : OnlyParam w s s') (hbacked : Backed s')
    (hcell : ∃ param, s'.params.cell w = some param) : Held s' ops w where
  kept := h.kept.only hs hbacked h.unused
  unused := by
    rw [used, hs.list_eq, hs.writes_eq]
    exact h.unused
  cell := hcell

theorem Kept.take (h : Kept s ops) :
    Held s.takeWriteParam.2 ops s.takeWriteParam.1 ∧
      s.takeWriteParam.2.writeparamList.length ≤ Uvnet.backlog := by
  unfold takeWriteParam
  cases hlist : s.writeparamList with
  | nil =>
    obtain ⟨param, hcell, hnew, honly, hbacked⟩ := allocWriteParam_spec h.backed 10240
    have hunused : (s.allocWriteParam 10240).1 ∉ s.used := by
      intro hused
      rcases List.mem_append.mp hused with hmem | hmem
      · exact h.live _ hmem hnew
      · obtain ⟨u, hu, hreq⟩ := List.mem_map.mp hmem
        obtain ⟨_, _, hcarries⟩ := h.sent u hu
        obtain ⟨param', hcell', -⟩ := hcarries.param
        rw [hreq, hnew] at hcell'
        cases hcell'
    refine ⟨⟨h.only honly hbacked hunused, ?_, ⟨param, hcell⟩⟩, ?_⟩
    · rw [used, honly.list_eq, honly.writes_eq]
      exact hunused
    · show (s.allocWriteParam 10240).2.writeparamList.length ≤ _
      rw [honly.list_eq, hlist]
      exact Nat.zero_le _
  | cons w rest =>
    have hnodup := h.nodup
    rw [used, hlist, List.cons_append, List.nodup_cons] at hnodup
    have hlen := h.length_le
    rw [hlist, List.length_cons] at hlen
    refine ⟨⟨⟨⟨h.backed.buffer, h.backed.own⟩, hnodup.2, ?_, ?_, h.issued, ?_⟩, hnodup.1, ?_⟩, ?_⟩
    · intro w' hw'
      exact h.live w' (hlist ▸ List.mem_cons_of_mem w hw')
    · intro u hu
      obtain ⟨senddata, hopen, hcarries⟩ := h.sent u hu
      exact ⟨senddata, hopen, ⟨hcarries.param, hcarries.bytes⟩⟩
    · show rest.length ≤ _
      omega
    · exact Option.ne_none_iff_exists'.mp (h.live w (hlist ▸ List.mem_cons_self))
    · show rest.length ≤ _
      omega

theorem Held.pushBack (h : Held s ops w) (hlen : s.writeparamList.length ≤ Uvnet.backlog) :
    Kept (s.pushBack w) ops where
  backed := ⟨h.kept.backed.buffer, h.kept.backed.own⟩
  nodup := by
    show ((s.writeparamList ++ [w]) ++ s.writes.map UvWrite.req).Nodup
    rw [List.append_assoc, List.singleton_append, List.nodup_middle]
    exact List.nodup_cons.mpr ⟨h.unused, h.kept.nodup⟩
  live w' hw' := by
    rcases List.mem_append.mp hw' with hw' | hw'
    · exact h.kept.live w' hw'
    · rw [List.mem_singleton.mp hw']
      exact Option.ne_none_iff_exists'.mpr h.cell
  sent u hu := by
    obtain ⟨senddata, hopen, hcarries⟩ := h.kept.sent u hu
    exact ⟨senddata, hopen, ⟨hcarries.param, hcarries.bytes⟩⟩
  issued := h.kept.issued
  length_le := by
    show (s.writeparamList ++ [w]).length ≤ _
    rw [List.length_append, List.length_singleton]
    omega

/-- A request that libuv has accepted. -/
theorem Held.write (h : Held s ops w) {param : WriteParam} {b : Block}
    (hcell : s.params.cell w = some param) (hclient : param.client ≠ none)
    (hbuf : s.buffers.cell param.base = some b) (hread : b.read 0 param.len = .ok senddata) :
    Kept { s with writes := s.writes ++ [⟨w, param.base, param.len⟩] }
      (ops ++ [.uvWrite w senddata]) where
  backed := ⟨h.kept.backed.buffer, h.kept.backed.own⟩
  nodup := by
    show (s.writeparamList ++ (s.writes ++ [(⟨w, param.base, param.len⟩ : UvWrite)]).map
      UvWrite.req).Nodup
    rw [List.map_append, ← List.append_assoc, List.nodup_append_comm]
    exact List.nodup_cons.mpr ⟨h.unused, h.kept.nodup⟩
  live := h.kept.live
  sent u hu := by
    rw [uncompleted_uvWrite]
    rcases List.mem_append.mp hu with hold | hnew
    · obtain ⟨sent, hsent, hcarries⟩ := h.kept.sent u hold
      have hne : u.req ≠ w := by
        rintro rfl
        exact h.unused (List.mem_append_right _ (List.mem_map_of_mem hold))
      rw [Function.update_of_ne hne]
      exact ⟨sent, hsent, ⟨hcarries.param, hcarries.bytes⟩⟩
    · rw [List.mem_singleton.mp hnew, Function.update_self]
      exact ⟨senddata, rfl, ⟨⟨param, hcell, rfl, hclient⟩, ⟨b, hbuf, hread⟩⟩⟩
  issued w' hopen := by
    rw [uncompleted_uvWrite] at hopen
    rw [List.map_append, List.mem_append]
    by_cases hw : w' = w
    · exact Or.inr (List.mem_singleton.mpr hw)
    · rw [Function.update_of_ne hw] at hopen
      exact Or.inl (h.kept.issued w' hopen)
  length_le := h.kept.length_le

/-- The request that is completed is the only one of its number. -/
theorem Kept.complete (h : Kept s ops) (hw : w ∈ s.writes.map UvWrite.req) :
    Held (s.complete w) (ops ++ [.completed w]) w ∧
      ∃ param, (s.complete w).params.cell w = some param ∧ param.client ≠ none := by
  obtain ⟨u, hu, hreq⟩ := List.mem_map.mp hw
  obtain ⟨v, front, rest, -, hv, hsplit, herase⟩ :=
    List.exists_of_eraseP (p := (·.req == w)) hu (beq_iff_eq.mpr hreq)
  obtain rfl : v.req = w := beq_iff_eq.mp hv
  have hwrites : (s.complete v.req).writes = front ++ rest := herase
  have hnodup := h.nodup
  rw [used, hsplit, List.map_append, List.map_cons, ← List.append_assoc, List.nodup_middle,
    List.nodup_cons, List.append_assoc, ← List.map_append] at hnodup
  have hmem : ∀ u ∈ front ++ rest, u ∈ s.writes ∧ u.req ≠ v.req := by
    intro u hu
    constructor
    · rw [hsplit]
      rcases List.mem_append.mp hu with hu | hu
      · exact List.mem_append_left _ hu
      · exact List.mem_append_right _ (List.mem_cons_of_mem v hu)
    · intro heq
      exact hnodup.1 (List.mem_append_right _ (heq ▸ List.mem_map_of_mem hu))
  obtain ⟨_, _, hcarries⟩ := h.sent v (by
    rw [hsplit]
    exact List.mem_append_right _ List.mem_cons_self)
  obtain ⟨param, hcell, -, hclient⟩ := hcarries.param
  have hused : (s.complete v.req).used = s.writeparamList ++ (front ++ rest).map UvWrite.req := by
    rw [used, hwrites]
    rfl
  refine ⟨⟨⟨⟨h.backed.buffer, h.backed.own⟩, ?_, h.live, ?_, ?_, h.length_le⟩, ?_, param, hcell⟩,
    param, hcell, hclient⟩
  · rw [hused]
    exact hnodup.2
  · intro u hu
    rw [hwrites] at hu
    obtain ⟨hold, hne⟩ := hmem u hu
    obtain ⟨sent, hsent, hcarries⟩ := h.sent u hold
    rw [uncompleted_completed, Function.update_of_ne hne]
    exact ⟨sent, hsent, ⟨hcarries.param, hcarries.bytes⟩⟩
  · intro w' hopen
    rw [uncompleted_completed] at hopen
    have hne : w' ≠ v.req := by
      rintro rfl
      exact hopen (Function.update_self ..)
    rw [Function.update_of_ne hne] at hopen
    have hold := h.issued w' hopen
    rw [hwrites]
    rw [hsplit, List.map_append, List.map_cons, List.mem_append, List.mem_cons] at hold
    rw [List.map_append, List.mem_append]
    rcases hold with hold | hold | hold
    · exact Or.inl hold
    · exact absurd hold hne
    · exact Or.inr hold
  · rw [hused]
    exact hnodup.1

/-- A `write_param` that has been taken goes to libuv or back into the list. -/
theorem Held.sendWith (h : Held s ops w) (hlen : s.writeparamList.length ≤ Uvnet.backlog)
    (senddata : List UInt8) (client : Nat) (answers : SendAnswers) :
    ∃ res t o, s.sendWith w senddata client answers = .ok (res, t, o) ∧ Kept t (ops ++ o) := by
  obtain ⟨param, hcell⟩ := h.cell
  obtain ⟨s₁, param₁, hgrow, hcell₁, hroom, honly₁, hbacked₁⟩ :=
    grow_spec h.kept.backed hcell senddata.length answers.inPlace
  obtain ⟨s₂, param₂, b, hfill, hcell₂, hclient, hbuf, hread, honly₂, hbacked₂⟩ :=
    fill_spec hbacked₁ hcell₁ hroom client
  have honly := honly₁.trans honly₂
  have hheld : Held s₂ ops w := h.only honly hbacked₂ ⟨param₂, hcell₂⟩
  unfold UvSend.sendWith
  rw [hgrow]
  show ∃ res t o, (s₁.fill w senddata client >>= _) = _ ∧ _
  rw [hfill]
  show ∃ res t o, s₂.issue w senddata answers.iret = _ ∧ _
  unfold issue
  rw [Heap.get_eq hcell₂]
  show ∃ res t o, (if answers.iret ≠ 0 then _ else _) = _ ∧ _
  split_ifs
  · refine ⟨false, s₂.pushBack w, [], rfl, ?_⟩
    rw [List.append_nil]
    apply hheld.pushBack
    rw [honly.list_eq]
    exact hlen
  · have hsome : param₂.client ≠ none := by
      rw [hclient]
      exact Option.some_ne_none client
    exact ⟨true, _, _, rfl, hheld.write hcell₂ hsome hbuf hread⟩

theorem Kept.sendinl (h : Kept s ops) (senddata : List UInt8) (client : Nat)
    (answers : SendAnswers) :
    ∃ res t o, s.sendinl senddata client answers = .ok (res, t, o) ∧ Kept t (ops ++ o) := by
  unfold UvSend.sendinl
  split_ifs
  · exact ⟨true, s, [], rfl, by rwa [List.append_nil]⟩
  · exact h.take.1.sendWith h.take.2 senddata client answers

theorem Held.afterSend (h : Held s ops w) {param : WriteParam}
    (hcell : s.params.cell w = some param) (hclient : param.client ≠ none) :
    ∃ t, s.afterSend w = .ok t ∧ Kept t ops := by
  obtain ⟨client, hsome⟩ := Option.ne_none_iff_exists'.mp hclient
  have hbranch : s.afterSend w = if s.writeparamList.length > Uvnet.backlog then
      s.freeWriteParam w else pure (s.pushBack w) := by
    unfold UvSend.afterSend
    rw [Heap.get_eq hcell]
    show (match param.client with | none => _ | some _ => _) = _
    rw [hsome]
  rw [hbranch]
  split_ifs with hlen
  · obtain ⟨t, hfree, -, honly, hbacked⟩ := freeWriteParam_spec h.kept.backed hcell
    exact ⟨t, hfree, h.kept.only honly hbacked h.unused⟩
  · exact ⟨s.pushBack w, rfl, h.pushBack (Nat.le_of_not_lt hlen)⟩

/-- One call faults nowhere, and keeps what the calls before it have kept. -/
theorem Kept.step (h : Kept s ops) (e : SendEvent) :
    (∃ err, s.step e = .error err ∧ err = .notEnabled) ∨
      ∃ t o, s.step e = .ok (t, o) ∧ Kept t (ops ++ o) := by
  cases e with
  | sendinl senddata client answers =>
    obtain ⟨res, t, o, hsend, hkept⟩ := h.sendinl senddata client answers
    refine Or.inr ⟨t, o, ?_, hkept⟩
    show (match s.sendinl senddata client answers with | .error f => _ | .ok (_, s, ops) => _) = _
    rw [hsend]
  | afterSend w status =>
    by_cases hw : w ∈ s.writes.map UvWrite.req
    · obtain ⟨hheld, param, hcell, hclient⟩ := h.complete hw
      obtain ⟨t, hafter, hkept⟩ := hheld.afterSend hcell hclient
      refine Or.inr ⟨t, [.completed w], ?_, hkept⟩
      unfold UvSend.step
      simp only [if_pos hw, hafter]
    · refine Or.inl ⟨.notEnabled, ?_, rfl⟩
      unfold UvSend.step
      simp only [if_neg hw]

end

/-- In every run of sends and completions, whatever `uv_write` and `realloc`
answer, no access leaves its memory, and the state behind it is `Exclusive`. -/
theorem sends_exclusive (es : List SendEvent) :
    run start es = .error .notEnabled ∨
      ∃ s ops, run start es = .ok (s, ops) ∧ Exclusive s ops := by
  rcases invariant_or (· = Stop.notEnabled) Kept kept_start
    (fun e _ _ h => h.step e) es with ⟨err, hrun, rfl⟩ | ⟨s, ops, hrun, hkept⟩
  · exact Or.inl hrun
  · exact Or.inr ⟨s, ops, hrun, hkept.exclusive⟩

end UvSend

end OCServer
