import OCServer.Proto.JavaOut

/-!
# The buffer of a `ProtoOutputStream`

The buffer that the stream writes to: the direct buffer of a caller, which
`reserve` cannot replace, or a buffer of its own, which it can.  The stream
makes the calls that `JOut` records, and a call may throw.
-/

namespace OCServer.Java

/-- The buffer of a `ProtoOutputStream`: the direct buffer of the caller, a
buffer of its own, or none. -/
inductive OutBuf
  | direct (position : Nat)
  | heap (array : List UInt8) (position : Nat)
  | null
  deriving DecidableEq, Repr

/-- A `ProtoOutputStream` over the array `jbuff` of the caller.  `written`
are the bytes that have been put. -/
structure Out where
  jbuff : List UInt8
  bs : OutBuf
  written : List UInt8
  deriving DecidableEq, Repr

namespace OutBuf

/-- `toByteArray`.  `none` says that it throws: there is no array. -/
def toByteArray (bs : OutBuf) : Option (List UInt8) :=
  match bs with
  | .heap array position => some (array.take position)
  | _ => none

end OutBuf

namespace Out

/-- The size of the buffer that `reserve` allocates, as an `int`. -/
def newCapacity (capacity : Nat) (len : Int) : Int :=
  (BitVec.ofInt 32 ((capacity + len) * 2)).toInt

/-- `reserve`.  `none` says that it throws: there is no buffer, the array of
a direct buffer is asked for, or the new buffer is too small for the old
bytes.  A negative size is caught, and leaves no buffer. -/
def reserve (o : Out) (len : Nat) : Option Out :=
  let len := (BitVec.ofNat 32 len).toInt
  match o.bs with
  | .null => none
  | .direct position =>
    if (o.jbuff.length : Int) - position < len then
      if newCapacity o.jbuff.length len < 0 then some { o with bs := .null } else none
    else some o
  | .heap array position =>
    if (array.length : Int) - position < len then
      let n := newCapacity array.length len
      if n < 0 then some { o with bs := .null }
      else if n < position then none
      else some { o with
        bs := .heap (array.take position ++ List.replicate (n.toNat - position) 0) position }
    else some o

/-- The bytes of an array from a position on, replaced. -/
def overwrite (array : List UInt8) (position : Nat) (bs : List UInt8) : List UInt8 :=
  array.take position ++ bs ++ array.drop (position + bs.length)

/-- `put`.  It throws when there is too little room, before it writes. -/
def put (o : Out) (bs : List UInt8) : Option Out :=
  match o.bs with
  | .null => none
  | .direct position =>
    if position + bs.length ≤ o.jbuff.length then
      some ⟨overwrite o.jbuff position bs, .direct (position + bs.length), o.written ++ bs⟩
    else none
  | .heap array position =>
    if position + bs.length ≤ array.length then
      some ⟨o.jbuff, .heap (overwrite array position bs) (position + bs.length), o.written ++ bs⟩
    else none

/-- A call on the buffer. -/
def apply (o : Out) : BufOp → Option Out
  | .reserve len => o.reserve len
  | .put bs => o.put bs

/-- The calls of a write, and whether all of them returned. -/
def applyAll (o : Out) : List BufOp → Out × Bool
  | [] => (o, true)
  | op :: ops =>
    match o.apply op with
    | none => (o, false)
    | some o => o.applyAll ops

/-- A write, and whether it returned. -/
def perform (o : Out) (w : JOut Unit) : Out × Bool :=
  match w [] with
  | .ok _ ops => o.applyAll ops
  | .error _ ops => ((o.applyAll ops).1, false)

/-- The writes of a service, each with whether the service catches what it
throws, and whether the service came to its end. -/
def performAll (o : Out) : List (JOut Unit × Bool) → Out × Bool
  | [] => (o, true)
  | (w, caught) :: ws =>
    let (o, returned) := o.perform w
    if returned || caught then o.performAll ws else (o, false)

/-- The calls of a write. -/
def opsOf (w : JOut Unit) : List BufOp :=
  match w [] with
  | .ok _ ops => ops
  | .error _ ops => ops

/-- `ProtoOutputStream( int capacity )`. -/
def allocate (capacity : Nat) : Out where
  jbuff := []
  bs := .heap (List.replicate capacity 0) 0
  written := []

theorem applyAll_append (o : Out) (ops ops' : List BufOp) :
    o.applyAll (ops ++ ops') =
      if (o.applyAll ops).2 then (o.applyAll ops).1.applyAll ops' else o.applyAll ops := by
  induction ops generalizing o with
  | nil => rfl
  | cons op ops ih =>
    rw [List.cons_append, applyAll, applyAll]
    cases o.apply op with
    | none => rfl
    | some o => exact ih o

/-- Writes that return, on a buffer that takes all their calls. -/
theorem performAll_of_applyAll {o o' : Out} {ws : List (JOut Unit)}
    (hok : ∀ w ∈ ws, ∃ ops, w [] = .ok () ops)
    (h : o.applyAll (ws.flatMap opsOf) = (o', true)) :
    o.performAll (ws.map fun w => (w, false)) = (o', true) := by
  induction ws generalizing o with
  | nil => exact h
  | cons w ws ih =>
    rcases hok w List.mem_cons_self with ⟨ops, hops⟩
    have hof : opsOf w = ops := by
      unfold opsOf
      rw [hops]
    have hperform : o.perform w = o.applyAll ops := by
      unfold perform
      rw [hops]
    rw [List.flatMap_cons, hof, applyAll_append] at h
    rw [List.map_cons, performAll, hperform]
    simp only [Bool.or_false]
    split at h
    · next hall =>
      rw [if_pos hall]
      exact ih (fun w hmem => hok w (List.mem_cons_of_mem _ hmem)) h
    · next hall =>
      rw [h] at hall
      exact (hall rfl).elim

end Out

end OCServer.Java
