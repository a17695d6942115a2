import Mathlib.Data.List.DropRight
import OCServer.Proto.JavaBuffer

/-!
# The reply of a service

`JCommChannel::execTransact` (`Core/src/jImpl.cpp`) gives a service a buffer
of 512 zero bytes to write its reply to, and the service wraps it in a
`ProtoOutputStream`.  How much was written is not passed back: the reply is
the buffer without the zero bytes at its end.

The buffer of the stream starts as the direct buffer, and `reserve` wants to
replace it when it is too small.  A direct buffer has no `array()`, so that
throws, and what the service has written so far stays where it is:
`Out.Holds` is the invariant.  A service may catch what a write throws.
-/

namespace OCServer.Java

namespace Out

/-- `NewDirectByteBuffer` of `char jbuff[512] = {0}`, and the stream over
it. -/
def start : Out where
  jbuff := List.replicate 512 0
  bs := .direct 0
  written := []

/-- The `while` loop of `execTransact`. -/
def stripZeros (fromsrv : List UInt8) : List UInt8 := fromsrv.rdropWhile (· == 0)

/-- `JCommChannel::execTransact` with a service that does these writes and
returns `res`: the result, and `fromsrv`.  With an exception pending, the
result is not defined by JNI: it is `pending`. -/
def execTransact (ws : List (JOut Unit × Bool)) (res pending : Bool) : Bool × List UInt8 :=
  let (o, returned) := start.performAll ws
  (if returned then res else pending, stripZeros o.jbuff)

/-- The bytes that the writes put. -/
def reply (ws : List (JOut Unit × Bool)) : List UInt8 := (start.performAll ws).1.written

/-! ## What the array holds -/

/-- The array holds what has been written and zeros behind it. -/
structure Holds (o : Out) : Prop where
  jbuff_eq : o.jbuff = o.written ++ List.replicate (512 - o.written.length) 0
  length_le : o.written.length ≤ 512
  bs_eq : o.bs = .direct o.written.length ∨ o.bs = .null

theorem holds_start : Holds start where
  jbuff_eq := rfl
  length_le := Nat.zero_le _
  bs_eq := Or.inl rfl

theorem Holds.length_eq {o : Out} (h : Holds o) : o.jbuff.length = 512 := by
  have hle := h.length_le
  rw [h.jbuff_eq, List.length_append, List.length_replicate]
  omega

theorem Holds.reserve {o o' : Out} {len : Nat} (h : Holds o) (hop : o.reserve len = some o') :
    Holds o' := by
  unfold Out.reserve at hop
  rcases h.bs_eq with hbs | hbs
  · rw [hbs] at hop
    simp only at hop
    split at hop
    · split at hop
      · cases hop
        exact ⟨h.jbuff_eq, h.length_le, Or.inr rfl⟩
      · cases hop
    · cases hop
      exact h
  · rw [hbs] at hop
    cases hop

theorem Holds.put {o o' : Out} {bs : List UInt8} (h : Holds o) (hop : o.put bs = some o') :
    Holds o' := by
  unfold Out.put at hop
  rcases h.bs_eq with hbs | hbs
  · rw [hbs] at hop
    simp only [h.length_eq] at hop
    split at hop
    · next hroom =>
      cases hop
      refine ⟨?_, ?_, Or.inl ?_⟩
      · show overwrite o.jbuff o.written.length bs = _
        unfold overwrite
        rw [h.jbuff_eq, List.take_left, List.drop_append, List.drop_eq_nil_of_le (by omega),
          List.nil_append, List.drop_replicate, List.length_append]
        congr 2
        omega
      · show (o.written ++ bs).length ≤ 512
        rw [List.length_append]
        exact hroom
      · rw [List.length_append]
    · cases hop
  · rw [hbs] at hop
    cases hop

theorem Holds.applyAll {o : Out} (h : Holds o) (ops : List BufOp) : Holds (o.applyAll ops).1 := by
  induction ops generalizing o with
  | nil => exact h
  | cons op ops ih =>
    unfold Out.applyAll
    cases hop : o.apply op with
    | none => exact h
    | some o' =>
      have h' : Holds o' := by
        cases op with
        | reserve len => exact h.reserve hop
        | put bs => exact h.put hop
      exact ih h'

theorem Holds.perform {o : Out} (h : Holds o) (w : JOut Unit) : Holds (o.perform w).1 := by
  unfold Out.perform
  split
  · exact h.applyAll _
  · exact h.applyAll _

/-- Any writes of a service. -/
theorem Holds.performAll {o : Out} (h : Holds o) (ws : List (JOut Unit × Bool)) :
    Holds (o.performAll ws).1 := by
  induction ws generalizing o with
  | nil => exact h
  | cons w ws ih =>
    unfold Out.performAll
    simp only
    split
    · exact ih (h.perform w.1)
    · exact h.perform w.1

/-! ## When there is room -/

/-- After `n` bytes the buffer has room for these calls. -/
def Room (n : Nat) : List BufOp → Prop
  | [] => True
  | .reserve len :: ops => n + len ≤ 512 ∧ Room n ops
  | .put bs :: ops => n + bs.length ≤ 512 ∧ Room (n + bs.length) ops

theorem reserve_of_room {o : Out} {len : Nat} (h : Holds o)
    (hbs : o.bs = .direct o.written.length) (hroom : o.written.length + len ≤ 512) :
    o.reserve len = some o := by
  have hlen : (BitVec.ofNat 32 len).toInt = len := by
    rw [BitVec.toInt_ofNat']
    exact Int.bmod_eq_of_le (by omega) (by omega)
  unfold Out.reserve
  rw [hbs, hlen, h.length_eq]
  show (if _ then _ else _) = _
  rw [if_neg (by omega)]

theorem put_of_room {o : Out} {bs : List UInt8} (h : Holds o)
    (hbs : o.bs = .direct o.written.length) (hroom : o.written.length + bs.length ≤ 512) :
    o.put bs = some ⟨overwrite o.jbuff o.written.length bs,
      .direct (o.written.length + bs.length), o.written ++ bs⟩ := by
  unfold Out.put
  rw [hbs, h.length_eq]
  show (if _ then _ else _) = _
  rw [if_pos hroom]

/-- With room, all calls return and all bytes arrive. -/
theorem applyAll_of_room {o : Out} {ops : List BufOp} (h : Holds o)
    (hbs : o.bs = .direct o.written.length) (hroom : Room o.written.length ops) :
    (o.applyAll ops).2 = true ∧ (o.applyAll ops).1.written = o.written ++ toByteArray ops ∧
      (o.applyAll ops).1.bs = .direct (o.applyAll ops).1.written.length := by
  induction ops generalizing o with
  | nil => exact ⟨rfl, (List.append_nil _).symm, hbs⟩
  | cons op ops ih =>
    unfold Out.applyAll
    cases op with
    | reserve len =>
      rw [show o.apply (.reserve len) = some o from reserve_of_room h hbs hroom.1]
      exact ih h hbs hroom.2
    | put bs =>
      have hput := put_of_room h hbs hroom.1
      rw [show o.apply (.put bs) = _ from hput]
      have hlen : (o.written ++ bs).length = o.written.length + bs.length := List.length_append
      rcases ih (h.put hput) (by rw [hlen]) (by rw [hlen]; exact hroom.2) with ⟨hall, hw, hdir⟩
      refine ⟨hall, ?_, hdir⟩
      show _ = _ ++ (bs ++ toByteArray ops)
      rw [hw, List.append_assoc]

theorem Room.of_append {n : Nat} {ops ops' : List BufOp} (h : Room n (ops ++ ops')) :
    Room n ops ∧ Room (n + (toByteArray ops).length) ops' := by
  induction ops generalizing n with
  | nil => exact ⟨trivial, h⟩
  | cons op ops ih =>
    cases op with
    | reserve len =>
      rcases ih h.2 with ⟨hops, hops'⟩
      exact ⟨⟨h.1, hops⟩, hops'⟩
    | put bs =>
      rcases ih h.2 with ⟨hops, hops'⟩
      refine ⟨⟨h.1, hops⟩, ?_⟩
      show Room (n + (bs ++ toByteArray ops).length) ops'
      rw [List.length_append, ← Nat.add_assoc]
      exact hops'

/-- With room, the service comes to its end, and has written all that its
writes put. -/
theorem performAll_of_room {o : Out} {ws : List (JOut Unit × Bool)} (h : Holds o)
    (hbs : o.bs = .direct o.written.length) (hok : ∀ w ∈ ws, ∃ ops, w.1 [] = .ok () ops)
    (hroom : Room o.written.length (ws.flatMap fun w => opsOf w.1)) :
    (o.performAll ws).2 = true ∧ (o.performAll ws).1.written =
      o.written ++ toByteArray (ws.flatMap fun w => opsOf w.1) := by
  induction ws generalizing o with
  | nil => exact ⟨rfl, (List.append_nil _).symm⟩
  | cons w ws ih =>
    rcases hok w List.mem_cons_self with ⟨ops, hops⟩
    have hof : opsOf w.1 = ops := by
      unfold opsOf
      rw [hops]
    rw [List.flatMap_cons, hof] at hroom ⊢
    rcases hroom.of_append with ⟨hfirst, hrest⟩
    rcases applyAll_of_room h hbs hfirst with ⟨hall, hw, hdir⟩
    have hperform : o.perform w.1 = o.applyAll ops := by
      unfold Out.perform
      rw [hops]
    have hcons : o.performAll (w :: ws) = (o.applyAll ops).1.performAll ws := by
      show (if ((o.perform w.1).2 || w.2) = true then (o.perform w.1).1.performAll ws
        else ((o.perform w.1).1, false)) = _
      rw [hperform, hall, Bool.true_or, if_pos rfl]
    rw [hcons]
    rw [← List.length_append, ← hw] at hrest
    rcases ih (h.applyAll ops) hdir (fun w hmem => hok w (List.mem_cons_of_mem _ hmem)) hrest
      with ⟨hret, hwritten⟩
    refine ⟨hret, ?_⟩
    show _ = _ ++ List.flatMap _ (ops ++ _)
    rw [hwritten, hw, List.append_assoc, List.flatMap_append]
    rfl

/-! ## What is read from it -/

/-- The zeros behind the reply are stripped, and those at its end. -/
theorem stripZeros_append (bs : List UInt8) (n : Nat) :
    stripZeros (bs ++ List.replicate n 0) = stripZeros bs := by
  induction n with
  | zero => rw [List.replicate_zero, List.append_nil]
  | succ n ih =>
    rw [List.replicate_succ', ← List.append_assoc]
    unfold stripZeros at ih ⊢
    rw [List.rdropWhile_concat_pos _ _ _ rfl, ih]

theorem stripZeros_eq_iff (bs : List UInt8) :
    stripZeros bs = bs ↔ bs.getLast? ≠ some 0 := by
  unfold stripZeros
  rw [List.rdropWhile_eq_self_iff]
  constructor
  · intro h hlast
    rcases List.mem_getLast?_eq_getLast hlast with ⟨hne, hzero⟩
    exact h hne (by simp [← hzero])
  · intro h hne hzero
    refine h ?_
    rw [List.getLast?_eq_some_getLast hne]
    simpa using hzero

theorem execTransact_fst {ws : List (JOut Unit × Bool)} {res pending : Bool}
    (hret : (start.performAll ws).2 = true) : (execTransact ws res pending).1 = res := by
  show (if (start.performAll ws).2 = true then res else pending) = res
  rw [if_pos hret]

theorem execTransact_snd (ws : List (JOut Unit × Bool)) (res pending : Bool) :
    (execTransact ws res pending).2 = stripZeros (reply ws) := by
  have h := holds_start.performAll ws
  show stripZeros (start.performAll ws).1.jbuff = _
  rw [h.jbuff_eq, stripZeros_append]
  rfl

/-- For every sequence of writes: if the call answers `true`, `fromsrv` is
what was written, if and only if what was written does not end in a zero
byte. -/
theorem execTransact_iff (ws : List (JOut Unit × Bool)) (res pending : Bool) :
    ((execTransact ws res pending).1 = true → (execTransact ws res pending).2 = reply ws) ↔
      ((execTransact ws res pending).1 = true → (reply ws).getLast? ≠ some 0) := by
  rw [execTransact_snd, stripZeros_eq_iff]

/-- The `int` 256 at tag 0 loses its last byte. -/
theorem not_always_execTransact :
    ¬∀ ws res pending, (execTransact ws res pending).1 = true →
      (execTransact ws res pending).2 = reply ws := by
  intro h
  have hops : writeInt 256 0 [] = .ok () [.reserve 6, .reserve 4, .put [1], .put [1, 0]] := rfl
  have hroom : Room 0 (List.flatMap (fun w : JOut Unit × Bool => opsOf w.1)
      [(writeInt 256 0, false)]) :=
    ⟨by decide, by decide, by decide, by decide, trivial⟩
  rcases performAll_of_room holds_start rfl (fun w hmem => by
    rw [List.mem_singleton.mp hmem]
    exact ⟨_, hops⟩) hroom with ⟨hret, hw⟩
  have hsame := h [(writeInt 256 0, false)] true false (execTransact_fst hret)
  rw [execTransact_snd, stripZeros_eq_iff] at hsame
  refine hsame ?_
  show (start.performAll _).1.written.getLast? = _
  rw [hw]
  rfl

end Out

end OCServer.Java
