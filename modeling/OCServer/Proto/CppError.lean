import OCServer.Proto.CppSkip
import OCServer.Util.Hex

/-!
# The memory behind `ProtoIn::error`

`error` once more, with the array that it renders its 30 bytes of context into.
`errorWith` has the size of that array as a parameter.  With room for the digits
and the zero behind them it is the `error` of the readers, and leaves the
position where it was: `errorWith_eq` and `error_restores`.

`dispbuf` has no room for the zero.  `errorSafe_iff` says that `error` is safe
if and only if it throws before it comes to its context.
-/

namespace OCServer.Cpp

open ByteIO ByteSource CString CharArray

/-! ## A stream and arrays -/

/-- What ends a run: an exception, or an access outside of an array. -/
inductive ErrorExc
  | thrown (e : CppExc)
  | fault (f : Fault)
  deriving DecidableEq, Repr

/-- A program over the stream and over arrays. -/
abbrev CppMem := EStateM ErrorExc IStream

/-- A program over the stream only. -/
def onStream {α : Type} (m : CppIn α) : CppMem α := fun s =>
  match m s with
  | .ok a s => .ok a s
  | .error e s => .error (.thrown e) s

/-- A program over arrays only. -/
def inMemory {α : Type} (m : Except Fault α) : CppMem α := fun s =>
  match m with
  | .ok a => .ok a s
  | .error f => .error (.fault f) s

/-- The text in `char dispbuf[size]` after `util::Buffer2String` of `strbuf`, which
has a zero behind its characters. -/
def dispbufText (size : Nat) (strbuf : List UInt8) : Except Fault (List UInt8) := do
  let result ← Util.Buffer2String (strbuf ++ [0]) 30 (List.replicate size 0)
  cstr result.2

/-- `err << dispbuf`. -/
def charsText (cs : List UInt8) : String := String.ofList (cs.map fun c => Char.ofNat c.toNat)

/-- What stands below the digits, in front of the offset. -/
def margin (offset : Int) : String :=
  if 15 ≤ offset then String.ofList (List.replicate 30 ' ') else ""

/-- `error`, with a `dispbuf` of `size` characters. -/
def errorWith {α : Type} (size : Nat) (message : String) (offset : Int) : CppMem α := do
  if !(← onStream good) then throw (.thrown (.protoError message))
  let currentP ← onStream tell
  if 15 ≤ offset then onStream (seek (offset - 15))
  let strbuf ← onStream (readInto 30)
  let dispbuf ← inMemory (dispbufText size strbuf)
  onStream (seek currentP)
  throw (.thrown (.protoError s!"{message}\n{charsText dispbuf}\n{margin offset}^.{offset}"))

/-- It throws a `ProtoError`, the position is where it was, and no access is outside
of `dispbuf`. -/
def ErrorSafe (size : Nat) (message : String) (offset : Int) (s : IStream) : Prop :=
  ∃ text s', (errorWith size message offset : CppMem Unit) s =
    .error (.thrown (.protoError text)) s' ∧ s'.pos = s.pos

/-! ## Running -/

section

variable {α : Type} {m : CppIn α} {s s' : IStream}

theorem onStream_ok {a : α} (h : m s = .ok a s') : onStream m s = .ok a s' := by
  unfold onStream
  rw [h]

theorem onStream_error {e : CppExc} (h : m s = .error e s') :
    onStream m s = .error (.thrown e) s' := by
  unfold onStream
  rw [h]

end

/-! ## The digits -/

theorem charOfDigit : ∀ n < 16, Char.ofNat (Database.lowerDigit n).toNat = n.digitChar := by
  decide

/-- The digits in `dispbuf` are those of the message. -/
theorem charsText_hex (bs : List UInt8) : charsText (Util.hex bs) = buffer2String bs := by
  unfold charsText buffer2String Util.hex
  rw [List.map_flatMap]
  congr 2
  funext b
  have hb := b.toNat_lt
  simp only [Util.hexDigits, List.map_cons, List.map_nil]
  rw [charOfDigit _ (by omega), charOfDigit _ (by omega)]

/-- The array holds the empty string at first. -/
theorem dispbufText_run (size : Nat) {strbuf : List UInt8} (hlen : strbuf.length = 30) :
    dispbufText (size + 1) strbuf =
      (Util.Buffer2String (strbuf ++ [0]) strbuf.length (0 :: List.replicate size 0) >>=
        fun result => cstr result.2) := by
  unfold dispbufText
  rw [List.replicate_succ, hlen]
  rfl

/-- 60 digits and a zero. -/
theorem dispbufText_eq {size : Nat} {strbuf : List UInt8} (hlen : strbuf.length = 30)
    (h : 60 ≤ size) : dispbufText (size + 1) strbuf = .ok (Util.hex strbuf) := by
  have hroom : 2 * strbuf.length ≤ (List.replicate size (0 : UInt8)).length := by
    rw [List.length_replicate]
    omega
  rw [dispbufText_run size hlen, Util.Buffer2String_eq strbuf [0] hroom]
  exact cstr_eq (Util.not_mem_hex strbuf)

theorem dispbufText_fault {size : Nat} {strbuf : List UInt8} (hlen : strbuf.length = 30)
    (h : size < 60) : dispbufText (size + 1) strbuf = .error .outOfBounds := by
  have hroom : (List.replicate size (0 : UInt8)).length < 2 * strbuf.length := by
    rw [List.length_replicate]
    omega
  rw [dispbufText_run size hlen, Util.Buffer2String_fault strbuf [0] hroom]
  rfl

/-! ## `error` -/

section

variable {α : Type} (message : String) (offset : Int)

/-- A stream that is not good gets no context. -/
theorem errorWith_fail (size : Nat) {s : IStream} (h : s.fail = true) :
    (errorWith size message offset : CppMem α) s =
      .error (.thrown (.protoError message)) s := by
  unfold errorWith
  rw [bind_of_ok (onStream_ok (good_of_fail h))]
  exact bind_of_error rfl

/-- What `error` has read when it comes to `dispbuf`, whatever the size of it. -/
theorem errorWith_good {s : IStream} (h : s.fail = false) :
    ∃ strbuf t, strbuf.length = 30 ∧ Same s t ∧ ∃ p, tell s = .ok p s ∧
      (∀ size, (errorWith size message offset : CppMem α) s =
        (inMemory (dispbufText size strbuf) >>= fun dispbuf => onStream (seek p) >>= fun _ =>
          throw (.thrown (.protoError
            s!"{message}\n{charsText dispbuf}\n{margin offset}^.{offset}"))) t) ∧
      (error message offset : CppIn α) s =
        (seek p >>= fun _ => throw (.protoError
          s!"{message}\n{buffer2String strbuf}\n{margin offset}^.{offset}")) t := by
  have hgood := good_of_not_fail h
  obtain ⟨p, htell⟩ : ∃ p, tell s = .ok p s := ⟨_, rfl⟩
  by_cases hoff : 15 ≤ offset
  · obtain ⟨s₁, hseek, hsame₁⟩ := seek_run (offset - 15) s
    obtain ⟨strbuf, t, hread, hlen, hsame₂⟩ := readInto_run 30 s₁
    refine ⟨strbuf, t, hlen, same_trans hsame₁ hsame₂, p, htell, ?_, ?_⟩
    · intro size
      unfold errorWith
      rw [bind_of_ok (onStream_ok hgood)]
      show (onStream tell >>= _) s = _
      rw [bind_of_ok (onStream_ok htell), if_pos hoff, bind_of_ok (onStream_ok hseek)]
      show (onStream (readInto 30) >>= _) s₁ = _
      rw [bind_of_ok (onStream_ok hread)]
    · unfold error
      rw [bind_of_ok hgood]
      show (tell >>= _) s = _
      rw [bind_of_ok htell, if_pos hoff, bind_of_ok hseek]
      show (readInto 30 >>= _) s₁ = _
      rw [bind_of_ok hread]
      rfl
  · obtain ⟨strbuf, t, hread, hlen, hsame⟩ := readInto_run 30 s
    refine ⟨strbuf, t, hlen, hsame, p, htell, ?_, ?_⟩
    · intro size
      unfold errorWith
      rw [bind_of_ok (onStream_ok hgood)]
      show (onStream tell >>= _) s = _
      rw [bind_of_ok (onStream_ok htell), if_neg hoff]
      show (onStream (readInto 30) >>= _) s = _
      rw [bind_of_ok (onStream_ok hread)]
    · unfold error
      rw [bind_of_ok hgood]
      show (tell >>= _) s = _
      rw [bind_of_ok htell, if_neg hoff]
      show (readInto 30 >>= _) s = _
      rw [bind_of_ok hread]
      rfl

/-- With room for the digits and the zero, it is the `error` of the readers. -/
theorem errorWith_eq {size : Nat} (h : 60 ≤ size) (s : IStream) :
    (errorWith (size + 1) message offset : CppMem α) s = onStream (error message offset) s := by
  cases hfail : s.fail with
  | true =>
    have hrun : (error message offset : CppIn α) s = .error (.protoError message) s := by
      unfold error
      rw [bind_of_ok (good_of_fail hfail)]
      exact bind_of_error rfl
    rw [errorWith_fail message offset _ hfail, onStream_error hrun]
  | false =>
    obtain ⟨strbuf, t, hlen, -, p, -, hwith, herror⟩ :=
      errorWith_good (α := α) message offset hfail
    have htext : inMemory (dispbufText (size + 1) strbuf) t = .ok (Util.hex strbuf) t := by
      rw [dispbufText_eq hlen h]
      rfl
    obtain ⟨t', hseek, -⟩ := seek_run p t
    have hrun : (error message offset : CppIn α) s = .error (.protoError
        s!"{message}\n{buffer2String strbuf}\n{margin offset}^.{offset}") t' := by
      rw [herror, bind_of_ok hseek]
      rfl
    rw [hwith, bind_of_ok htext, bind_of_ok (onStream_ok hseek), onStream_error hrun,
      charsText_hex]
    rfl

/-- Without it, `Buffer2String` writes behind the array. -/
theorem errorWith_fault {size : Nat} (h : size < 60) {s : IStream} (hs : s.fail = false) :
    ∃ t, (errorWith (size + 1) message offset : CppMem α) s =
      .error (.fault .outOfBounds) t := by
  obtain ⟨strbuf, t, hlen, -, p, -, hwith, -⟩ :=
    errorWith_good (α := α) message offset hs
  have htext : inMemory (dispbufText (size + 1) strbuf) t = .error (.fault .outOfBounds) t := by
    rw [dispbufText_fault hlen h]
    rfl
  exact ⟨t, by rw [hwith, bind_of_error htext]⟩

/-- `error` leaves a good stream where it was, and good. -/
theorem error_restores {s : IStream} (ht : Tellable s) (hfail : s.fail = false)
    (hpos : s.pos ≤ s.data.length) :
    ∃ text s', (error message offset : CppIn α) s = .error (.protoError text) s' ∧
      s'.pos = s.pos ∧ s'.fail = false := by
  obtain ⟨strbuf, t, -, ⟨hdata, hseekable⟩, p, htell, -, herror⟩ :=
    errorWith_good (α := α) message offset hfail
  rw [tell_eq ht ⟨hfail, hpos, rfl⟩] at htell
  cases htell
  have hseek : seek s.pos t = .ok () { t with pos := s.pos, fail := false } := by
    unfold seek
    rw [if_pos ⟨hseekable.trans ht.1, by omega, by rw [hdata, Int.toNat_natCast]; exact hpos⟩]
    rfl
  rw [herror, bind_of_ok hseek]
  exact ⟨_, _, rfl, rfl, rfl⟩

end

/-! ## The size of `dispbuf` -/

section

variable {message : String} {offset : Int} {s : IStream}

/-- How much room makes `error` safe. -/
theorem errorSafe_iff_room {size : Nat} (ht : Tellable s) (hpos : s.pos ≤ s.data.length) :
    ErrorSafe (size + 1) message offset s ↔ s.fail = true ∨ 60 ≤ size := by
  constructor
  · rintro ⟨text, s', hrun, -⟩
    by_contra hnot
    rw [not_or, Bool.not_eq_true, Nat.not_le] at hnot
    obtain ⟨t, hfault⟩ := errorWith_fault (α := Unit) message offset hnot.2 hnot.1
    rw [hfault] at hrun
    cases hrun
  · intro h
    cases hfail : s.fail with
    | true => exact ⟨_, _, errorWith_fail message offset _ hfail, rfl⟩
    | false =>
      have hsize : 60 ≤ size := h.resolve_left (by rw [hfail]; decide)
      obtain ⟨text, s', hrun, hback, -⟩ :=
        error_restores (α := Unit) message offset ht hfail hpos
      exact ⟨text, s', (errorWith_eq message offset hsize s).trans (onStream_error hrun), hback⟩

end

/-- For every stream, good or not, and every message and offset: with the
`char dispbuf[60]` of the source, `error` is safe if and only if the stream is not
good when it is called. -/
theorem errorSafe_iff (message : String) (offset : Int) (s : IStream) :
    ErrorSafe 60 message offset s ↔ s.fail = true := by
  constructor
  · rintro ⟨text, s', hrun, -⟩
    by_contra hgood
    obtain ⟨t, hfault⟩ := errorWith_fault (α := Unit) message offset (show 59 < 60 by decide)
      (Bool.not_eq_true _ ▸ hgood)
    rw [hfault] at hrun
    cases hrun
  · intro hfail
    exact ⟨_, _, errorWith_fail message offset _ hfail, rfl⟩

/-- A reader that comes to this call of `error`. -/
def Rejects {α : Type} (reader : CppIn α) (s : IStream) (message : String) (offset : Int)
    (s' : IStream) : Prop := reader s = error message offset s'

/-- A header that is cut off in front of its tag: the stream is not good any more, and
`tell` has nothing to say. -/
example : Rejects readChar ⟨[0xF6], 0, false, true, fun _ => 0⟩
    s!"Proto: unknown type when read char, got type {protoString1} ." (-1)
    ⟨[0xF6], 1, true, true, fun _ => 0⟩ := rfl

/-- A string that stands where a `char` is asked for. -/
theorem not_always_errorSafe : ¬∀ s message offset s',
    Rejects readChar s message offset s' → ErrorSafe 60 message offset s' := by
  intro h
  have hstring : Rejects readChar ⟨[6, 0], 0, false, true, fun _ => 0⟩
      s!"Proto: unknown type when read char, got type {protoString1} ." 1
      ⟨[6, 0], 1, false, true, fun _ => 0⟩ := rfl
  obtain ⟨t, hfault⟩ := errorWith_fault (α := Unit)
    s!"Proto: unknown type when read char, got type {protoString1} ." 1 (show 59 < 60 by decide)
    (s := ⟨[6, 0], 1, false, true, fun _ => 0⟩) rfl
  obtain ⟨text, s', hrun, -⟩ := h _ _ _ _ hstring
  rw [hfault] at hrun
  cases hrun

end OCServer.Cpp
