import OCServer.Proto.CppRead
import OCServer.Proto.JavaOut

/-!
# Between the two languages

`JavaReads t tag v` says that the Java reader reads back what the C++ writer
wrote: the same value, with the position right behind its bytes, whatever
stands before and after them.  `CppReads t tag v` is the other direction,
with the tag that `readHead` reports.

Neither holds of every value.  The C++ writer is faithful below tag 128 and
below 128 elements of a `std::vector<char>`, and the C++ reader keeps
exactly the values that are `Kept`.
-/

namespace OCServer.Cpp

open ByteIO ByteSource

/-! ## From C++ to Java -/

section

variable [FloatOps]

/-- What `ProtoOut` writes for `v` at `tag` is read there as `v`. -/
def JavaReads (t : Ty) (tag : UInt8) (v : Val t) : Prop :=
  ∃ bs, write t v tag [] = .ok () bs ∧
    ∀ (fuel : Nat) (dflt : Option (Val t)) (isRequire : Bool) (b : Java.JBuf) (r : List UInt8),
      (b.data.take b.limit).drop b.pos = bs ++ r →
      ∃ b', Java.read (fuel + 2) t dflt tag.toNat isRequire b = .ok (some v) b' ∧
        b'.pos = b.pos + bs.length ∧ b'.data = b.data ∧ b'.limit = b.limit

/-- Faithful values are read back. -/
theorem javaReads_of_faithful (t : Ty) (tag : UInt8) (v : Val t) (hok : Ok t v)
    (htag : tag.toNat < 128) (hf : Faithful t v) : JavaReads t tag v := by
  obtain ⟨bs, hwrite, hbs⟩ := write_writes t v htag hok hf []
  have hbs : bs = enc id t tag v := hbs
  refine ⟨bs, hwrite, fun fuel dflt isRequire b r hb => ?_⟩
  rw [hbs] at hb ⊢
  obtain ⟨b', hread, hat, hdata, hlimit⟩ :=
    Java.read_reads fuel id t tag v dflt isRequire hok b r hb
  refine ⟨b', hread, ?_, hdata, hlimit⟩
  have hlen := Java.at_length (show At b _ from hb)
  have hlen' := Java.at_length hat
  have hpos := b.pos_le
  have hpos' := b'.pos_le
  rw [List.length_append] at hlen
  omega

end

/-- A struct with an `int` and a `std::vector<char>`. -/
theorem javaReads_of_faithful_struct :
    @JavaReads ⟨fun v => v.setWidth 64, fun _ => [], fun _ => []⟩
      (.struct (.cons 1 (.prim .int) (.cons 20 .bytes .nil))) 5 (-300, [1, 2], ()) :=
  @javaReads_of_faithful ⟨fun v => v.setWidth 64, fun _ => [], fun _ => []⟩ _ 5 _
    ⟨trivial, trivial, trivial⟩ (by decide)
    ⟨by decide, trivial, by decide, (by decide : [1, 2].length < 128), trivial⟩

/-- A `char` at tag 128 is not read back: its header says tag 0. -/
theorem not_javaReads_tag128 :
    ¬ @JavaReads ⟨fun v => v.setWidth 64, fun _ => [], fun _ => []⟩ .byte 128 5 := by
  intro h
  rcases h with ⟨bs, hwrite, hread⟩
  have hbytes : write .byte 5 128 [] = .ok () [0, 5] := rfl
  rw [hbytes] at hwrite
  obtain rfl : [0, 5] = bs := by injection hwrite
  obtain ⟨b', h, -⟩ := hread 0 (some 0) true (.wrap [0, 5] (by decide)) [] rfl
  have herr : @Java.read ⟨fun v => v.setWidth 64, fun _ => [], fun _ => []⟩ 2 .byte (some 0) 128
      true (.wrap [0, 5] (by decide)) =
      .error (.decode "require field not exist.")
        ⟨[0, 5], 2, 2, by decide, by decide, by decide⟩ := rfl
  have hne := herr.symm.trans h
  cases hne

/-! ## From Java to C++ -/

/-- The head of a value shows its tag. -/
theorem readHead_enc (t : Ty) (tag : UInt8) (v : Val t) {s : IStream} {r : List UInt8}
    (hs : At s (enc Java.endTag t tag v ++ r)) :
    ∃ head s', readHead s = .ok head s' ∧ head.tag = tag := by
  obtain ⟨type, rest, htype, _, henc⟩ := Java.fieldAt_enc Java.endTag t tag v
  rw [henc, List.append_assoc] at hs
  obtain ⟨s', hhead, _⟩ := readHead_reads htype tag s _ hs
  exact ⟨_, s', hhead, rfl⟩

section

variable [FloatOps]

/-- What `ProtoOutputStream` writes for `v` at `tag` is read as `v`, and its
head as `tag`. -/
def CppReads (t : Ty) (tag : UInt8) (v : Val t) : Prop :=
  ∃ ops, Java.write t v tag.toNat [] = .ok () ops ∧
    ∀ (fuel : Nat) (s : IStream) (r : List UInt8), s.fail = false → s.pos ≤ s.data.length →
      s.data.drop s.pos = Java.toByteArray ops ++ r →
      (∃ head s', readHead s = .ok head s' ∧ head.tag = tag) ∧
      ∃ c s', read (fuel + 2) t s = .ok (v, c) s' ∧ s'.fail = false ∧
        s'.pos = s.pos + (Java.toByteArray ops).length ∧ s'.data = s.data

/-- Exactly the kept values are read back. -/
theorem cppReads_iff_kept (t : Ty) (tag : UInt8) (v : Val t) (hshared : Shared t)
    (hok : Ok t v) (hsize : ∀ ops, Java.write t v tag.toNat [] = .ok () ops →
      (Java.toByteArray ops).length < 2 ^ 31) :
    CppReads t tag v ↔ Kept t v := by
  obtain ⟨ops, hwrite, hbytes⟩ := Java.write_writes t v tag []
  have hbytes : Java.toByteArray ops = enc Java.endTag t tag v := hbytes
  have hlen := hsize ops hwrite
  rw [hbytes] at hlen
  constructor
  · intro h
    rcases h with ⟨ops', hwrite', hread⟩
    rw [hwrite] at hwrite'
    cases hwrite'
    by_contra hbad
    rw [hbytes] at hread
    let s : IStream := ⟨enc Java.endTag t tag v, 0, false, true, fun _ => 0⟩
    have hs : At s (enc Java.endTag t tag v ++ []) := by
      refine ⟨rfl, Nat.zero_le _, ?_⟩
      rw [List.append_nil]
      rfl
    obtain ⟨_, c, s', hrun, _⟩ := hread 0 s [] hs.1 hs.2.1 hs.2.2
    exact read_misses 0 Java.endTag t tag v hshared hok hlen hbad s [] _ s' hs hrun rfl
  · intro hkept
    refine ⟨ops, hwrite, fun fuel s r hfail hpos hdrop => ?_⟩
    rw [hbytes] at hdrop ⊢
    have hs : At s (enc Java.endTag t tag v ++ r) := ⟨hfail, hpos, hdrop⟩
    obtain ⟨c, hread⟩ := read_reads fuel Java.endTag t tag v hshared hok hlen hkept
    obtain ⟨s', hrun, hs', hdata, _⟩ := hread s r hs
    refine ⟨readHead_enc t tag v hs, c, s', hrun, hs'.1, ?_, hdata⟩
    have hlen := at_length hs
    have hlen' := at_length hs'
    rw [List.length_append] at hlen
    rw [hdata] at hlen'
    omega

end

/-- A struct with an `int` and a string. -/
theorem cppReads_iff_kept_struct :
    @CppReads ⟨fun v => v.setWidth 64, fun _ => [], fun _ => []⟩
        (.struct (.cons 1 (.prim .int) (.cons 20 .string .nil))) 200 (300, [104, 105], ()) ↔
      Kept (.struct (.cons 1 (.prim .int) (.cons 20 .string .nil))) (300, [104, 105], ()) := by
  refine @cppReads_iff_kept ⟨fun v => v.setWidth 64, fun _ => [], fun _ => []⟩ _ 200 _
    ⟨trivial, trivial, trivial⟩ ⟨trivial, (by decide : 2 ≤ protoMaxStringLength), trivial⟩ ?_
  intro ops hwrite
  have hops : Java.write (.struct (.cons 1 (.prim .int) (.cons 20 .string .nil)))
      (300, [104, 105], ()) 200 [] = .ok ()
      [.reserve 2, .put [0xFA], .put [200], .reserve 6, .reserve 4, .put [0x11], .put [1, 44],
        .reserve 12, .put [0xF6], .put [20], .put [2], .put [104, 105], .reserve 2,
        .put [0x0B]] := rfl
  rw [show ((200 : UInt8).toNat : Int) = 200 from rfl, hops] at hwrite
  cases hwrite
  decide

/-- The `short` -5 is read as 251. -/
theorem not_cppReads_negative :
    ¬ @CppReads ⟨fun v => v.setWidth 64, fun _ => [], fun _ => []⟩ (.prim .short) 1 (-5) := by
  intro h
  rcases h with ⟨ops, hwrite, hread⟩
  have hops : Java.write (.prim .short) (-5) 1 [] =
      .ok () [.reserve 4, .reserve 3, .put [0x10], .put [0xFB]] := rfl
  rw [show ((1 : UInt8).toNat : Int) = 1 from rfl, hops] at hwrite
  cases hwrite
  obtain ⟨_, c, s', hrun, _⟩ :=
    hread 0 ⟨[0x10, 0xFB], 0, false, true, fun _ => 0⟩ [] rfl (by decide) rfl
  have hval : @read ⟨fun v => v.setWidth 64, fun _ => [], fun _ => []⟩ 2 (.prim .short)
      ⟨[0x10, 0xFB], 0, false, true, fun _ => 0⟩ =
      .ok (251, 1) ⟨[0x10, 0xFB], 2, false, true, fun _ => 0⟩ := rfl
  have heq := hval.symm.trans hrun
  injection heq with hpair _
  have hvalue : (251 : BitVec 16) = -5 := congrArg Prod.fst hpair
  exact absurd hvalue (by decide)

end OCServer.Cpp
