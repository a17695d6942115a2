import OCServer.Lib.Growable
import OCServer.Proto.JavaBuffer
import OCServer.Proto.JavaObject

/-!
# `ProtoOutputStream` over a buffer of its own

The buffer of the stream is a growable buffer, `Sim`, as long as the sizes
that it asks for are positive as `int`s.  Every write reserves the room that
it needs, `call_roomFor`, so its bytes are those that it would write to an
unbounded buffer, wherever the buffer is replaced between them.
-/

namespace OCServer.Java

open BigEndian ByteIO Growable

/-! ## The growing -/

/-- `( bs.capacity() + len ) * 2`, as a number. -/
def doubling : Policy where
  grow capacity len := (capacity + len) * 2
  le_grow capacity len := by omega

/-- The call, as one on a growable buffer. -/
def BufOp.op : BufOp → Op UInt8
  | .reserve len => .reserve len
  | .put bs => .put bs

/-- The calls, as calls on a growable buffer. -/
def opList (ops : List BufOp) : List (Op UInt8) := ops.map BufOp.op

@[simp] theorem opList_append (ops ops' : List BufOp) :
    opList (ops ++ ops') = opList ops ++ opList ops' := List.map_append

theorem puts_opList (ops : List BufOp) : puts (opList ops) = toByteArray ops := by
  induction ops with
  | nil => rfl
  | cons op ops ih =>
    cases op with
    | reserve len => exact ih
    | put bs =>
      show bs ++ puts (opList ops) = bs ++ toByteArray ops
      rw [ih]

/-- The stream has a buffer of its own, which is `b`. -/
structure Sim (o : Out) (b : Buf UInt8) : Prop where
  bs_eq : ∃ array, o.bs = .heap array b.contents.length ∧ array.length = b.capacity ∧
    array.take b.contents.length = b.contents
  capacity_lt : b.capacity < 2 ^ 31

theorem sim_allocate {n : Nat} (hn : n < 2 ^ 31) : Sim (Out.allocate n) (Buf.empty n) where
  bs_eq := ⟨List.replicate n 0, rfl, List.length_replicate, rfl⟩
  capacity_lt := hn

/-- The bytes of the stream are the contents of the buffer. -/
theorem Sim.toByteArray_eq {o : Out} {b : Buf UInt8} (h : Sim o b) :
    o.bs.toByteArray = some b.contents := by
  rcases h.bs_eq with ⟨array, hbs, _, htake⟩
  rw [hbs]
  show some (array.take b.contents.length) = _
  rw [htake]

theorem Sim.reserve {o : Out} {b : Buf UInt8} (h : Sim o b) (len : Nat)
    (hsize : b.room < len → (b.capacity + len) * 2 < 2 ^ 31) :
    ∃ o', o.reserve len = some o' ∧ Sim o' (b.reserve doubling len) := by
  rcases h.bs_eq with ⟨array, hbs, hlength, htake⟩
  have hcapacity := h.capacity_lt
  have hfits := b.fits
  have hroom : b.room = b.capacity - b.contents.length := rfl
  have hlen : (BitVec.ofNat 32 len).toInt = len := by
    rw [BitVec.toInt_ofNat']
    exact Int.bmod_eq_of_le (by omega) (by omega)
  unfold Out.reserve Buf.reserve
  rw [hbs, hlen]
  simp only [hlength]
  by_cases hgrow : b.room < len
  · have hnew : Out.newCapacity b.capacity len = ((b.capacity + len) * 2 : Nat) := by
      have hsmall := hsize hgrow
      unfold Out.newCapacity
      rw [BitVec.toInt_ofInt, Int.bmod_eq_of_le (by omega) (by omega)]
      omega
    rw [if_pos hgrow, if_pos (by omega), hnew, if_neg (by omega), if_neg (by omega)]
    refine ⟨_, rfl, ⟨_, rfl, ?_, ?_⟩, hsize hgrow⟩
    · simp [doubling]
      omega
    · simp [htake]
  · rw [if_neg hgrow, if_neg (by omega)]
    exact ⟨o, rfl, h⟩

theorem Sim.put {o : Out} {b b' : Buf UInt8} {bs : List UInt8} (h : Sim o b)
    (hput : b.put bs = some b') : ∃ o', o.put bs = some o' ∧ Sim o' b' := by
  rcases h.bs_eq with ⟨array, hbs, hlength, htake⟩
  unfold Buf.put at hput
  split at hput
  · next hroom =>
    cases hput
    unfold Out.put
    rw [hbs]
    simp only [hlength]
    rw [if_pos hroom]
    refine ⟨_, rfl, ⟨Out.overwrite array b.contents.length bs, ?_, ?_, ?_⟩, h.capacity_lt⟩
    · simp
    · simp [Out.overwrite, hlength]
      omega
    · rw [Out.overwrite, htake, ← List.length_append, List.take_left]
  · cases hput

/-- While the sizes are positive as `int`s, the stream does what the buffer
does. -/
theorem Sim.run {ops : List BufOp} {o : Out} {b b' : Buf UInt8} (h : Sim o b)
    (hrun : b.run doubling (opList ops) = some b')
    (hsizes : ∀ size ∈ b.sizes doubling (opList ops), size < 2 ^ 31) :
    ∃ o', o.applyAll ops = (o', true) ∧ Sim o' b' := by
  induction ops generalizing o b with
  | nil =>
    cases hrun
    exact ⟨o, rfl, h⟩
  | cons op ops ih =>
    unfold Out.applyAll
    cases op with
    | reserve len =>
      rcases h.reserve len fun hgrow => hsizes _ (Buf.grow_mem_sizes hgrow _)
        with ⟨o₁, hop, h₁⟩
      rw [show o.apply (.reserve len) = some o₁ from hop]
      exact ih h₁ hrun fun size hmem => hsizes size (Buf.sizes_reserve_subset b len _ hmem)
    | put bs =>
      rcases Option.bind_eq_some_iff.mp hrun with ⟨b₁, hput, hrest⟩
      rcases h.put hput with ⟨o₁, hop, h₁⟩
      rw [show o.apply (.put bs) = some o₁ from hop]
      rw [show opList (.put bs :: ops) = .put bs :: opList ops from rfl,
        Buf.sizes_put hput] at hsizes
      exact ih h₁ hrest hsizes

/-! ## The room that a write needs -/

/-- Where `r` more bytes fit, `w` returns, and `r'` more fit after it. -/
def RoomFor (r : Nat) (w : JOut Unit) (r' : Nat) : Prop :=
  ∀ ops, ∃ ops', w ops = .ok () (ops ++ ops') ∧ Takes r (opList ops') r'

theorem RoomFor.mono {w : JOut Unit} {r s r' s' : Nat} (h : RoomFor r w r') (hrs : r ≤ s)
    (hrs' : s' ≤ r') : RoomFor s w s' := by
  intro ops
  rcases h ops with ⟨ops', hrun, htakes⟩
  exact ⟨ops', hrun, htakes.mono hrs hrs'⟩

theorem RoomFor.pure (r : Nat) : RoomFor r (pure ()) r := by
  intro ops
  exact ⟨[], by rw [List.append_nil]; rfl, Nat.le_refl r⟩

/-- One write after the other. -/
theorem RoomFor.bind {m : JOut Unit} {f : Unit → JOut Unit} {r r' r'' : Nat}
    (hm : RoomFor r m r') (hf : RoomFor r' (f ()) r'') : RoomFor r (m >>= f) r'' := by
  intro ops
  rcases hm ops with ⟨ops₁, hrun₁, htakes₁⟩
  rcases hf (ops ++ ops₁) with ⟨ops₂, hrun₂, htakes₂⟩
  refine ⟨ops₁ ++ ops₂, ?_, ?_⟩
  · rw [bind_of_ok hrun₁, hrun₂, List.append_assoc]
  · rw [opList_append]
    exact htakes₁.append htakes₂

theorem put_roomFor {r : Nat} {bs : List UInt8} (h : bs.length ≤ r) :
    RoomFor r (put bs) (r - bs.length) :=
  fun _ => ⟨[.put bs], rfl, h, Nat.le_refl _⟩

/-- What is reserved can be used. -/
theorem RoomFor.reserve_then {f : Unit → JOut Unit} {r len r' : Nat}
    (h : RoomFor (max r len) (f ()) r') : RoomFor r (reserve len >>= f) r' := by
  have hreserve : RoomFor r (reserve len) (max r len) :=
    fun _ => ⟨[.reserve len], rfl, Nat.le_refl _⟩
  exact hreserve.bind h

/-- A loop whose items make their own room. -/
theorem RoomFor.writeAll {α : Type} {f : α → JOut Unit} (items : List α)
    (h : ∀ a ∈ items, RoomFor 0 (f a) 0) : RoomFor 0 ( ByteIO.writeAll f items) 0 := by
  induction items with
  | nil => exact RoomFor.pure 0
  | cons a items ih =>
    exact (h a List.mem_cons_self).bind (ih fun c hc => h c (List.mem_cons_of_mem a hc))

/-! ## The scalars -/

/-- The bytes of a header. -/
def headSize (tag : UInt8) : Nat := if tag < 15 then 1 else 2

theorem headSize_le (tag : UInt8) : headSize tag ≤ 2 := by
  unfold headSize
  split <;> omega

theorem writeHead_roomFor {r : Nat} (type tag : UInt8) (h : headSize tag ≤ r) :
    RoomFor r (writeHead type tag.toNat) (r - headSize tag) := by
  have hlt := tag.toNat_lt
  unfold writeHead
  unfold headSize at h ⊢
  by_cases hshort : tag < 15
  · rw [if_pos hshort] at h ⊢
    rw [if_pos (by exact_mod_cast hshort)]
    exact put_roomFor h
  · rw [if_neg hshort] at h ⊢
    rw [if_neg (by exact_mod_cast hshort), if_pos (by omega)]
    exact (put_roomFor (show 1 ≤ r by omega)).bind (put_roomFor (show 1 ≤ r - 1 by omega))

/-- A header and some bytes. -/
theorem writeHead_put_roomFor {r : Nat} (type tag : UInt8) {bs : List UInt8}
    (h : headSize tag + bs.length ≤ r) :
    RoomFor r (do writeHead type tag.toNat; put bs) (r - (headSize tag + bs.length)) := by
  rw [Nat.sub_add_eq]
  exact (writeHead_roomFor type tag (by omega)).bind (put_roomFor (by omega))

theorem writeByte_roomFor (r : Nat) (b : BitVec 8) (tag : UInt8) :
    RoomFor r (writeByte b tag.toNat) (max r 3 - (headSize tag + 1)) := by
  have hhead := headSize_le tag
  unfold writeByte
  apply RoomFor.reserve_then
  split
  · exact (writeHead_roomFor _ tag (by omega)).mono (Nat.le_refl _) (by omega)
  · exact writeHead_put_roomFor _ tag (by simp; omega)

theorem writeShort_roomFor (r : Nat) (n : BitVec 16) (tag : UInt8) :
    RoomFor r (writeShort n tag.toNat) (max r 4 - (headSize tag + 2)) := by
  have hhead := headSize_le tag
  unfold writeShort
  apply RoomFor.reserve_then
  split
  · exact (writeByte_roomFor _ _ tag).mono (Nat.le_refl _) (by omega)
  · exact writeHead_put_roomFor _ tag (by simp; omega)

theorem writeInt_roomFor (r : Nat) (n : BitVec 32) (tag : UInt8) :
    RoomFor r (writeInt n tag.toNat) (max r 6 - (headSize tag + 4)) := by
  have hhead := headSize_le tag
  unfold writeInt
  apply RoomFor.reserve_then
  split
  · exact (writeShort_roomFor _ _ tag).mono (Nat.le_refl _) (by omega)
  · exact writeHead_put_roomFor _ tag (by simp; omega)

theorem writeLong_roomFor (r : Nat) (n : BitVec 64) (tag : UInt8) :
    RoomFor r (writeLong n tag.toNat) (max r 10 - (headSize tag + 8)) := by
  have hhead := headSize_le tag
  unfold writeLong
  apply RoomFor.reserve_then
  split
  · exact (writeInt_roomFor _ _ tag).mono (Nat.le_refl _) (by omega)
  · exact writeHead_put_roomFor _ tag (by simp; omega)

theorem writePrim_roomFor (p : Prim) (v : PrimVal p) (tag : UInt8) :
    RoomFor 0 (writePrim p v tag.toNat) 0 := by
  have hhead := headSize_le tag
  have hzero {w : JOut Unit} {r : Nat} (h : RoomFor 0 w r) : RoomFor 0 w 0 :=
    h.mono (Nat.le_refl 0) (Nat.zero_le r)
  cases p with
  | bool => exact hzero (writeByte_roomFor 0 _ tag)
  | short => exact hzero (writeShort_roomFor 0 v tag)
  | int => exact hzero (writeInt_roomFor 0 v tag)
  | long => exact hzero (writeLong_roomFor 0 v tag)
  | float =>
    exact hzero (RoomFor.reserve_then (writeHead_put_roomFor _ tag (by simp; omega)))
  | double =>
    exact hzero (RoomFor.reserve_then (writeHead_put_roomFor _ tag (by simp; omega)))

/-! ## Strings and containers -/

/-- A header, a length and some bytes. -/
theorem writeHead_put_put_roomFor {r : Nat} (type tag : UInt8) {cs bs : List UInt8}
    (h : headSize tag + cs.length + bs.length ≤ r) :
    RoomFor r (do writeHead type tag.toNat; put cs; put bs) 0 := by
  have hhead := writeHead_roomFor type tag (show headSize tag ≤ r by omega)
  have hcs := put_roomFor (show cs.length ≤ r - headSize tag by omega)
  have hbs := put_roomFor (show bs.length ≤ r - headSize tag - cs.length by omega)
  exact hhead.bind (hcs.bind (hbs.mono (Nat.le_refl _) (Nat.zero_le _)))

theorem writeString_roomFor (s : List UInt8) (tag : UInt8) :
    RoomFor 0 (writeString s tag.toNat) 0 := by
  have hhead := headSize_le tag
  unfold writeString
  apply RoomFor.reserve_then
  split
  · exact writeHead_put_put_roomFor _ tag (by simp; omega)
  · exact writeHead_put_put_roomFor _ tag (by simp; omega)

/-- The characters are enough for the bytes. -/
theorem writeByteString_roomFor (s : List UInt16) (tag : UInt8) :
    RoomFor 0 (writeByteString s tag.toNat) 0 := by
  have hhead := headSize_le tag
  have hlength := hexStr2Bytes_length_le s
  unfold writeByteString
  apply RoomFor.reserve_then
  show RoomFor _ (if 255 < (hexStr2Bytes s).length then _ else _) 0
  split
  · exact writeHead_put_put_roomFor _ tag (by simp; omega)
  · exact writeHead_put_put_roomFor _ tag (by simp; omega)

/-- The length reserves room again, and leaves what the bytes need. -/
theorem writeByteArray_roomFor (l : List UInt8) (tag : UInt8) :
    RoomFor 0 (writeByteArray l tag.toNat) 0 := by
  have hhead := headSize_le tag
  unfold writeByteArray
  apply RoomFor.reserve_then
  refine (writeHead_roomFor protoSimpleList tag (by omega)).bind ?_
  refine (writeHead_roomFor protoByte 0 (show 1 ≤ _ by omega)).bind ?_
  refine (writeInt_roomFor _ (BitVec.ofNat 32 l.length) 0).bind ?_
  have hzero : headSize 0 = 1 := rfl
  exact (put_roomFor (by omega)).mono (Nat.le_refl _) (Nat.zero_le _)

/-- A header and a size, and then what makes its own room. -/
theorem writeHead_writeInt_roomFor {f : Unit → JOut Unit} (type tag : UInt8) (n : BitVec 32)
    (h : RoomFor 0 (f ()) 0) :
    RoomFor 0 (do reserve 8; writeHead type tag.toNat; writeInt n 0; f ()) 0 := by
  have hhead := headSize_le tag
  apply RoomFor.reserve_then
  refine (writeHead_roomFor type tag (by omega)).bind ?_
  refine (writeInt_roomFor _ n 0).bind ?_
  exact h.mono (Nat.zero_le _) (Nat.le_refl _)

theorem writeList_roomFor {α : Type} {element : α → Int → JOut Unit} (l : List α) (tag : UInt8)
    (h : ∀ e ∈ l, RoomFor 0 (element e (0 : UInt8).toNat) 0) :
    RoomFor 0 (writeList element l tag.toNat) 0 :=
  writeHead_writeInt_roomFor (f := fun _ => _) protoList tag _ (RoomFor.writeAll l h)

theorem writeMap_roomFor {κ ν : Type} {key : κ → Int → JOut Unit} {value : ν → Int → JOut Unit}
    (m : List (κ × ν)) (tag : UInt8)
    (hkey : ∀ en ∈ m, RoomFor 0 (key en.1 (0 : UInt8).toNat) 0)
    (hvalue : ∀ en ∈ m, RoomFor 0 (value en.2 (1 : UInt8).toNat) 0) :
    RoomFor 0 (writeMap key value m tag.toNat) 0 :=
  writeHead_writeInt_roomFor (f := fun _ => _) protoMap tag _
    (RoomFor.writeAll m fun en hen => (hkey en hen).bind (hvalue en hen))

theorem writeStruct_roomFor {writeTo : JOut Unit} (tag : UInt8) (h : RoomFor 0 writeTo 0) :
    RoomFor 0 (writeStruct writeTo tag.toNat) 0 := by
  have hhead := headSize_le tag
  unfold writeStruct
  apply RoomFor.reserve_then
  refine (writeHead_roomFor protoStructBegin tag (by omega)).bind ?_
  refine (h.mono (Nat.zero_le _) (Nat.le_refl _)).bind ?_
  apply RoomFor.reserve_then
  exact (writeHead_roomFor protoStructEnd 0 (show 1 ≤ _ by omega)).mono (Nat.le_refl _)
    (Nat.zero_le _)

/-! ## Every call -/

mutual

theorem writeObject_roomFor : ∀ (o : Obj) (tag : UInt8), RoomFor 0 (writeObject o tag.toNat) 0
  | .byte b, tag => (writeByte_roomFor 0 b tag).mono (Nat.le_refl 0) (Nat.zero_le _)
  | .prim p v, tag => writePrim_roomFor p v tag
  | .string s, tag => writeString_roomFor s tag
  | .bytes l, tag => writeByteArray_roomFor l tag
  | .array p l, tag => writeList_roomFor l tag fun e _ => writePrim_roomFor p e 0
  | .list l, tag => writeList_roomFor _ tag fun w hw => elements_roomFor l w hw 0
  | .map m, tag =>
    writeMap_roomFor _ tag (fun en hen => (entries_roomFor m en hen).1)
      (fun en hen => (entries_roomFor m en hen).2)
  | .struct o, tag => writeStruct_roomFor tag (calls_roomFor o)

theorem elements_roomFor : ∀ (l : List Obj), ∀ w ∈ elements l, ∀ tag : UInt8,
    RoomFor 0 (w tag.toNat) 0
  | e :: l, w, hw, tag => by
    rcases List.mem_cons.mp hw with heq | hmem
    · rw [heq]
      exact writeObject_roomFor e tag
    · exact elements_roomFor l w hmem tag

theorem entries_roomFor : ∀ (m : List (Obj × Obj)), ∀ en ∈ entries m,
    RoomFor 0 (en.1 (0 : UInt8).toNat) 0 ∧ RoomFor 0 (en.2 (1 : UInt8).toNat) 0
  | e :: m, en, hen => by
    rcases List.mem_cons.mp hen with heq | hmem
    · rw [heq]
      exact entry_roomFor e
    · exact entries_roomFor m en hmem

theorem entry_roomFor : ∀ e : Obj × Obj,
    RoomFor 0 ((entry e).1 (0 : UInt8).toNat) 0 ∧ RoomFor 0 ((entry e).2 (1 : UInt8).toNat) 0
  | (key, value) => ⟨writeObject_roomFor key 0, writeObject_roomFor value 1⟩

/-- A call makes its own room. -/
theorem call_roomFor : ∀ c : Call, RoomFor 0 (call c) 0
  | .write o tag => writeObject_roomFor o tag
  | .writeStringByte s tag => writeString_roomFor (hexStr2Bytes s) tag
  | .writeByteString s tag => writeByteString_roomFor s tag

theorem calls_roomFor : ∀ o : List Call, RoomFor 0 (calls o) 0
  | [] => RoomFor.pure 0
  | c :: o => (call_roomFor c).bind (calls_roomFor o)

end

/-! ## The growing is invisible -/

/-- What a call writes to an unbounded buffer. -/
def encoding (c : Call) : List UInt8 := toByteArray (Out.opsOf (call c))

/-- The values of `( bs.capacity() + len ) * 2` in these calls, as numbers,
when the first buffer has `n` bytes. -/
def allocations (n : Nat) (cs : List Call) : List Nat :=
  (Buf.empty n).sizes doubling (opList (cs.flatMap fun c => Out.opsOf (call c)))

theorem opsOf_call (c : Call) :
    call c [] = .ok () (Out.opsOf (call c)) ∧ Takes 0 (opList (Out.opsOf (call c))) 0 := by
  rcases call_roomFor c [] with ⟨ops, hrun, htakes⟩
  have hof : Out.opsOf (call c) = ops := by
    unfold Out.opsOf
    rw [hrun]
    rfl
  rw [hof]
  exact ⟨hrun, htakes⟩

theorem takes_calls (cs : List Call) :
    Takes 0 (opList (cs.flatMap fun c => Out.opsOf (call c))) 0 := by
  induction cs with
  | nil => exact Nat.le_refl 0
  | cons c cs ih =>
    rw [List.flatMap_cons, opList_append]
    exact (opsOf_call c).2.append ih

theorem toByteArray_calls (cs : List Call) :
    toByteArray (cs.flatMap fun c => Out.opsOf (call c)) = cs.flatMap encoding :=
  List.flatMap_assoc

/-- Whatever a call writes is its encoding. -/
theorem encoding_of_writes {c : Call} {bs : List UInt8} (h : Writes (call c) bs) :
    encoding c = bs := by
  rcases h [] with ⟨ops, hrun, hbytes⟩
  have hof : Out.opsOf (call c) = ops := by
    rw [Out.opsOf, hrun]
  rw [encoding, hof]
  exact hbytes

/-- The encoding of a call, in closed form. -/
theorem encoding_eq (c : Call) : encoding c = encCall c := encoding_of_writes (call_writes c)

/-- The encoding of a typed value is the format. -/
theorem encoding_obj (t : Ty) (v : Val t) (tag : UInt8) :
    encoding (.write (obj t v) tag) = enc endTag t tag v := by
  apply encoding_of_writes
  show Writes (writeObject (obj t v) tag.toNat) _
  rw [writeObject_obj]
  exact write_writes t v tag

/-- Whatever the first capacity and whatever is written: nothing throws, and
the bytes are those that the calls write to an unbounded buffer, as long as
the sizes stay below `2 ^ 31`. -/
theorem toByteArray_performAll {n : Nat} {cs : List Call} (hn : n < 2 ^ 31)
    (hsizes : ∀ size ∈ allocations n cs, size < 2 ^ 31) :
    ∃ o, (Out.allocate n).performAll ((cs.map call).map fun w => (w, false)) = (o, true) ∧
      o.bs.toByteArray = some (cs.flatMap encoding) := by
  rcases Buf.run_of_takes (p := doubling) (b := Buf.empty n) (takes_calls cs) (Nat.zero_le _)
    with ⟨b, hrun, hcontents⟩
  rcases (sim_allocate hn).run hrun hsizes with ⟨o, hall, hsim⟩
  refine ⟨o, Out.performAll_of_applyAll ?_ ?_, ?_⟩
  · intro w hw
    rcases List.mem_map.mp hw with ⟨c, _, hc⟩
    rw [← hc]
    exact ⟨_, (opsOf_call c).1⟩
  · rwa [List.flatMap_map]
  · rw [hsim.toByteArray_eq, hcontents, puts_opList, toByteArray_calls]
    rfl

/-- An empty buffer, and a map from a string to a list of an `int` and a
struct, at a tag that takes a header of two bytes. -/
theorem toByteArray_performAll_map :
    ∃ o, (Out.allocate 0).performAll (([.write (.map [(.string [107], .list [.prim .int 70000,
        .struct [.write (.bytes [1, 2]) 3, .writeByteString [65, 66] 15]])]) 200].map call).map
          fun w => (w, false)) = (o, true) ∧
      o.bs.toByteArray = some (List.flatMap encoding [.write (.map [(.string [107],
        .list [.prim .int 70000,
          .struct [.write (.bytes [1, 2]) 3, .writeByteString [65, 66] 15]])]) 200]) :=
  toByteArray_performAll (by decide) (by decide)

end OCServer.Java
