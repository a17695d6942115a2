import OCServer.Proto.JavaRead

/-!
# Skipping in `ProtoInputStream`

`skipField` goes to the end of every field of the format, nested to any
depth, and `skipToStructEnd` to the end of its own struct: `skipped_enc` and
`skipToStructEnd_enc`, by one recursion over the types.  A field takes no
more fuel than twice its length.
-/

namespace OCServer.Java

open BigEndian ByteIO ByteSource

/-! ## Moving the position -/

/-- `skip` over `len` bytes. -/
theorem skip_reads (len : Int) {bs : List UInt8} (hlen : len = bs.length) :
    Reads (skip len) bs () := by
  intro b r hb
  have hlength := at_length hb
  have hpos := b.pos_le
  have hle := b.limit_le
  have hlt := b.size_lt
  rw [List.length_append] at hlength
  have hint : (BitVec.ofInt 32 (b.pos + len)).toInt = b.pos + bs.length := by
    rw [hlen, show (b.pos : Int) + bs.length = (b.pos + bs.length : Nat) from rfl,
      BitVec.ofInt_natCast]
    exact toInt_size (by omega)
  have hnat : ((b.pos : Int) + bs.length).toNat = b.pos + bs.length := by omega
  have hin : 0 ≤ (b.pos : Int) + bs.length ∧
      ((b.pos : Int) + bs.length).toNat ≤ b.limit := by omega
  refine ⟨{ b with pos := ((b.pos : Int) + bs.length).toNat, pos_le := hin.2 }, ?_, ?_, rfl, rfl⟩
  · unfold skip
    rw [hint]
    unfold position
    rw [dif_pos hin]
  · show (b.data.take b.limit).drop ((b.pos : Int) + bs.length).toNat = r
    rw [hnat, ← List.drop_drop, show (b.data.take b.limit).drop b.pos = bs ++ r from hb,
      List.drop_left]

/-- A counted skip over as many items as were written. -/
theorem repeatSkip_reads {α : Type} {m : JIn Unit} {enc : α → List UInt8} (items : List α)
    (h : ∀ a ∈ items, Reads m (enc a) ()) :
    Reads (repeatSkip m items.length) (items.flatMap enc) () := by
  induction items with
  | nil => exact Reads.pure ()
  | cons a items ih =>
    rw [List.flatMap_cons]
    exact (h a List.mem_cons_self).bind (ih fun c hc => h c (List.mem_cons_of_mem a hc))

/-- The same over pairs. -/
theorem repeatSkip_pairs {α : Type} {m : JIn Unit} {enc enc' : α → List UInt8} (items : List α)
    (h : ∀ a ∈ items, Reads m (enc a) () ∧ Reads m (enc' a) ()) :
    Reads (repeatSkip m (2 * items.length)) (items.flatMap fun a => enc a ++ enc' a) () := by
  induction items with
  | nil => exact Reads.pure ()
  | cons a items ih =>
    rcases h a List.mem_cons_self with ⟨hk, hv⟩
    rw [List.flatMap_cons, List.append_assoc]
    exact hk.bind (hv.bind (ih fun c hc => h c (List.mem_cons_of_mem a hc)))

/-! ## Fields -/

/-- The bytes of a field at the tag that `skipField` skips: a header, and
what `skipField( type )` takes. -/
def Skipped (tag : UInt8) (bs : List UInt8) : Prop :=
  ∃ type rest, type.toNat < 16 ∧ type ≠ protoStructEnd ∧ bs = encHead type tag ++ rest ∧
    ∀ fuel, 2 * bs.length ≤ fuel + 1 → Reads (skipField fuel type) rest ()

/-- A field whose type needs no recursion. -/
theorem Skipped.of_head {type tag : UInt8} {rest : List UInt8} (htype : type.toNat < 16)
    (hne : type ≠ protoStructEnd)
    (h : ∀ fuel, 2 * rest.length ≤ fuel → Reads (skipField (fuel + 1) type) rest ()) :
    Skipped tag (encHead type tag ++ rest) := by
  refine ⟨type, rest, htype, hne, rfl, fun fuel hfuel => ?_⟩
  have hhead := encHead_length_pos type tag
  rw [List.length_append] at hfuel
  cases fuel with
  | zero => omega
  | succ fuel => exact h fuel (by omega)

theorem Skipped.skipAny {tag : UInt8} {bs : List UInt8} (h : Skipped tag bs) {fuel : Nat}
    (hfuel : 2 * bs.length ≤ fuel) : Reads (skipAny fuel) bs () := by
  rcases h with ⟨type, rest, htype, _, rfl, hskip⟩
  have hhead := encHead_length_pos type tag
  cases fuel with
  | zero =>
    rw [List.length_append] at hfuel
    omega
  | succ fuel =>
    unfold Java.skipAny
    exact (readHead_reads htype tag).bind (hskip fuel hfuel)

theorem skipped_int (tag : UInt8) (n : Int) : Skipped tag (encInt tag n) := by
  have hzero : Skipped tag (encHead protoZeroTag tag ++ []) := by
    refine .of_head (by decide) (by decide) fun fuel _ => ?_
    unfold skipField
    exact Reads.pure ()
  rw [List.append_nil] at hzero
  unfold encInt
  split
  · exact hzero
  · split
    · exact .of_head (by decide) (by decide) fun fuel _ => skip_reads 1 rfl
    · split
      · exact .of_head (by decide) (by decide) fun fuel _ => skip_reads 2 rfl
      · split
        · exact .of_head (by decide) (by decide) fun fuel _ => skip_reads 4 rfl
        · exact .of_head (by decide) (by decide) fun fuel _ => skip_reads 8 rfl

theorem skipped_prim (tag : UInt8) (p : Prim) (v : PrimVal p) :
    Skipped tag (encPrim tag p v) := by
  cases p with
  | float => exact .of_head (by decide) (by decide) fun fuel _ => skip_reads 4 rfl
  | double => exact .of_head (by decide) (by decide) fun fuel _ => skip_reads 8 rfl
  | _ => exact skipped_int tag _

theorem skipped_string (tag : UInt8) (s : List UInt8) : Skipped tag (encString tag s) := by
  unfold encString
  split
  · rw [List.append_assoc]
    refine .of_head (by decide) (by decide) fun fuel _ => reads_of_length fun hlt => ?_
    rw [List.length_append, beBytes_length] at hlt
    have hlen : (BitVec.ofNat 32 s.length).toInt = s.length := toInt_size (by omega)
    exact (getBits_reads_nat (k := 32) (w := 4) rfl (by omega)).bind (skip_reads _ hlen)
  · rw [List.append_assoc]
    refine .of_head (by decide) (by decide) fun fuel _ => ?_
    have hlen : (BitVec.ofNat 8 s.length).toNat = s.length := by
      rw [BitVec.toNat_ofNat]
      omega
    exact (getBits_reads_nat (k := 8) (w := 1) rfl (by omega)).bind
      (f := fun n : BitVec 8 => skip n.toNat) (skip_reads _ (congrArg Nat.cast hlen))

theorem skipped_bytes (tag : UInt8) (bytes : List UInt8) :
    Skipped tag (encHead protoSimpleList tag ++
      (encHead protoByte 0 ++ (encSize bytes.length ++ bytes))) := by
  refine .of_head (by decide) (by decide) fun fuel hfuel => reads_of_length fun hlt => ?_
  have hhead := encHead_length_pos protoByte 0
  simp only [List.length_append] at hfuel hlt
  cases fuel with
  | zero => omega
  | succ fuel =>
    refine (readHead_reads (show protoByte.toNat < 16 by decide) 0).bind ?_
    exact (readSize_reads fuel bytes.length).bind (skip_reads _ (toInt_size (by omega)))

/-- A list of skipped elements. -/
theorem skipped_list {α : Type} (tag : UInt8) {encElem : α → List UInt8} (vs : List α)
    (h : ∀ v ∈ vs, Skipped 0 (encElem v)) (hpos : ∀ v, 0 < (encElem v).length) :
    Skipped tag (encHead protoList tag ++ (encSize vs.length ++ vs.flatMap encElem)) := by
  refine .of_head (by decide) (by decide) fun fuel hfuel => reads_of_length fun hlt => ?_
  have hsize := encInt_length_pos 0 (BitVec.ofNat 32 vs.length).toInt
  have hle := length_le_flatMap hpos vs
  unfold encSize at hfuel hlt
  rw [List.length_append] at hfuel hlt
  cases fuel with
  | zero => omega
  | succ fuel =>
    refine (readSize_reads fuel vs.length).bind ?_
    rw [toInt_size (by omega), Int.toNat_natCast]
    apply repeatSkip_reads
    intro v hv
    have hv' := length_le_of_mem encElem hv
    exact (h v hv).skipAny (by omega)

/-- A map of skipped keys and values. -/
theorem skipped_map {α : Type} (tag : UInt8) {encKey encValue : α → List UInt8} (m : List α)
    (hk : ∀ e ∈ m, Skipped 0 (encKey e)) (hv : ∀ e ∈ m, Skipped 1 (encValue e))
    (hkpos : ∀ e, 0 < (encKey e).length) (hvpos : ∀ e, 0 < (encValue e).length) :
    Skipped tag (encHead protoMap tag ++
      (encSize m.length ++ m.flatMap fun e => encKey e ++ encValue e)) := by
  refine .of_head (by decide) (by decide) fun fuel hfuel => reads_of_length fun hlt => ?_
  have hsize := encInt_length_pos 0 (BitVec.ofNat 32 m.length).toInt
  have hentry : ∀ e, (encKey e ++ encValue e).length = (encKey e).length + (encValue e).length :=
    fun e => List.length_append
  -- an entry takes two bytes at least, so that twice the size is an `int`
  have hle := mul_length_le_flatMap (k := 2) (f := fun e => encKey e ++ encValue e)
    (fun e => by have := hkpos e; have := hvpos e; have := hentry e; omega) m
  unfold encSize at hfuel hlt
  rw [List.length_append] at hfuel hlt
  have hint : (BitVec.ofNat 32 m.length * 2).toInt = (m.length * 2 : Nat) := by
    rw [show (2 : BitVec 32) = BitVec.ofNat 32 2 from rfl, ← BitVec.ofNat_mul]
    exact toInt_size (by omega)
  cases fuel with
  | zero => omega
  | succ fuel =>
    refine (readSize_reads fuel m.length).bind ?_
    rw [hint, Int.toNat_natCast, Nat.mul_comm]
    apply repeatSkip_pairs
    intro e he
    have hmem := length_le_of_mem (fun e => encKey e ++ encValue e) he
    have := hentry e
    exact ⟨(hk e he).skipAny (by omega), (hv e he).skipAny (by omega)⟩

mutual

/-- Every field is skipped. -/
theorem skipped_enc (endTag : UInt8 → UInt8) : ∀ (t : Ty) (tag : UInt8) (v : Val t),
    Skipped tag (enc endTag t tag v)
  | .byte, tag, v => skipped_int tag _
  | .prim p, tag, v => skipped_prim tag p v
  | .string, tag, v => skipped_string tag v
  | .bytes, tag, v => by
    unfold enc
    rw [List.append_assoc, List.append_assoc]
    exact skipped_bytes tag v
  | .array p, tag, vs => by
    unfold enc
    rw [List.append_assoc]
    exact skipped_list tag vs (fun v _ => skipped_prim 0 p v) (encPrim_length_pos 0 p)
  | .list t, tag, vs => by
    unfold enc
    rw [List.append_assoc]
    exact skipped_list tag vs (fun v _ => skipped_enc endTag t 0 v) (enc_length_pos endTag t 0)
  | .strMap, tag, m => by
    unfold enc
    rw [List.append_assoc]
    exact skipped_map tag m (fun e _ => skipped_string 0 e.1) (fun e _ => skipped_string 1 e.2)
      (fun e => encString_length_pos 0 e.1) (fun e => encString_length_pos 1 e.2)
  | .map k v, tag, m => by
    unfold enc
    rw [List.append_assoc]
    exact skipped_map tag m (fun e _ => skipped_enc endTag k 0 e.1)
      (fun e _ => skipped_enc endTag v 1 e.2) (fun e => enc_length_pos endTag k 0 e.1)
      (fun e => enc_length_pos endTag v 1 e.2)
  | .struct fs, tag, v => by
    unfold enc
    rw [List.append_assoc]
    refine .of_head (by decide) (by decide) fun fuel hfuel => ?_
    have hend := encHead_length_pos protoStructEnd (endTag tag)
    rw [List.length_append] at hfuel
    exact skipToStructEnd_enc endTag fs v (endTag tag) fuel (by omega)

/-- The fields of a struct are skipped with its end. -/
theorem skipToStructEnd_enc (endTag : UInt8 → UInt8) : ∀ (fs : Fields) (v : FieldVals fs)
    (tag : UInt8) (fuel : Nat), 2 * (encFields endTag fs v).length + 2 ≤ fuel →
    Reads (skipToStructEnd fuel) (encFields endTag fs v ++ encHead protoStructEnd tag) ()
  | .nil, v, tag, fuel, hfuel => by
    cases fuel with
    | zero => omega
    | succ fuel =>
      cases fuel with
      | zero => omega
      | succ fuel => exact skipToStructEnd_reads fuel tag
  | .cons t ty fs, v, tag, fuel, hfuel => by
    rcases skipped_enc endTag ty t v.1 with ⟨type, rest, htype, hne, henc, hskip⟩
    have hpos := enc_length_pos endTag ty t v.1
    unfold encFields at hfuel ⊢
    rw [List.length_append] at hfuel
    cases fuel with
    | zero => omega
    | succ fuel =>
      have hfield := hskip fuel (by omega)
      have hrest := skipToStructEnd_enc endTag fs v.2 tag fuel (by omega)
      rw [henc, List.append_assoc, List.append_assoc]
      unfold skipToStructEnd
      refine (readHead_reads htype t).bind (hfield.bind ?_)
      dsimp only
      rw [if_neg hne]
      exact hrest

end

end OCServer.Java
