import Mathlib.Algebra.Ring.Int.Defs
import Mathlib.Data.List.Infix
import OCServer.Lib.Machine
import OCServer.Tls.Session

/-!
# What goes through a TLS connection

`BioPair` is what the adapter relies on: the pair hands on bytes in their order, and
OpenSSL only adds to what it has written.

`onWire_iff` is about what leaves the server.  What OpenSSL writes is sent completely and in
order, whatever happens to the connection; but a reply of the server does not go
through OpenSSL, so that the wire carries the TLS stream if and only if there is none.
`plain_after_handshake` and `feed_exact_iff` are about what arrives: nothing is decrypted
for the framer before the handshake, and what arrives is handed on exactly as it is
unless the pair refuses bytes.
-/

namespace OCServer.Tls

open Incremental

/-! ## The BIO pair -/

section

variable {σ : Type}

/-- OpenSSL has been at work: it may have written. -/
structure Works (written received : σ → List UInt8) (taken : σ → Nat) (s s' : σ) : Prop where
  written : written s <+: written s'
  taken : taken s' = taken s
  received : received s' = received s

/-- `written` is all that OpenSSL has written, of which `taken` bytes have been read at the other
end, and `received` is all that has been written there. -/
structure BioPair (ssl : Ssl σ) (written received : σ → List UInt8) (taken : σ → Nat) : Prop where
  taken_le : ∀ s, taken s ≤ (written s).length
  pending : ∀ s, ssl.BIO_pending s = (written s).length - taken s
  bio_read : ∀ s, (ssl.BIO_read s (ssl.BIO_pending s)).1 = ssl.BIO_pending s ∧
    (ssl.BIO_read s (ssl.BIO_pending s)).2.1 = (written s).drop (taken s) ∧
    written (ssl.BIO_read s (ssl.BIO_pending s)).2.2 = written s ∧
    taken (ssl.BIO_read s (ssl.BIO_pending s)).2.2 = (written s).length ∧
    received (ssl.BIO_read s (ssl.BIO_pending s)).2.2 = received s
  bio_write : ∀ s d, (ssl.BIO_write s d).1 ≤ d.length ∧
    received (ssl.BIO_write s d).2 = received s ++ d.take (ssl.BIO_write s d).1.toNat ∧
    written (ssl.BIO_write s d).2 = written s ∧ taken (ssl.BIO_write s d).2 = taken s
  do_handshake : ∀ s, Works written received taken s (ssl.SSL_do_handshake s).2
  read : ∀ s, Works written received taken s (ssl.SSL_read s).2.2
  write : ∀ s buf, Works written received taken s (ssl.SSL_write s buf).2
  shutdown : ∀ s, Works written received taken s (ssl.SSL_shutdown s).2

end

namespace Session

theorem Emits.works {s s' : Session} (h : Emits s s') :
    Works Session.written Session.received Session.sent s s' :=
  ⟨h.written, h.sent, h.received⟩

theorem bioPair : BioPair ssl written received sent where
  taken_le := sent_le
  pending _ := rfl
  bio_read s := by
    have hle := s.sent_le
    have hall : min (ssl.BIO_pending s) (s.written.length - s.sent) =
        s.written.length - s.sent := Nat.min_self _
    refine ⟨congrArg Nat.cast hall, ?_, rfl, ?_, rfl⟩
    · show (s.written.drop s.sent).take (min (ssl.BIO_pending s) (s.written.length - s.sent)) = _
      rw [hall, List.take_of_length_le (by rw [List.length_drop])]
    · show s.sent + min (ssl.BIO_pending s) (s.written.length - s.sent) = s.written.length
      omega
  bio_write s d := by
    have hlen : (d.take (17 * 1024)).length ≤ d.length := List.length_take_le' _ _
    refine ⟨Int.ofNat_le.mpr hlen, ?_, rfl, rfl⟩
    show s.received ++ d.take (17 * 1024) = s.received ++ d.take (d.take (17 * 1024)).length
    rw [List.length_take, ← List.take_eq_take_min]
  do_handshake s := s.doHandshake_emits.works
  read s := by
    show Works written received sent s s.read.2.2
    unfold read
    split_ifs <;> exact ⟨List.prefix_refl _, rfl, rfl⟩
  write s buf := (s.write_emits buf).works
  shutdown s := s.shutdown_emits.1.works

end Session

/-- The bytes that the writer has been given. -/
def sealedBytes (out : List Output) : List UInt8 := out.flatMap fun
  | .wire bytes => bytes
  | _ => []

/-- The bytes that `sendinl` has been given. -/
def onWire (out : List Output) : List UInt8 := out.flatMap fun
  | .wire bytes => bytes
  | .reply bytes => bytes
  | _ => []

theorem sealedBytes_append (o o' : List Output) :
    sealedBytes (o ++ o') = sealedBytes o ++ sealedBytes o' := List.flatMap_append

theorem onWire_append (o o' : List Output) : onWire (o ++ o') = onWire o ++ onWire o' :=
  List.flatMap_append

/-! ## One call -/

section

variable {σ : Type} {ssl : Ssl σ} {written received : σ → List UInt8} {taken : σ → Nat}

/-- A part of a call sends `out` and takes `inp` in. -/
structure Moves (written received : σ → List UInt8) (taken : σ → Nat) (s s' : σ)
    (out : List Output) (inp : List UInt8) : Prop where
  sent : (written s').take (taken s') = (written s).take (taken s) ++ sealedBytes out
  wire : onWire out = sealedBytes out
  received : received s' = received s ++ inp

variable {s s' s'' : σ} {out out' : List Output} {inp inp' : List UInt8}

theorem Moves.refl (s : σ) : Moves written received taken s s [] [] :=
  ⟨(List.append_nil _).symm, rfl, (List.append_nil _).symm⟩

theorem Moves.trans (h : Moves written received taken s s' out inp)
    (h' : Moves written received taken s' s'' out' inp') :
    Moves written received taken s s'' (out ++ out') (inp ++ inp') where
  sent := by rw [h'.sent, h.sent, sealedBytes_append, List.append_assoc]
  wire := by rw [onWire_append, sealedBytes_append, h.wire, h'.wire]
  received := by rw [h'.received, h.received, List.append_assoc]

/-- Outputs that are no bytes for the wire. -/
theorem Moves.quiet (h : Moves written received taken s s' out inp) {more : List Output}
    (hw : onWire more = []) (hs : sealedBytes more = []) :
    Moves written received taken s s' (out ++ more) inp where
  sent := by rw [h.sent, sealedBytes_append, hs, List.append_nil]
  wire := by rw [onWire_append, sealedBytes_append, h.wire, hw, hs]
  received := h.received

/-- What has been read does not change when OpenSSL writes more. -/
theorem Works.moves (hbio : BioPair ssl written received taken)
    (h : Works written received taken s s') : Moves written received taken s s' [] [] where
  sent := by
    obtain ⟨more, hmore⟩ := h.written
    rw [h.taken, ← hmore, List.take_append_of_le_length (hbio.taken_le s)]
    exact (List.append_nil _).symm
  wire := rfl
  received := by rw [h.received, List.append_nil]

/-- Sending what is pending. -/
theorem send_pending_moves (hbio : BioPair ssl written received taken)
    (h : evt_send_pending ssl s = .ok (s', out)) :
    Moves written received taken s s' out [] ∧ taken s' = (written s').length := by
  have hle := hbio.taken_le s
  have hpending := hbio.pending s
  obtain ⟨hret, hbuf, hwritten, htaken, hreceived⟩ := hbio.bio_read s
  unfold evt_send_pending at h
  simp only [hret, if_true] at h
  split_ifs at h with hpos
  · cases h
    refine ⟨⟨?_, rfl, ?_⟩, ?_⟩
    · rw [hwritten, htaken, List.take_length, hbuf]
      show _ = _ ++ ((written s).drop (taken s) ++ [])
      rw [List.append_nil, List.take_append_drop]
    · rw [hreceived, List.append_nil]
    · rw [htaken, hwritten]
  · cases h
    exact ⟨Moves.refl s, by omega⟩

/-- OpenSSL works, and what it has written is sent. -/
theorem Works.sends (hbio : BioPair ssl written received taken)
    (h : Works written received taken s s') (hsend : evt_send_pending ssl s' = .ok (s'', out)) :
    Moves written received taken s s'' out [] :=
  (h.moves hbio).trans (send_pending_moves hbio hsend).1

/-- The assertion about `BIO_read` holds. -/
theorem send_pending_ok (hbio : BioPair ssl written received taken) (s : σ) :
    ∃ s' out, evt_send_pending ssl s = .ok (s', out) := by
  unfold evt_send_pending
  simp only [(hbio.bio_read s).1, if_true]
  split_ifs
  · exact ⟨_, _, rfl⟩
  · exact ⟨_, _, rfl⟩

/-- Its outputs are bytes for the wire. -/
theorem send_pending_wire {o : Output} (h : evt_send_pending ssl s = .ok (s', out))
    (ho : o ∈ out) : ∃ bytes, o = .wire bytes := by
  unfold evt_send_pending at h
  simp only at h
  split_ifs at h
  · cases h
    exact ⟨_, List.mem_singleton.mp ho⟩
  · cases h
    cases ho

/-! ## What the operations do -/

variable {c : EvtTls σ} {d : Done σ}

theorem opShutdown_cases (h : opShutdown ssl c = .ok d) :
    ∃ s' out, evt_send_pending ssl (ssl.SSL_shutdown c.ssl).2 = .ok (s', out) ∧
      d = ⟨(ssl.SSL_shutdown c.ssl).1, { c with ssl := s' },
        out ++ if c.closeCb then [.closed] else []⟩ := by
  obtain ⟨⟨s', out⟩, hsend, hd⟩ := bind_eq_ok h
  cases hd
  exact ⟨s', out, hsend, rfl⟩

theorem handleShutdown_cases (h : handleShutdown ssl c = .ok d) :
    ∃ s' out, evt_send_pending ssl (ssl.SSL_shutdown c.ssl).2 = .ok (s', out) ∧
      d = ⟨(ssl.SSL_shutdown c.ssl).1, { c with ssl := s' },
        out ++ if (ssl.SSL_shutdown c.ssl).1 = 1 ∧ c.closeCb then [.closed] else []⟩ := by
  obtain ⟨⟨s', out⟩, hsend, hd⟩ := bind_eq_ok h
  cases hd
  exact ⟨s', out, hsend, rfl⟩

/-- The handshake goes on, succeeds, or fails, in which case the connection is closed. -/
theorem opHandshake_cases (h : opHandshake ssl c = .ok d) :
    ∃ s' out, evt_send_pending ssl (ssl.SSL_do_handshake c.ssl).2 = .ok (s', out) ∧
      (((ssl.SSL_do_handshake c.ssl).1 ≠ 1 ∧ d.conn = { c with ssl := s' } ∧ d.out = out) ∨
        (d.conn = { c with ssl := s', readCb := true } ∧ d.out = out ++ [.handshake 1]) ∨
        (ssl.SSL_do_handshake c.ssl).1 ≠ 1 ∧
          ∃ d', opShutdown ssl { c with ssl := s', closeCb := true } = .ok d' ∧ d.conn = d'.conn ∧
            d.out = out ++ .handshake 0 :: d'.out) := by
  obtain ⟨⟨s', out⟩, hsend, hd⟩ := bind_eq_ok h
  refine ⟨s', out, hsend, ?_⟩
  simp only at hd
  split_ifs at hd with hover
  · obtain ⟨⟨c', more⟩, hcomplete, hd⟩ := bind_eq_ok hd
    cases hd
    unfold on_hd_complete at hcomplete
    split_ifs at hcomplete with hone
    · cases hcomplete
      exact Or.inr (Or.inl ⟨rfl, by simp [hone]⟩)
    · obtain ⟨d', hclose, hd'⟩ := bind_eq_ok hcomplete
      cases hd'
      have hzero := hover.resolve_left hone
      exact Or.inr (Or.inr ⟨hone, d', hclose, rfl, by simp [hzero]⟩)
  · cases hd
    exact Or.inl ⟨fun hone => hover (Or.inl hone), rfl, rfl⟩

/-- A read finds the connection shut down, gets data, or fails. -/
theorem opRead_cases (h : opRead ssl c = .ok d) :
    handleShutdown ssl { c with ssl := (ssl.SSL_read c.ssl).2.2 } = .ok d ∨
      (∃ bytes, d.conn = { c with ssl := (ssl.SSL_read c.ssl).2.2 } ∧
        d.out = if c.readCb then [.plain bytes] else []) ∨
      ∃ s' out, evt_send_pending ssl (ssl.SSL_read c.ssl).2.2 = .ok (s', out) ∧
        d.conn = { c with ssl := s' } ∧ d.out = out := by
  unfold opRead at h
  simp only at h
  by_cases hzero : (ssl.SSL_read c.ssl).1 = 0
  · rw [if_pos hzero] at h
    exact Or.inl h
  by_cases hpos : 0 < (ssl.SSL_read c.ssl).1
  · rw [if_neg hzero, if_pos hpos] at h
    cases h
    exact Or.inr (Or.inl ⟨_, rfl, rfl⟩)
  · rw [if_neg hzero, if_neg hpos] at h
    obtain ⟨⟨s', out⟩, hsend, hd⟩ := bind_eq_ok h
    cases hd
    exact Or.inr (Or.inr ⟨s', out, hsend, rfl, rfl⟩)

/-- A write finds the connection shut down, or what it has written is sent. -/
theorem opWrite_cases {buf : List UInt8} (h : opWrite ssl c buf = .ok d) :
    handleShutdown ssl { c with ssl := (ssl.SSL_write c.ssl buf).2 } = .ok d ∨
      ∃ s' out, evt_send_pending ssl (ssl.SSL_write c.ssl buf).2 = .ok (s', out) ∧
        d.conn = { c with ssl := s' } ∧
        d.out = out ++ if 0 < (ssl.SSL_write c.ssl buf).1 then [.wrote (ssl.SSL_write c.ssl buf).1]
          else [] := by
  unfold opWrite at h
  simp only at h
  by_cases hempty : buf.length = 0
  · rw [if_pos hempty] at h
    cases h
  by_cases hzero : (ssl.SSL_write c.ssl buf).1 = 0
  · rw [if_neg hempty, if_pos hzero] at h
    exact Or.inl h
  · rw [if_neg hempty, if_neg hzero] at h
    obtain ⟨⟨s', out⟩, hsend, hd⟩ := bind_eq_ok h
    cases hd
    exact Or.inr ⟨s', out, hsend, rfl, rfl⟩

/-! ## Bytes for the wire -/

theorem opShutdown_moves (hbio : BioPair ssl written received taken)
    (h : opShutdown ssl c = .ok d) : Moves written received taken c.ssl d.conn.ssl d.out [] := by
  obtain ⟨s', out, hsend, rfl⟩ := opShutdown_cases h
  refine ((hbio.shutdown c.ssl).sends hbio hsend).quiet ?_ ?_
  · split_ifs <;> rfl
  · split_ifs <;> rfl

theorem handleShutdown_moves (hbio : BioPair ssl written received taken)
    (h : handleShutdown ssl c = .ok d) :
    Moves written received taken c.ssl d.conn.ssl d.out [] := by
  obtain ⟨s', out, hsend, rfl⟩ := handleShutdown_cases h
  refine ((hbio.shutdown c.ssl).sends hbio hsend).quiet ?_ ?_
  · split_ifs <;> rfl
  · split_ifs <;> rfl

theorem opHandshake_moves (hbio : BioPair ssl written received taken)
    (h : opHandshake ssl c = .ok d) : Moves written received taken c.ssl d.conn.ssl d.out [] := by
  obtain ⟨s', out, hsend, hcases⟩ := opHandshake_cases h
  have hmoves := (hbio.do_handshake c.ssl).sends hbio hsend
  rcases hcases with ⟨_, hconn, hout⟩ | ⟨hconn, hout⟩ | ⟨_, d', hclose, hconn, hout⟩
  · rw [hconn, hout]
    exact hmoves
  · rw [hconn, hout]
    exact hmoves.quiet rfl rfl
  · have hclosed : Moves written received taken s' d'.conn.ssl d'.out [] :=
      opShutdown_moves hbio hclose
    have hstatus : Moves written received taken c.ssl s' (out ++ [.handshake 0]) [] :=
      hmoves.quiet rfl rfl
    have hall := hstatus.trans hclosed
    rw [List.append_assoc] at hall
    rw [hconn, hout]
    exact hall

theorem opRead_moves (hbio : BioPair ssl written received taken) (h : opRead ssl c = .ok d) :
    Moves written received taken c.ssl d.conn.ssl d.out [] := by
  have hread := hbio.read c.ssl
  rcases opRead_cases h with hshut | ⟨bytes, hconn, hout⟩ | ⟨s', out, hsend, hconn, hout⟩
  · exact (hread.moves hbio).trans (handleShutdown_moves hbio hshut)
  · have hquiet : Moves written received taken c.ssl (ssl.SSL_read c.ssl).2.2
        ([] ++ if c.readCb then [.plain bytes] else []) [] := by
      refine (hread.moves hbio).quiet ?_ ?_
      · split_ifs <;> rfl
      · split_ifs <;> rfl
    rw [hconn, hout]
    exact hquiet
  · rw [hconn, hout]
    exact hread.sends hbio hsend

theorem opWrite_moves (hbio : BioPair ssl written received taken) {buf : List UInt8}
    (h : opWrite ssl c buf = .ok d) : Moves written received taken c.ssl d.conn.ssl d.out [] := by
  have hwrite := hbio.write c.ssl buf
  rcases opWrite_cases h with hshut | ⟨s', out, hsend, hconn, hout⟩
  · exact (hwrite.moves hbio).trans (handleShutdown_moves hbio hshut)
  · rw [hconn, hout]
    refine (hwrite.sends hbio hsend).quiet ?_ ?_
    · split_ifs <;> rfl
    · split_ifs <;> rfl

theorem tlsOp_moves (hbio : BioPair ssl written received taken) {op : TlsOp}
    (h : evt_tls_op ssl c op = .ok d) : Moves written received taken c.ssl d.conn.ssl d.out [] := by
  cases op with
  | handshake => exact opHandshake_moves hbio h
  | read => exact opRead_moves hbio h
  | write buf => exact opWrite_moves hbio h
  | shutdown => exact opShutdown_moves hbio h

/-! ## Bytes that arrive -/

/-- How far the results of `BIO_write` have taken the loop back. -/
def takenBack (is : List Int) : Int := (is.map fun i => max (-i) 0).sum

theorem takenBack_nonneg (is : List Int) : 0 ≤ takenBack is := by
  induction is with
  | nil => exact Int.le_refl 0
  | cons i is ih =>
    unfold takenBack at ih ⊢
    rw [List.map_cons, List.sum_cons]
    omega

/-- It has been taken back if and only if a result is negative. -/
theorem takenBack_eq_zero_iff (is : List Int) : takenBack is = 0 ↔ ∀ i ∈ is, 0 ≤ i := by
  induction is with
  | nil => simp [takenBack]
  | cons i is ih =>
    have hnonneg := takenBack_nonneg is
    have hcons : takenBack (i :: is) = max (-i) 0 + takenBack is := by
      rw [takenBack, List.map_cons, List.sum_cons, takenBack]
    rw [hcons, List.forall_mem_cons, ← ih]
    omega

/-- A result of the pair, in a run of the loop. -/
theorem feedLoop_cases {data : List UInt8} {fuel : Nat} {offset rv : Int} {is : List Int}
    (h : feedLoop ssl data (fuel + 1) offset rv c = .ok (d, is)) :
    (↑data.length ≤ offset ∧ d = ⟨rv, c, []⟩ ∧ is = []) ∨
      0 ≤ offset ∧ offset < data.length ∧ ∃ d₁ d₂ is',
        evt_tls_op ssl { c with ssl := (ssl.BIO_write c.ssl (data.drop offset.toNat)).2 }
          (if ssl.SSL_is_init_finished (ssl.BIO_write c.ssl (data.drop offset.toNat)).2 then .read
            else .handshake) = .ok d₁ ∧
        feedLoop ssl data fuel (offset + (ssl.BIO_write c.ssl (data.drop offset.toNat)).1) d₁.ret
          d₁.conn = .ok (d₂, is') ∧
        d.conn = d₂.conn ∧ d.out = d₁.out ++ d₂.out ∧
        is = (ssl.BIO_write c.ssl (data.drop offset.toNat)).1 :: is' := by
  rw [feedLoop] at h
  by_cases hend : offset < data.length
  · rw [if_neg (not_not.mpr hend)] at h
    by_cases hneg : offset < 0
    · rw [if_pos hneg] at h
      cases h
    · rw [if_neg hneg] at h
      obtain ⟨d₁, hop, h⟩ := bind_eq_ok h
      obtain ⟨⟨d₂, is'⟩, hrest, h⟩ := bind_eq_ok h
      cases h
      exact Or.inr ⟨by omega, hend, d₁, d₂, is', hop, hrest, rfl, rfl, rfl⟩
  · rw [if_pos hend] at h
    cases h
    exact Or.inl ⟨by omega, rfl, rfl⟩

/-- The loop hands on the rest of the data, and as much again as it is taken back. -/
theorem feedLoop_moves (hbio : BioPair ssl written received taken) {data : List UInt8}
    {fuel : Nat} {offset rv : Int} {is : List Int} (hoffset : offset ≤ data.length)
    (h : feedLoop ssl data fuel offset rv c = .ok (d, is)) :
    ∃ inp, Moves written received taken c.ssl d.conn.ssl d.out inp ∧
      (inp.length : Int) = data.length - offset + takenBack is ∧
      (takenBack is = 0 → 0 ≤ offset → inp = data.drop offset.toNat) := by
  induction fuel generalizing offset rv c d is with
  | zero => cases h
  | succ fuel ih =>
    rcases feedLoop_cases h with
      ⟨hend, rfl, rfl⟩ | ⟨hpos, hlt, d₁, d₂, is', hop, hrest, hconn, hout, rfl⟩
    · refine ⟨[], Moves.refl _, ?_, fun _ _ => ?_⟩
      · simp [takenBack]
        omega
      · rw [List.drop_of_length_le (by omega)]
    · obtain ⟨hle, hreceived, hwritten, htaken⟩ := hbio.bio_write c.ssl (data.drop offset.toNat)
      rw [List.length_drop] at hle
      obtain ⟨inp, hmoves, hlen, hexact⟩ := ih (by omega) hrest
      have hput : Moves written received taken c.ssl
          (ssl.BIO_write c.ssl (data.drop offset.toNat)).2 []
          ((data.drop offset.toNat).take
            (ssl.BIO_write c.ssl (data.drop offset.toNat)).1.toNat) :=
        ⟨by rw [hwritten, htaken]; exact (List.append_nil _).symm, rfl, hreceived⟩
      have hop' : Moves written received taken
          (ssl.BIO_write c.ssl (data.drop offset.toNat)).2 d₁.conn.ssl d₁.out [] :=
        tlsOp_moves hbio hop
      revert hop hrest hlen hexact hput hop' hle
      generalize (ssl.BIO_write c.ssl (data.drop offset.toNat)).1 = i
      intro _ _ hle hlen hexact hput hop'
      have hback : takenBack (i :: is') = max (-i) 0 + takenBack is' := by
        rw [takenBack, List.map_cons, List.sum_cons, takenBack]
      have hnonneg := takenBack_nonneg is'
      refine ⟨(data.drop offset.toNat).take i.toNat ++ inp, ?_, ?_, fun hzero _ => ?_⟩
      · have hall := (hput.trans hop').trans hmoves
        rw [List.append_nil, List.nil_append] at hall
        rw [hconn, hout]
        exact hall
      · rw [List.length_append, List.length_take, List.length_drop, hback]
        omega
      · have hi : 0 ≤ i := by omega
        have hsum : (offset + i).toNat = offset.toNat + i.toNat := by omega
        rw [hexact (by omega) (by omega), hsum, ← List.drop_drop, List.take_append_drop]

theorem feedLoop_received_iff (hbio : BioPair ssl written received taken) {fuel : Nat}
    {data : List UInt8} {rv : Int} {is : List Int}
    (h : feedLoop ssl data fuel 0 rv c = .ok (d, is)) :
    received d.conn.ssl = received c.ssl ++ data ↔ ∀ i ∈ is, 0 ≤ i := by
  obtain ⟨inp, hmoves, hlen, hexact⟩ := feedLoop_moves hbio (by omega) h
  rw [hmoves.received, List.append_cancel_left_eq, ← takenBack_eq_zero_iff]
  constructor
  · rintro rfl
    omega
  · intro hzero
    exact hexact hzero (Int.le_refl 0)

/-- When `evt_tls_feed_data` returns, exactly its data has been handed on, once and in order, if
and only if the pair has refused nothing. -/
theorem feed_exact_iff (hbio : BioPair ssl written received taken) {fuel : Nat}
    {data : List UInt8} {is : List Int} (h : evt_tls_feed_data ssl fuel c data = .ok (d, is)) :
    received d.conn.ssl = received c.ssl ++ data ↔ ∀ i ∈ is, 0 ≤ i := by
  unfold evt_tls_feed_data at h
  split_ifs at h
  exact feedLoop_received_iff hbio h

theorem feed_exact_iff_hello : Session.hello = [] ++ Session.hello ↔ ∀ i ∈ [(6 : Int)], 0 ≤ i :=
  feed_exact_iff Session.bioPair (show evt_tls_feed_data Session.ssl 2
    (evt_tls_accept (Session.new 0x5A)) Session.hello =
      .ok (⟨-1, Session.greeted, [.wire [0x16, 3, 3, 0, 1, 2]]⟩, [6]) from rfl)

/-! ## No call gets stuck -/

theorem opShutdown_ok (hbio : BioPair ssl written received taken) (c : EvtTls σ) :
    ∃ d, opShutdown ssl c = .ok d := by
  obtain ⟨s', out, hsend⟩ := send_pending_ok hbio (ssl.SSL_shutdown c.ssl).2
  rw [opShutdown, hsend]
  exact ⟨_, rfl⟩

theorem handleShutdown_ok (hbio : BioPair ssl written received taken) (c : EvtTls σ) :
    ∃ d, handleShutdown ssl c = .ok d := by
  obtain ⟨s', out, hsend⟩ := send_pending_ok hbio (ssl.SSL_shutdown c.ssl).2
  rw [handleShutdown, hsend]
  exact ⟨_, rfl⟩

theorem opHandshake_ok (hbio : BioPair ssl written received taken) (c : EvtTls σ) :
    ∃ d, opHandshake ssl c = .ok d := by
  obtain ⟨s', out, hsend⟩ := send_pending_ok hbio (ssl.SSL_do_handshake c.ssl).2
  have hcomplete : ∀ c status, ∃ r, on_hd_complete ssl c status = .ok r := by
    intro c status
    rw [on_hd_complete]
    split_ifs
    · exact ⟨_, rfl⟩
    · obtain ⟨d, hclose⟩ := opShutdown_ok hbio { c with closeCb := true }
      rw [evt_tls_close, hclose]
      exact ⟨_, rfl⟩
  obtain ⟨⟨c', more⟩, hcomplete⟩ :=
    hcomplete { c with ssl := s' } (ssl.SSL_do_handshake c.ssl).1
  by_cases hover : (ssl.SSL_do_handshake c.ssl).1 = 1 ∨ (ssl.SSL_do_handshake c.ssl).1 = 0
  · refine ⟨⟨(ssl.SSL_do_handshake c.ssl).1, c',
      out ++ .handshake (ssl.SSL_do_handshake c.ssl).1 :: more⟩, ?_⟩
    rw [opHandshake, hsend]
    show (if _ then on_hd_complete ssl _ _ >>= _ else _) = _
    rw [if_pos hover, hcomplete]
    rfl
  · refine ⟨⟨(ssl.SSL_do_handshake c.ssl).1, { c with ssl := s' }, out⟩, ?_⟩
    rw [opHandshake, hsend]
    exact if_neg hover

theorem opRead_ok (hbio : BioPair ssl written received taken) (c : EvtTls σ) :
    ∃ d, opRead ssl c = .ok d := by
  obtain ⟨s', out, hsend⟩ := send_pending_ok hbio (ssl.SSL_read c.ssl).2.2
  rw [opRead]
  simp only
  by_cases hzero : (ssl.SSL_read c.ssl).1 = 0
  · rw [if_pos hzero]
    exact handleShutdown_ok hbio _
  by_cases hpos : 0 < (ssl.SSL_read c.ssl).1
  · rw [if_neg hzero, if_pos hpos]
    exact ⟨_, rfl⟩
  · rw [if_neg hzero, if_neg hpos, hsend]
    exact ⟨_, rfl⟩

/-- Each round of the loop takes some of what is left. -/
theorem feedLoop_ok (hbio : BioPair ssl written received taken)
    (htakes : ∀ s d, d ≠ [] → 0 < (ssl.BIO_write s d).1) {data : List UInt8} {fuel : Nat}
    {offset rv : Int} (hpos : 0 ≤ offset) (hle : offset ≤ data.length)
    (hfuel : data.length < offset + fuel) (c : EvtTls σ) :
    ∃ d is, feedLoop ssl data fuel offset rv c = .ok (d, is) ∧ ∀ i ∈ is, 0 ≤ i := by
  induction fuel generalizing offset rv c with
  | zero => omega
  | succ fuel ih =>
    rw [feedLoop]
    by_cases hend : offset < data.length
    · have hleft : data.drop offset.toNat ≠ [] := by
        rw [Ne, List.drop_eq_nil_iff]
        omega
      have htake := htakes c.ssl _ hleft
      have hlimit := (hbio.bio_write c.ssl (data.drop offset.toNat)).1
      rw [List.length_drop] at hlimit
      obtain ⟨d₁, hop⟩ : ∃ d₁, evt_tls_op ssl
          { c with ssl := (ssl.BIO_write c.ssl (data.drop offset.toNat)).2 }
          (if ssl.SSL_is_init_finished (ssl.BIO_write c.ssl (data.drop offset.toNat)).2 then .read
            else .handshake) = .ok d₁ := by
        split_ifs
        · exact opRead_ok hbio _
        · exact opHandshake_ok hbio _
      obtain ⟨d₂, is, hrest, his⟩ : ∃ d₂ is, feedLoop ssl data fuel
          (offset + (ssl.BIO_write c.ssl (data.drop offset.toNat)).1) d₁.ret d₁.conn =
            .ok (d₂, is) ∧ ∀ i ∈ is, 0 ≤ i :=
        ih (by omega) (by omega) (by omega) d₁.conn
      refine ⟨{ d₂ with out := d₁.out ++ d₂.out },
        (ssl.BIO_write c.ssl (data.drop offset.toNat)).1 :: is, ?_, List.forall_mem_cons.mpr
          ⟨Int.le_of_lt htake, his⟩⟩
      rw [if_neg (not_not.mpr hend), if_neg (by omega)]
      show (evt_tls_op ssl _ _ >>= _) = _
      rw [hop]
      show (feedLoop ssl data fuel _ _ _ >>= _) = _
      rw [hrest]
      rfl
    · rw [if_pos hend]
      exact ⟨_, _, rfl, by simp⟩

/-- A pair that always takes something gets all the data, whatever OpenSSL answers. -/
theorem feed_returns (hbio : BioPair ssl written received taken)
    (htakes : ∀ s d, d ≠ [] → 0 < (ssl.BIO_write s d).1) {data : List UInt8} (hne : data ≠ [])
    {fuel : Nat} (hfuel : data.length < fuel) (c : EvtTls σ) :
    ∃ d is, evt_tls_feed_data ssl fuel c data = .ok (d, is) ∧
      received d.conn.ssl = received c.ssl ++ data := by
  obtain ⟨d, is, hloop, his⟩ : ∃ d is, feedLoop ssl data fuel 0 0 c = .ok (d, is) ∧
      ∀ i ∈ is, 0 ≤ i :=
    feedLoop_ok hbio htakes (Int.le_refl 0) (by omega) (by omega) c
  have hfeed : evt_tls_feed_data ssl fuel c data = .ok (d, is) := by
    rw [evt_tls_feed_data, if_neg fun h => hne (List.length_eq_zero_iff.mp h), hloop]
  exact ⟨d, is, hfeed, (feedLoop_received_iff hbio hloop).mpr his⟩

theorem feed_returns_hello :
    ∃ d is, evt_tls_feed_data Session.ssl 7 (evt_tls_accept (Session.new 0x5A)) Session.hello =
      .ok (d, is) ∧ d.conn.ssl.received = [] ++ Session.hello :=
  feed_returns Session.bioPair
    (fun _ d hne => by
      have hpos := List.length_pos_iff.mpr hne
      show (0 : Int) < (d.take (17 * 1024)).length
      rw [List.length_take]
      omega)
    (by decide) (by decide) (evt_tls_accept (Session.new 0x5A))

/-! ## Whole runs -/

/-- The bytes of the replies. -/
def replies (es : List ConnEvent) : List UInt8 := es.flatMap fun
  | .sendMsg netBuffer => netBuffer
  | _ => []

/-- One event sends what OpenSSL has written, and the reply. -/
theorem connStep_sent (hbio : BioPair ssl written received taken) {fuel : Nat} {c' : EvtTls σ}
    {e : ConnEvent} {out : List Output} (h : connStep ssl fuel c e = .ok (c', out)) :
    (written c'.ssl).take (taken c'.ssl) =
        (written c.ssl).take (taken c.ssl) ++ sealedBytes out ∧
      (onWire out).length = (sealedBytes out).length + (replies [e]).length ∧
      (replies [e] = [] → onWire out = sealedBytes out) := by
  have hof : ∀ {c' : EvtTls σ} {out : List Output} {inp : List UInt8}, replies [e] = [] →
      Moves written received taken c.ssl c'.ssl out inp →
      (written c'.ssl).take (taken c'.ssl) =
          (written c.ssl).take (taken c.ssl) ++ sealedBytes out ∧
        (onWire out).length = (sealedBytes out).length + (replies [e]).length ∧
        (replies [e] = [] → onWire out = sealedBytes out) := by
    intro c' out inp hnone hmoves
    refine ⟨hmoves.sent, ?_, fun _ => hmoves.wire⟩
    rw [hmoves.wire, hnone]
    rfl
  cases e with
  | data bytes =>
    rw [connStep] at h
    split_ifs at h with hempty
    · cases h
      exact hof rfl (Moves.refl _)
    · obtain ⟨⟨d, is⟩, hfeed, hd⟩ := bind_eq_ok h
      cases hd
      rw [evt_tls_feed_data, if_neg hempty] at hfeed
      obtain ⟨inp, hmoves, _⟩ := feedLoop_moves hbio (by omega) hfeed
      exact hof rfl hmoves
  | eof =>
    obtain ⟨d, hclose, hd⟩ := bind_eq_ok h
    cases hd
    have hmoves := opShutdown_moves hbio hclose
    exact hof rfl hmoves
  | write buf =>
    obtain ⟨d, hwrite, hd⟩ := bind_eq_ok h
    cases hd
    exact hof rfl (tlsOp_moves hbio hwrite)
  | sendMsg netBuffer =>
    rw [connStep] at h
    cases h
    split_ifs with hempty
    · have hnil : netBuffer = [] := List.length_eq_zero_iff.mp hempty
      subst hnil
      exact hof rfl (Moves.refl _)
    · refine ⟨(List.append_nil _).symm, ?_, fun hnone => ?_⟩
      · simp [onWire, sealedBytes, replies]
      · exact absurd (by simpa [replies] using hnone) fun hnil : netBuffer = [] =>
          hempty (List.length_eq_zero_iff.mpr hnil)

/-- A run. -/
theorem connRun_sent (hbio : BioPair ssl written received taken) {fuel : Nat} {c' : EvtTls σ}
    {es : List ConnEvent} {out : List Output} (h : connRun ssl fuel c es = .ok (c', out)) :
    (written c'.ssl).take (taken c'.ssl) =
        (written c.ssl).take (taken c.ssl) ++ sealedBytes out ∧
      (onWire out).length = (sealedBytes out).length + (replies es).length ∧
      (replies es = [] → onWire out = sealedBytes out) := by
  induction es generalizing c out with
  | nil =>
    cases h
    exact ⟨(List.append_nil _).symm, rfl, fun _ => rfl⟩
  | cons e es ih =>
    obtain ⟨c₁, o, o', hstep, hrun, rfl⟩ := feedAll_cons_inv h
    obtain ⟨hsent, hlen, hnone⟩ := connStep_sent hbio hstep
    obtain ⟨hsent', hlen', hnone'⟩ := ih hrun
    have hcons : replies (e :: es) = replies [e] ++ replies es := by
      rw [← List.singleton_append]
      exact List.flatMap_append
    refine ⟨?_, ?_, ?_⟩
    · rw [hsent', hsent, sealedBytes_append, List.append_assoc]
    · rw [onWire_append, sealedBytes_append, hcons]
      simp only [List.length_append, hlen, hlen']
      omega
    · intro hnil
      rw [hcons, List.append_eq_nil_iff] at hnil
      rw [onWire_append, sealedBytes_append, hnone hnil.1, hnone' hnil.2]

/-- In every run of a connection the writer is given what OpenSSL has written, nothing lost,
repeated or moved; and that is what goes to the socket if and only if the server has not
answered. -/
theorem onWire_iff (hbio : BioPair ssl written received taken) {fuel : Nat} {s : σ}
    {c' : EvtTls σ} {es : List ConnEvent} {out : List Output} (hnew : taken s = 0)
    (h : connRun ssl fuel (evt_tls_accept s) es = .ok (c', out)) :
    sealedBytes out = (written c'.ssl).take (taken c'.ssl) ∧
      (onWire out = (written c'.ssl).take (taken c'.ssl) ↔
        ∀ netBuffer, .sendMsg netBuffer ∈ es → netBuffer = []) := by
  obtain ⟨hsent, hlen, hnone⟩ := connRun_sent hbio h
  have hsealed : sealedBytes out = (written c'.ssl).take (taken c'.ssl) := by
    rw [hsent]
    show _ = (written s).take (taken s) ++ _
    rw [hnew, List.take_zero, List.nil_append]
  have hreplies : replies es = [] ↔ ∀ netBuffer, .sendMsg netBuffer ∈ es → netBuffer = [] := by
    rw [replies, List.flatMap_eq_nil_iff]
    constructor
    · intro hall netBuffer hmem
      exact hall _ hmem
    · intro hall e he
      cases e with
      | sendMsg netBuffer => exact hall netBuffer he
      | _ => rfl
  refine ⟨hsealed, ?_⟩
  rw [← hsealed, ← hreplies]
  constructor
  · intro heq
    rw [heq] at hlen
    exact List.length_eq_zero_iff.mp (by omega)
  · exact hnone

/-- Two flights of the handshake, and a reply behind them. -/
theorem onWire_iff_conversation :
    sealedBytes Session.said = [0x16, 3, 3, 0, 1, 2, 0x16, 3, 3, 0, 1, 20] ∧
      (onWire Session.said = [0x16, 3, 3, 0, 1, 2, 0x16, 3, 3, 0, 1, 20] ↔
        ∀ netBuffer, .sendMsg netBuffer ∈ Session.conversation → netBuffer = []) :=
  onWire_iff Session.bioPair rfl Session.conversation_run

/-! ## Nothing is decrypted before the handshake -/

/-- The framer gets bytes only when `read_cb` is set, before a call or by a handshake in it. -/
structure Gate (before after : Bool) (out : List Output) : Prop where
  plain : ∀ o bytes o', out = o ++ .plain bytes :: o' → before ∨ .handshake 1 ∈ o
  opened : after → before ∨ .handshake 1 ∈ out

theorem Gate.of_none {rc : Bool} {out : List Output} (h : ∀ bytes, .plain bytes ∉ out) :
    Gate rc rc out :=
  ⟨fun o bytes _ heq => absurd (heq ▸ List.mem_append_right o List.mem_cons_self) (h bytes),
    Or.inl⟩

theorem Gate.trans {b₁ b₂ b₃ : Bool} {o o' : List Output} (h : Gate b₁ b₂ o) (h' : Gate b₂ b₃ o') :
    Gate b₁ b₃ (o ++ o') where
  plain := by
    intro p bytes p' heq
    rcases List.append_eq_append_iff.mp heq with ⟨t, rfl, ht⟩ | ⟨t, rfl, ht⟩
    · rcases h'.plain t bytes p' ht with hb | hmem
      · exact (h.opened hb).imp_right (List.mem_append_left t)
      · exact Or.inr (List.mem_append_right o hmem)
    · cases t with
      | nil =>
        rcases h'.plain [] bytes p' ht.symm with hb | hmem
        · rw [List.append_nil] at h
          exact h.opened hb
        · cases hmem
      | cons x t =>
        obtain ⟨rfl, rfl⟩ := List.cons.inj ht
        exact h.plain p bytes t rfl
  opened := by
    intro hb
    rcases h'.opened hb with hb | hmem
    · exact (h.opened hb).imp_right (List.mem_append_left o')
    · exact Or.inr (List.mem_append_right o hmem)

/-- Bytes for the wire, and outputs behind them. -/
theorem send_pending_gate {rc : Bool} (h : evt_send_pending ssl s = .ok (s', out))
    {more : List Output} (hmore : ∀ bytes, .plain bytes ∉ more) : Gate rc rc (out ++ more) := by
  refine Gate.of_none fun bytes hmem => ?_
  rcases List.mem_append.mp hmem with hmem | hmem
  · obtain ⟨_, heq⟩ := send_pending_wire h hmem
    cases heq
  · exact hmore bytes hmem

theorem opShutdown_gate (h : opShutdown ssl c = .ok d) : Gate c.readCb d.conn.readCb d.out := by
  obtain ⟨s', out, hsend, rfl⟩ := opShutdown_cases h
  exact send_pending_gate hsend (by split_ifs <;> simp)

theorem handleShutdown_gate (h : handleShutdown ssl c = .ok d) :
    Gate c.readCb d.conn.readCb d.out := by
  obtain ⟨s', out, hsend, rfl⟩ := handleShutdown_cases h
  exact send_pending_gate hsend (by split_ifs <;> simp)

theorem opHandshake_gate (h : opHandshake ssl c = .ok d) : Gate c.readCb d.conn.readCb d.out := by
  obtain ⟨s', out, hsend, hcases⟩ := opHandshake_cases h
  have hgate : ∀ more : List Output, (∀ bytes, .plain bytes ∉ more) →
      Gate c.readCb c.readCb (out ++ more) := fun _ => send_pending_gate hsend
  rcases hcases with ⟨_, hconn, hout⟩ | ⟨hconn, hout⟩ | ⟨_, d', hclose, hconn, hout⟩
  · rw [hconn, hout]
    have hnone := hgate [] (by simp)
    rwa [List.append_nil] at hnone
  · rw [hconn, hout]
    exact ⟨(hgate [.handshake 1] (by simp)).plain, fun _ => Or.inr (by simp)⟩
  · have hall := (hgate [.handshake 0] (by simp)).trans
      (opShutdown_gate (c := { c with ssl := s', closeCb := true }) hclose)
    rw [List.append_assoc] at hall
    rw [hconn, hout]
    exact hall

theorem opRead_gate (h : opRead ssl c = .ok d) : Gate c.readCb d.conn.readCb d.out := by
  rcases opRead_cases h with hshut | ⟨bytes, hconn, hout⟩ | ⟨s', out, hsend, hconn, hout⟩
  · exact handleShutdown_gate (c := { c with ssl := (ssl.SSL_read c.ssl).2.2 }) hshut
  · rw [hconn, hout]
    split_ifs with hrc
    · exact ⟨fun _ _ _ _ => Or.inl hrc, Or.inl⟩
    · exact Gate.of_none (by simp)
  · have hnone : Gate c.readCb c.readCb (out ++ []) := send_pending_gate hsend (by simp)
    rw [List.append_nil] at hnone
    rw [hconn, hout]
    exact hnone

theorem tlsOp_gate {op : TlsOp} (h : evt_tls_op ssl c op = .ok d) :
    Gate c.readCb d.conn.readCb d.out := by
  cases op with
  | handshake => exact opHandshake_gate h
  | read => exact opRead_gate h
  | write buf =>
    rcases opWrite_cases h with hshut | ⟨s', out, hsend, hconn, hout⟩
    · exact handleShutdown_gate (c := { c with ssl := (ssl.SSL_write c.ssl buf).2 }) hshut
    · rw [hconn, hout]
      exact send_pending_gate hsend (by split_ifs <;> simp)
  | shutdown => exact opShutdown_gate h

theorem feedLoop_gate {data : List UInt8} {fuel : Nat} {offset rv : Int} {is : List Int}
    (h : feedLoop ssl data fuel offset rv c = .ok (d, is)) : Gate c.readCb d.conn.readCb d.out := by
  induction fuel generalizing offset rv c d is with
  | zero => cases h
  | succ fuel ih =>
    rcases feedLoop_cases h with ⟨_, rfl, _⟩ | ⟨_, _, d₁, d₂, is', hop, hrest, hconn, hout, _⟩
    · exact Gate.of_none (by simp)
    · have hfst := tlsOp_gate hop
      rw [hconn, hout]
      exact hfst.trans (ih hrest)

theorem connStep_gate {fuel : Nat} {c' : EvtTls σ} {e : ConnEvent} {out : List Output}
    (h : connStep ssl fuel c e = .ok (c', out)) : Gate c.readCb c'.readCb out := by
  cases e with
  | data bytes =>
    rw [connStep] at h
    split_ifs at h with hempty
    · cases h
      exact Gate.of_none (by simp)
    · obtain ⟨⟨d, is⟩, hfeed, hd⟩ := bind_eq_ok h
      cases hd
      rw [evt_tls_feed_data, if_neg hempty] at hfeed
      exact feedLoop_gate hfeed
  | eof =>
    obtain ⟨d, hclose, hd⟩ := bind_eq_ok h
    cases hd
    exact opShutdown_gate (c := { c with closeCb := true }) hclose
  | write buf =>
    obtain ⟨d, hwrite, hd⟩ := bind_eq_ok h
    cases hd
    exact tlsOp_gate hwrite
  | sendMsg netBuffer =>
    rw [connStep] at h
    cases h
    split_ifs
    · exact Gate.of_none (by simp)
    · exact Gate.of_none (by simp)

theorem connRun_gate {fuel : Nat} {c' : EvtTls σ} {es : List ConnEvent} {out : List Output}
    (h : connRun ssl fuel c es = .ok (c', out)) : Gate c.readCb c'.readCb out := by
  induction es generalizing c out with
  | nil =>
    cases h
    exact Gate.of_none (by simp)
  | cons e es ih =>
    obtain ⟨c₁, o, o', hstep, hrun, rfl⟩ := feedAll_cons_inv h
    exact (connStep_gate hstep).trans (ih hrun)

/-- Every output for the framer is behind a handshake that has succeeded. -/
def PlainAfterHandshake (out : List Output) : Prop :=
  ∀ o bytes o', out = o ++ .plain bytes :: o' → .handshake 1 ∈ o

/-- Whatever OpenSSL answers, the framer gets nothing before a handshake has succeeded. -/
theorem plain_after_handshake {fuel : Nat} {s : σ} {es : List ConnEvent} {c' : EvtTls σ}
    {out : List Output} (h : connRun ssl fuel (evt_tls_accept s) es = .ok (c', out)) :
    PlainAfterHandshake out := by
  intro o bytes o' heq
  rcases (connRun_gate h).plain o bytes o' heq with hb | hmem
  · cases hb
  · exact hmem

theorem plain_after_handshake_conversation : PlainAfterHandshake Session.said :=
  plain_after_handshake Session.conversation_run

end

end OCServer.Tls
