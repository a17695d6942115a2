import OCServer.Lib.Backlog
import OCServer.PacketSync.Run
import OCServer.Tls.Stream

/-!
# Records that wait

TLS carries the packets of a client in records.  `SSL_read` returns the contents of one of
them, and `evt_tls_feed_data` reads once for each `BIO_write`, so that records wait in
OpenSSL when more than one has arrived at once, or when one has arrived together
with the end of the handshake.

`RecordLayer` is what the adapter relies on.  `framer_gets` says that the framer gets the
records in their order, and how many wait: they are the backlog of a queue that is
served at the calls of `BIO_write`.  `delivers_all_iff` is about the packets in the records.
-/

namespace OCServer.Tls

open Incremental Backlog

/-! ## The record layer -/

section

variable {σ : Type} (ssl : Ssl σ) (arrived : σ → List (List UInt8)) (taken : σ → Nat)

/-- The records stay as they are. -/
structure Keeps (s s' : σ) : Prop where
  arrived : arrived s' = arrived s
  taken : taken s' = taken s

/-- `arrived` are the contents of the records that have been written to the pair, as the peer
has sealed them, of which `taken` have been read. -/
structure RecordLayer : Prop where
  taken_le : ∀ s, taken s ≤ (arrived s).length
  size : ∀ s, ∀ r ∈ arrived s, 0 < r.length ∧ r.length ≤ 16 * 1024
  bio_write : ∀ s d, arrived s <+: arrived (ssl.BIO_write s d).2 ∧
    taken (ssl.BIO_write s d).2 = taken s ∧
    ssl.SSL_is_init_finished (ssl.BIO_write s d).2 = ssl.SSL_is_init_finished s
  bio_read : ∀ s n, Keeps arrived taken s (ssl.BIO_read s n).2.2 ∧
    ssl.SSL_is_init_finished (ssl.BIO_read s n).2.2 = ssl.SSL_is_init_finished s
  shutdown : ∀ s, Keeps arrived taken s (ssl.SSL_shutdown s).2 ∧
    ssl.SSL_is_init_finished (ssl.SSL_shutdown s).2 = ssl.SSL_is_init_finished s
  do_handshake : ∀ s, Keeps arrived taken s (ssl.SSL_do_handshake s).2 ∧
    ((ssl.SSL_do_handshake s).1 ≠ 1 → ssl.SSL_is_init_finished (ssl.SSL_do_handshake s).2 →
      ssl.SSL_is_init_finished s)
  read : ∀ s r, ssl.SSL_is_init_finished s → (arrived s)[taken s]? = some r →
    (ssl.SSL_read s).1 = r.length ∧ (ssl.SSL_read s).2.1.take r.length = r ∧
      arrived (ssl.SSL_read s).2.2 = arrived s ∧ taken (ssl.SSL_read s).2.2 = taken s + 1
  read_none : ∀ s, ssl.SSL_is_init_finished s → (arrived s)[taken s]? = none →
    (ssl.SSL_read s).1 ≤ 0 ∧ Keeps arrived taken s (ssl.SSL_read s).2.2

/-- How many records wait. -/
def unread (s : σ) : Nat := (arrived s).length - taken s

/-- `read_cb` is set once the handshake is over. -/
def Ready (c : EvtTls σ) : Prop := ssl.SSL_is_init_finished c.ssl → c.readCb

/-- The calls of `BIO_write` in the loop of `evt_tls_feed_data`: the `SSL` object in front of
the call, and the bytes. -/
def feedCalls (data : List UInt8) : Nat → Int → EvtTls σ → List (σ × List UInt8)
  | 0, _, _ => []
  | fuel + 1, offset, c =>
    if ¬offset < data.length then []
    else
      let i := ssl.BIO_write c.ssl (data.drop offset.toNat)
      let c' := { c with ssl := i.2 }
      (c.ssl, data.drop offset.toNat) ::
        match evt_tls_op ssl c' (if ssl.SSL_is_init_finished c'.ssl then .read else .handshake) with
        | .ok done => feedCalls data fuel (offset + i.1) done.conn
        | .error _ => []

/-- Those of an event. -/
def stepCalls (fuel : Nat) (c : EvtTls σ) : ConnEvent → List (σ × List UInt8)
  | .data bytes => feedCalls ssl bytes fuel 0 c
  | _ => []

/-- Those of a run. -/
def runCalls (fuel : Nat) : EvtTls σ → List ConnEvent → List (σ × List UInt8)
  | _, [] => []
  | c, e :: es =>
    stepCalls ssl fuel c e ++
      match connStep ssl fuel c e with
      | .ok (c', _) => runCalls fuel c' es
      | .error _ => []

/-- The call is followed by a read. -/
def reads (call : σ × List UInt8) : Bool :=
  ssl.SSL_is_init_finished (ssl.BIO_write call.1 call.2).2

/-- How many records the call completes. -/
def completes (call : σ × List UInt8) : Nat :=
  (arrived (ssl.BIO_write call.1 call.2).2).length - (arrived call.1).length

end

theorem Session.Emits.keeps {s s' : Session} (h : Emits s s') :
    Keeps Session.arrived Session.taken s s' :=
  ⟨h.arrived, h.taken⟩

theorem Session.recordLayer : RecordLayer Session.ssl Session.arrived Session.taken where
  taken_le := Session.taken_le
  size s r h := contents_size h
  bio_write s d := ⟨contents_append s.key s.received _, rfl, rfl⟩
  bio_read s n := ⟨⟨rfl, rfl⟩, rfl⟩
  shutdown s := ⟨s.shutdown_emits.1.keeps, s.shutdown_emits.2⟩
  do_handshake s := ⟨s.doHandshake_emits.keeps, doHandshake_finished⟩
  read s r hfinished h := by
    obtain ⟨hlt, rfl⟩ := List.getElem?_eq_some_iff.mp h
    have hread : Session.ssl.SSL_read s = (_, _, _) := dif_pos ⟨hfinished, hlt⟩
    rw [hread]
    exact ⟨rfl, List.take_length, rfl, rfl⟩
  read_none s _ h := by
    have hnone : ¬(s.finished = true ∧ s.taken < s.arrived.length) := fun hlt =>
      Nat.not_lt.mpr (List.getElem?_eq_none_iff.mp h) hlt.2
    have hread : Session.ssl.SSL_read s = _ := dif_neg hnone
    rw [hread]
    split_ifs
    · exact ⟨Int.le_refl 0, ⟨rfl, rfl⟩⟩
    · exact ⟨(by decide : (-1 : Int) ≤ 0), ⟨rfl, rfl⟩⟩

/-- What the framer gets. -/
def plains (out : List Output) : List (List UInt8) := out.filterMap fun
  | .plain bytes => some bytes
  | _ => none

theorem plains_append (o o' : List Output) : plains (o ++ o') = plains o ++ plains o' :=
  List.filterMap_append

theorem plains_wire {out : List Output} (h : ∀ o ∈ out, ∃ bytes, o = .wire bytes) :
    plains out = [] := by
  rw [plains, List.filterMap_eq_nil_iff]
  intro o ho
  obtain ⟨bytes, rfl⟩ := h o ho
  rfl

/-! ## One call -/

section

variable {σ : Type} {ssl : Ssl σ} {arrived : σ → List (List UInt8)} {taken : σ → Nat}
  {s s' s'' : σ} {c c' c'' : EvtTls σ} {d : Done σ} {out out' : List Output}

theorem Keeps.refl (s : σ) : Keeps arrived taken s s := ⟨rfl, rfl⟩

theorem Keeps.trans (h : Keeps arrived taken s s') (h' : Keeps arrived taken s' s'') :
    Keeps arrived taken s s'' :=
  ⟨h'.arrived.trans h.arrived, h'.taken.trans h.taken⟩

/-- A part of a call in which no record is read. -/
structure Idles (ssl : Ssl σ) (arrived : σ → List (List UInt8)) (taken : σ → Nat)
    (c c' : EvtTls σ) (out : List Output) : Prop where
  keeps : Keeps arrived taken c.ssl c'.ssl
  plains : plains out = []
  ready : Ready ssl c → Ready ssl c'

theorem send_pending_keeps (hrec : RecordLayer ssl arrived taken)
    (h : evt_send_pending ssl s = .ok (s', out)) :
    Keeps arrived taken s s' ∧ ssl.SSL_is_init_finished s' = ssl.SSL_is_init_finished s ∧
      plains out = [] := by
  refine ⟨?_, ?_, plains_wire fun o ho => send_pending_wire h ho⟩
  all_goals
    unfold evt_send_pending at h
    simp only at h
    split_ifs at h
    · cases h
      first | exact (hrec.bio_read s _).1 | exact (hrec.bio_read s _).2
    · cases h
      first | exact Keeps.refl s | rfl

theorem opShutdown_idles (hrec : RecordLayer ssl arrived taken)
    (h : opShutdown ssl c = .ok d) : Idles ssl arrived taken c d.conn d.out := by
  obtain ⟨s', out, hsend, rfl⟩ := opShutdown_cases h
  obtain ⟨hkeeps, hfin, hplains⟩ := send_pending_keeps hrec hsend
  obtain ⟨hshut, hfin'⟩ := hrec.shutdown c.ssl
  refine ⟨hshut.trans hkeeps, ?_, fun hready hf => hready ?_⟩
  · rw [plains_append, hplains]
    split_ifs <;> rfl
  · rwa [← hfin', ← hfin]

theorem handleShutdown_idles (hrec : RecordLayer ssl arrived taken)
    (h : handleShutdown ssl c = .ok d) : Idles ssl arrived taken c d.conn d.out := by
  obtain ⟨s', out, hsend, rfl⟩ := handleShutdown_cases h
  obtain ⟨hkeeps, hfin, hplains⟩ := send_pending_keeps hrec hsend
  obtain ⟨hshut, hfin'⟩ := hrec.shutdown c.ssl
  refine ⟨hshut.trans hkeeps, ?_, fun hready hf => hready ?_⟩
  · rw [plains_append, hplains]
    split_ifs <;> rfl
  · rwa [← hfin', ← hfin]

/-- The handshake reads nothing, and `read_cb` is set when it is over. -/
theorem opHandshake_idles (hrec : RecordLayer ssl arrived taken)
    (h : opHandshake ssl c = .ok d) : Idles ssl arrived taken c d.conn d.out := by
  obtain ⟨s', out, hsend, hcases⟩ := opHandshake_cases h
  obtain ⟨hkeeps, hfin, hplains⟩ := send_pending_keeps hrec hsend
  obtain ⟨hshake, hone⟩ := hrec.do_handshake c.ssl
  have hready : (ssl.SSL_do_handshake c.ssl).1 ≠ 1 → Ready ssl c → ∀ c₁ : EvtTls σ,
      c₁.ssl = s' → c₁.readCb = c.readCb → Ready ssl c₁ := by
    rintro hne hc c₁ rfl hcb hf
    rw [hcb]
    exact hc (hone hne (by rwa [← hfin]))
  rcases hcases with ⟨hne, hconn, hout⟩ | ⟨hconn, hout⟩ | ⟨hne, d', hclose, hconn, hout⟩
  · rw [hconn, hout]
    exact ⟨hshake.trans hkeeps, hplains, fun hc => hready hne hc _ rfl rfl⟩
  · rw [hconn, hout]
    refine ⟨hshake.trans hkeeps, ?_, fun _ _ => rfl⟩
    rw [plains_append, hplains]
    rfl
  · have hclosed := opShutdown_idles hrec hclose
    rw [hconn, hout]
    refine ⟨(hshake.trans hkeeps).trans hclosed.keeps, ?_, fun hc => hclosed.ready ?_⟩
    · rw [plains_append, hplains]
      exact hclosed.plains
    · exact hready hne hc _ rfl rfl

/-- A read takes the first record that waits, if there is one. -/
theorem opRead_takes (hrec : RecordLayer ssl arrived taken) (hfin : ssl.SSL_is_init_finished c.ssl)
    (hcb : c.readCb) (h : opRead ssl c = .ok d) :
    arrived d.conn.ssl = arrived c.ssl ∧
      (arrived c.ssl).take (taken c.ssl) ++ plains d.out =
        (arrived d.conn.ssl).take (taken d.conn.ssl) ∧
      unread arrived taken d.conn.ssl = unread arrived taken c.ssl - 1 ∧ d.conn.readCb := by
  cases hnext : (arrived c.ssl)[taken c.ssl]? with
  | some r =>
    obtain ⟨hret, hbuf, harrived, htaken⟩ := hrec.read c.ssl r hfin hnext
    have hpos := (hrec.size c.ssl r (List.mem_of_getElem? hnext)).1
    unfold opRead at h
    simp only [hret] at h
    rw [if_neg (by omega), if_pos (by omega)] at h
    cases h
    refine ⟨harrived, ?_, ?_, hcb⟩
    · rw [harrived, htaken, List.take_add_one, hnext, if_pos hcb]
      show _ ++ [(ssl.SSL_read c.ssl).2.1.take (r.length : Int).toNat] = _
      rw [Int.toNat_natCast, hbuf]
      rfl
    · show unread arrived taken (ssl.SSL_read c.ssl).2.2 = _
      rw [unread, unread, harrived, htaken]
      omega
  | none =>
    obtain ⟨hret, hkeeps⟩ := hrec.read_none c.ssl hfin hnext
    have hle := List.getElem?_eq_none_iff.mp hnext
    -- nothing is read, and nothing waited
    have hof : ∀ s', Keeps arrived taken (ssl.SSL_read c.ssl).2.2 s' → d.conn.ssl = s' →
        plains d.out = [] → d.conn.readCb → arrived d.conn.ssl = arrived c.ssl ∧
          (arrived c.ssl).take (taken c.ssl) ++ plains d.out =
            (arrived d.conn.ssl).take (taken d.conn.ssl) ∧
          unread arrived taken d.conn.ssl = unread arrived taken c.ssl - 1 ∧ d.conn.readCb := by
      rintro s' hs rfl hplains hcb'
      have hall := hkeeps.trans hs
      refine ⟨hall.arrived, ?_, ?_, hcb'⟩
      · rw [hplains, List.append_nil, hall.arrived, hall.taken]
      · rw [unread, unread, hall.arrived, hall.taken]
        omega
    unfold opRead at h
    simp only at h
    by_cases hzero : (ssl.SSL_read c.ssl).1 = 0
    · rw [if_pos hzero] at h
      obtain ⟨s', out, hsend, hd⟩ := handleShutdown_cases h
      have hidle := handleShutdown_idles hrec h
      exact hof _ hidle.keeps rfl hidle.plains (by rw [hd]; exact hcb)
    · rw [if_neg hzero, if_neg (by omega)] at h
      obtain ⟨⟨s', out⟩, hsend, hd⟩ := bind_eq_ok h
      obtain ⟨hkeeps', _, hplains⟩ := send_pending_keeps hrec hsend
      cases hd
      exact hof _ hkeeps' rfl hplains hcb

/-! ## Whole runs -/

/-- A part of a run with these calls of `BIO_write`: the framer gets the records that are read,
in their order, and the others wait. -/
structure Carries (ssl : Ssl σ) (arrived : σ → List (List UInt8)) (taken : σ → Nat)
    (c c' : EvtTls σ) (out : List Output) (calls : List (σ × List UInt8)) : Prop where
  plains : (arrived c.ssl).take (taken c.ssl) ++ plains out =
    (arrived c'.ssl).take (taken c'.ssl)
  unread : unread arrived taken c'.ssl =
    backlog (reads ssl) (completes ssl arrived) (unread arrived taken c.ssl) calls
  ready : Ready ssl c'

theorem Carries.refl (hready : Ready ssl c) : Carries ssl arrived taken c c [] [] :=
  ⟨List.append_nil _, rfl, hready⟩

theorem Carries.trans {calls calls' : List (σ × List UInt8)}
    (h : Carries ssl arrived taken c c' out calls)
    (h' : Carries ssl arrived taken c' c'' out' calls') :
    Carries ssl arrived taken c c'' (out ++ out') (calls ++ calls') where
  plains := by rw [plains_append, ← List.append_assoc, h.plains, h'.plains]
  unread := by rw [h'.unread, h.unread, backlog_append]
  ready := h'.ready

/-- A part without a `BIO_write`. -/
theorem Idles.carries (h : Idles ssl arrived taken c c' out) (hready : Ready ssl c) :
    Carries ssl arrived taken c c' out [] where
  plains := by rw [h.plains, List.append_nil, h.keeps.arrived, h.keeps.taken]
  unread := by
    rw [Tls.unread, h.keeps.arrived, h.keeps.taken]
    rfl
  ready := h.ready hready

/-- One `BIO_write` and the operation behind it. -/
theorem write_carries (hrec : RecordLayer ssl arrived taken) (hready : Ready ssl c)
    {data : List UInt8}
    (h : evt_tls_op ssl { c with ssl := (ssl.BIO_write c.ssl data).2 }
      (if ssl.SSL_is_init_finished (ssl.BIO_write c.ssl data).2 then .read else .handshake) =
        .ok d) :
    Carries ssl arrived taken c d.conn d.out [(c.ssl, data)] := by
  obtain ⟨hgrows, htaken, hfin⟩ := hrec.bio_write c.ssl data
  have hle := hrec.taken_le c.ssl
  have hlen := hgrows.length_le
  have htake : (arrived (ssl.BIO_write c.ssl data).2).take (taken (ssl.BIO_write c.ssl data).2) =
      (arrived c.ssl).take (taken c.ssl) := by
    obtain ⟨more, hmore⟩ := hgrows
    rw [htaken, ← hmore, List.take_append_of_le_length hle]
  have hsum : unread arrived taken (ssl.BIO_write c.ssl data).2 =
      unread arrived taken c.ssl + completes ssl arrived (c.ssl, data) := by
    rw [unread, unread, completes, htaken]
    show _ = _ + ((arrived (ssl.BIO_write c.ssl data).2).length - (arrived c.ssl).length)
    omega
  have htick : ∀ w, backlog (reads ssl) (completes ssl arrived) w [(c.ssl, data)] =
      w + completes ssl arrived (c.ssl, data) - (reads ssl (c.ssl, data)).toNat := fun _ => rfl
  by_cases hread : ssl.SSL_is_init_finished (ssl.BIO_write c.ssl data).2 = true
  · rw [if_pos hread] at h
    have hcb : c.readCb := hready (by rwa [← hfin])
    obtain ⟨harrived, hplains, hunread, hcb'⟩ := opRead_takes
      (c := { c with ssl := (ssl.BIO_write c.ssl data).2 }) hrec hread hcb h
    refine ⟨?_, ?_, fun _ => hcb'⟩
    · rw [← htake]
      exact hplains
    · rw [hunread, htick, reads, hread]
      exact congrArg (· - 1) hsum
  · rw [if_neg hread] at h
    have hidle := opHandshake_idles hrec h
    have hready' : Ready ssl { c with ssl := (ssl.BIO_write c.ssl data).2 } :=
      fun hf => absurd hf hread
    refine ⟨?_, ?_, hidle.ready hready'⟩
    · rw [hidle.plains, List.append_nil, hidle.keeps.arrived, hidle.keeps.taken]
      exact htake.symm
    · have hkeep : unread arrived taken d.conn.ssl =
          unread arrived taken (ssl.BIO_write c.ssl data).2 := by
        rw [unread, hidle.keeps.arrived, hidle.keeps.taken]
        rfl
      rw [hkeep, hsum, htick, reads, Bool.eq_false_iff.mpr hread]
      rfl

theorem feedLoop_carries (hrec : RecordLayer ssl arrived taken) {data : List UInt8} {fuel : Nat}
    {offset rv : Int} {is : List Int} (hready : Ready ssl c)
    (h : feedLoop ssl data fuel offset rv c = .ok (d, is)) :
    Carries ssl arrived taken c d.conn d.out (feedCalls ssl data fuel offset c) := by
  induction fuel generalizing offset rv c d is with
  | zero => cases h
  | succ fuel ih =>
    rw [feedCalls]
    rcases feedLoop_cases h with ⟨hend, rfl, _⟩ | ⟨_, hlt, d₁, d₂, is', hop, hrest, hconn, hout, _⟩
    · rw [if_pos (by omega)]
      exact Carries.refl hready
    · rw [if_neg (not_not.mpr hlt), hconn, hout]
      have hfst := write_carries hrec hready hop
      simp only [hop]
      exact hfst.trans (ih hfst.ready hrest)

/-- An event that is no `uv_tls_write`. -/
theorem connStep_carries (hrec : RecordLayer ssl arrived taken) {fuel : Nat} {e : ConnEvent}
    (hready : Ready ssl c) (he : ∀ buf, e ≠ .write buf)
    (h : connStep ssl fuel c e = .ok (c', out)) :
    Carries ssl arrived taken c c' out (stepCalls ssl fuel c e) := by
  cases e with
  | data bytes =>
    rw [connStep] at h
    by_cases hempty : bytes.length = 0
    · rw [if_pos hempty] at h
      cases h
      have hnone : feedCalls ssl bytes fuel 0 c = [] := by
        cases fuel with
        | zero => rfl
        | succ fuel => rw [feedCalls, if_pos (by omega)]
      rw [stepCalls, hnone]
      exact Carries.refl hready
    · rw [if_neg hempty] at h
      obtain ⟨⟨d, is⟩, hfeed, hd⟩ := bind_eq_ok h
      cases hd
      rw [evt_tls_feed_data, if_neg hempty] at hfeed
      exact feedLoop_carries hrec hready hfeed
  | eof =>
    obtain ⟨d, hclose, hd⟩ := bind_eq_ok h
    cases hd
    have hcloses := (opShutdown_idles (c := { c with closeCb := true }) hrec hclose).carries hready
    exact ⟨hcloses.plains, hcloses.unread, hcloses.ready⟩
  | write buf => exact absurd rfl (he buf)
  | sendMsg netBuffer =>
    rw [connStep] at h
    cases h
    split_ifs
    · exact Carries.refl hready
    · exact ⟨List.append_nil _, rfl, hready⟩

theorem connRun_carries (hrec : RecordLayer ssl arrived taken) {fuel : Nat}
    {es : List ConnEvent} (hready : Ready ssl c) (hes : ∀ buf, .write buf ∉ es)
    (h : connRun ssl fuel c es = .ok (c', out)) :
    Carries ssl arrived taken c c' out (runCalls ssl fuel c es) := by
  induction es generalizing c out with
  | nil =>
    cases h
    exact Carries.refl hready
  | cons e es ih =>
    obtain ⟨c₁, o, o', hstep, hrun, rfl⟩ := feedAll_cons_inv h
    have hfst := connStep_carries hrec hready
      (fun buf he => hes buf (he ▸ List.mem_cons_self)) hstep
    have hrest := ih hfst.ready (fun buf hbuf => hes buf (List.mem_cons_of_mem _ hbuf)) hrun
    rw [runCalls, hstep]
    exact hfst.trans hrest

theorem run_gets (hrec : RecordLayer ssl arrived taken) {fuel : Nat} {es : List ConnEvent}
    (hnew : arrived s = []) (hfresh : ssl.SSL_is_init_finished s = false)
    (hes : ∀ buf, .write buf ∉ es)
    (h : connRun ssl fuel (evt_tls_accept s) es = .ok (c', out)) :
    plains out = (arrived c'.ssl).take (taken c'.ssl) ∧
      unread arrived taken c'.ssl = backlog (reads ssl) (completes ssl arrived) 0
        (runCalls ssl fuel (evt_tls_accept s) es) := by
  have hready : Ready ssl (evt_tls_accept s) := fun hf => by
    rw [evt_tls_accept, hfresh] at hf
    cases hf
  have hcarries := connRun_carries hrec hready hes h
  have hnone : arrived (evt_tls_accept s).ssl = [] := hnew
  have hplains := hcarries.plains
  have hunread := hcarries.unread
  rw [hnone, List.take_nil, List.nil_append] at hplains
  have hzero : unread arrived taken (evt_tls_accept s).ssl = 0 := by
    rw [unread, hnone, List.length_nil, Nat.zero_sub]
  rw [hzero] at hunread
  exact ⟨hplains, hunread⟩

/-- The framer gets the records in their order, each as it was sealed, and what it has not got
is the backlog of the reads. -/
theorem framer_gets (hrec : RecordLayer ssl arrived taken) {fuel : Nat} {es : List ConnEvent}
    (hnew : arrived s = []) (hfresh : ssl.SSL_is_init_finished s = false)
    (hes : ∀ buf, .write buf ∉ es)
    (h : connRun ssl fuel (evt_tls_accept s) es = .ok (c', out)) :
    plains out <+: arrived c'.ssl ∧
      (arrived c'.ssl).length = (plains out).length +
        backlog (reads ssl) (completes ssl arrived) 0
          (runCalls ssl fuel (evt_tls_accept s) es) := by
  obtain ⟨hplains, hunread⟩ := run_gets hrec hnew hfresh hes h
  have hle := hrec.taken_le c'.ssl
  rw [← hunread, hplains, unread, List.length_take]
  exact ⟨List.take_prefix _ _, by omega⟩

/-- Two of three records. -/
theorem framer_gets_conversation :
    Session.heard <+: Session.listened.ssl.arrived ∧
      Session.listened.ssl.arrived.length = 2 +
        backlog (reads Session.ssl) (completes Session.ssl Session.arrived) 0
          (runCalls Session.ssl 2 (evt_tls_accept (Session.new 0x5A)) Session.conversation) :=
  framer_gets Session.recordLayer rfl rfl (by simp [Session.conversation])
    Session.conversation_run

theorem flatten_eq_nil_iff (hrec : RecordLayer ssl arrived taken) {n : Nat} :
    ((arrived s).drop n).flatten = [] ↔ (arrived s).length - n = 0 := by
  rw [List.flatten_eq_nil_iff, Nat.sub_eq_zero_iff_le, ← List.drop_eq_nil_iff]
  constructor
  · intro h
    rw [List.eq_nil_iff_forall_not_mem]
    intro r hr
    have hpos := (hrec.size s r (List.mem_of_mem_drop hr)).1
    rw [h r hr] at hpos
    exact absurd hpos (Nat.lt_irrefl 0)
  · intro h r hr
    rw [h] at hr
    cases hr

/-- The records carry packets, as `PacketData` encodes them, cut anywhere.  Whatever the network
and OpenSSL do, the server has got the first of the packets, and it has got all of them if
and only if in no final part of the run more records have arrived than were read. -/
theorem delivers_all_iff (hrec : RecordLayer ssl arrived taken) {fuel : Nat}
    {es : List ConnEvent} (hnew : arrived s = []) (hfresh : ssl.SSL_is_init_finished s = false)
    (hes : ∀ buf, .write buf ∉ es)
    (h : connRun ssl fuel (evt_tls_accept s) es = .ok (c', out)) (uninit : NetPacket)
    {head tail : UInt8} (userdata : Nat) (packets : List (PacketSync.Frame head tail))
    (hpackets : (arrived c'.ssl).flatten = PacketSync.Frame.encodeAll packets)
    {chunks : List Chunk} (hchunks : chunks.map Chunk.bytes = plains out) :
    ∃ k ps, (PacketSync.fresh uninit head tail userdata).recvAll chunks =
        .ok (ps, (packets.take k).map (PacketSync.Frame.delivery userdata)) ∧
      k ≤ packets.length ∧
      (k = packets.length ↔ ∀ calls, calls <:+ runCalls ssl fuel (evt_tls_accept s) es →
        gains (completes ssl arrived) calls ≤ serves (reads ssl) calls) := by
  obtain ⟨hplains, hunread⟩ := run_gets hrec hnew hfresh hes h
  have hsplit : PacketSync.concat chunks ++ ((arrived c'.ssl).drop (taken c'.ssl)).flatten =
      PacketSync.Frame.encodeAll packets := by
    rw [PacketSync.concat, hchunks, hplains, ← List.flatten_append, List.take_append_drop,
      hpackets]
  obtain ⟨k, ps, hrun, hk, hall⟩ :=
    PacketSync.recvAll_encodeAll uninit head tail userdata packets chunks hsplit
  refine ⟨k, ps, hrun, hk, ?_⟩
  rw [hall, flatten_eq_nil_iff hrec, ← backlog_eq_zero_iff, ← hunread]
  rfl

/-- One of two packets. -/
theorem delivers_all_iff_conversation :
    ∃ k ps, (PacketSync.fresh (charToNetPacket []) 0x0C 0xEA 7).recvAll
        [⟨[0x0C, 1, 0x0C, 0xEA, 9, 0, 0], by decide⟩,
          ⟨[0, 2, 0x0C, 0xEA, 0xEA, 0x0C, 1, 0x0C, 0xEA, 9, 0, 0], by decide⟩] =
          .ok (ps, ([PacketSync.shortFrame, PacketSync.shortFrame].take k).map
            (PacketSync.Frame.delivery 7)) ∧
      k ≤ [PacketSync.shortFrame, PacketSync.shortFrame].length ∧
      (k = [PacketSync.shortFrame, PacketSync.shortFrame].length ↔ ∀ calls,
        calls <:+ runCalls Session.ssl 2 (evt_tls_accept (Session.new 0x5A)) Session.conversation →
          gains (completes Session.ssl Session.arrived) calls ≤ serves (reads Session.ssl) calls) :=
  delivers_all_iff Session.recordLayer rfl rfl (by simp [Session.conversation])
    Session.conversation_run (charToNetPacket []) 7 [PacketSync.shortFrame, PacketSync.shortFrame]
    (by rfl) rfl

end

end OCServer.Tls
