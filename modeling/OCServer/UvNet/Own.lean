import OCServer.UvNet.Pool

/-!
# Who owns a context

`Owned s` says that no context is used after its release: none that
`client_list` or `client_map` holds has been released, none is held twice
or released twice, and no TLS endpoint of a context in `client_list` has
been freed.

`owned_iff` says which runs stay in such states: those in which the close
callback of an accepted connection never runs.  `SubClientClosed` puts the
context into `client_list` and deletes it as well.
-/

namespace OCServer

open MachineInt Machine

namespace Uvnet

/-- No context is used after its release. -/
structure Owned (s : Uvnet) : Prop where
  live_free : ∀ c ∈ s.clientList, c ∉ s.released
  live_mapped : ∀ k c, s.clientMap k = some c → c ∉ s.released
  apart : ∀ k c, s.clientMap k = some c → c ∉ s.clientList
  nodup : s.clientList.Nodup
  once : s.released.Nodup
  tls_live : ∀ c ∈ s.clientList, (s.ctx c).needTls = true → (s.ctx c).tls ∉ s.tlsFreed
  length_le : s.clientList.length ≤ backlog + 1

/-- What a run without a close callback of a connection keeps: contexts are
released by `RecycleTcpHandle` only, which drops them. -/
structure Kept (s : Uvnet) : Prop where
  pool : Pool s
  once : s.released.Nodup
  gone : ∀ c ∈ s.released,
    c < s.mallocs ∧ (s.ctx c).tcphandle = .closed ∧ c ∉ s.clientList
  tls : s.tlsFreed = []

theorem Kept.owned {s : Uvnet} (h : Kept s) : Owned s where
  live_free c hc hrel := (h.gone c hrel).2.2 hc
  live_mapped k c hk hrel :=
    not_connected_of_closed (h.gone c hrel).2.1 (h.pool.mapped k c hk).1
  apart k c hk hc := not_connected_of_closed (h.pool.free_closed c hc) (h.pool.mapped k c hk).1
  nodup := h.pool.nodup
  once := h.once
  tls_live c _ _ := by
    rw [h.tls]
    exact List.not_mem_nil
  length_le := h.pool.length_le

theorem kept_start (needTls : Bool) (mem : Nat → ClientConnS) : Kept (start needTls mem) where
  pool := pool_start needTls mem
  once := List.nodup_nil
  gone _ hc := absurd hc List.not_mem_nil
  tls := rfl

section

variable {s s' : Uvnet} {c : Nat}

/-- A context that has not been released may change. -/
theorem Kept.update (h : Kept s) (hpool : Pool s') (hrel : s'.released = s.released)
    (htls : s'.tlsFreed = s.tlsFreed) (hm : s.mallocs ≤ s'.mallocs)
    (hctx : ∀ x ∈ s.released, (s'.ctx x).tcphandle = (s.ctx x).tcphandle)
    (hlist : ∀ x ∈ s'.clientList, x ∈ s.clientList ∨ x ∉ s.released) : Kept s' where
  pool := hpool
  once := hrel ▸ h.once
  gone x hx := by
    rw [hrel] at hx
    obtain ⟨hlt, hclosed, hmem⟩ := h.gone x hx
    refine ⟨Nat.lt_of_lt_of_le hlt hm, (hctx x hx).trans hclosed, fun hin => ?_⟩
    rcases hlist x hin with hin | hnot
    · exact hmem hin
    · exact hnot hx
  tls := htls.trans h.tls

/-- The context that is taken has not been released. -/
theorem Kept.take {t : Uvnet} {uninit : NetPacket} (h : Kept s)
    (ht : s.takeClientCtx uninit = .ok (c, t)) : Kept t ∧ c ∉ t.released := by
  have hpool := (h.pool.take ht).1.pool
  cases takeClientCtx_cases ht with
  | pooled c rest hlist hlive =>
    have hc : c ∈ s.clientList := hlist ▸ List.mem_cons_self
    refine ⟨h.update hpool rfl rfl (Nat.le_refl _) (fun _ _ => rfl) fun x hx => ?_,
      fun hrel => (h.gone c hrel).2.2 hc⟩
    exact Or.inl (hlist ▸ List.mem_cons_of_mem c hx)
  | allocated hlist =>
    have hnot : s.mallocs ∉ s.released := fun hrel => Nat.lt_irrefl _ (h.gone _ hrel).1
    refine ⟨h.update hpool rfl rfl (Nat.le_succ _) (fun x hx => ?_) fun x hx => Or.inl hx, hnot⟩
    have hne : x ≠ s.mallocs := fun hx' => hnot (hx' ▸ hx)
    show (Function.update s.ctx s.mallocs (s.newClientCtx uninit) x).tcphandle = _
    rw [Function.update_of_ne hne]

theorem Kept.only (h : Kept s) (hs : OnlyCtx s s' c) (hpool : Pool s')
    (hc : c ∉ s.released) (hrel : s'.released = s.released)
    (htls : s'.tlsFreed = s.tlsFreed) : Kept s' := by
  refine h.update hpool hrel htls hs.mallocs_le (fun x hx => ?_) fun x hx => ?_
  · rw [hs.other x fun hxc => hc (hxc ▸ hx)]
  · rw [hs.list_eq] at hx
    exact Or.inl hx

/-- A context with a handle in use has not been released. -/
theorem Kept.not_released (h : Kept s) (hc : (s.ctx c).tcphandle ≠ .closed) :
    c ∉ s.released := fun hrel => hc (h.gone c hrel).2.1

theorem Kept.recycled (h : Kept s)
    (hc : (s.ctx c).tcphandle = .closing .recycleTcpHandle) :
    Kept ((s.handleClosed c).recycleTcpHandle c) := by
  have hheld := h.pool.handleClosed hc
  have hnot : c ∉ s.released := h.not_released (by
    rw [hc]
    exact fun hne => by cases hne)
  have hkept : Kept (s.handleClosed c) :=
    h.only (onlyCtx_modify h.pool.id_lt c _) hheld.pool hnot rfl rfl
  have hpool := hheld.recycle
  unfold recycleTcpHandle at hpool ⊢
  split at hpool
  · next hlen =>
    rw [if_pos hlen]
    refine ⟨hpool, ?_, ?_, hkept.tls⟩
    · show ((s.handleClosed c).released ++ [c]).Nodup
      rw [List.nodup_append]
      refine ⟨hkept.once, by simp, fun a ha b hb hab => ?_⟩
      rw [List.mem_singleton] at hb
      exact hnot (hb ▸ hab ▸ ha)
    · intro x hx
      rcases List.mem_append.mp hx with hx | hx
      · exact hkept.gone x hx
      · rw [List.mem_singleton.mp hx]
        exact ⟨hheld.lt, hheld.closed, hheld.not_mem⟩
  · next hlen =>
    rw [if_neg hlen]
    refine hkept.update hpool rfl rfl (Nat.le_refl _) (fun _ _ => rfl) fun x hx => ?_
    rcases List.mem_append.mp hx with hx | hx
    · exact Or.inl hx
    · exact Or.inr (List.mem_singleton.mp hx ▸ hnot)

/-- A step that does not run the close callback of a connection. -/
theorem Kept.step {e : NetEvent} {out : List Delivery} (h : Kept s)
    (hstep : s.step e = .ok (s', out))
    (hopen : ∀ c, e = .closed c → (s.ctx c).tcphandle ≠ .closing .afterClientClose) :
    Kept s' := by
  have hpool := h.pool.step hstep
  cases step_cases hstep with
  | newConnection haccepted =>
    cases haccepted with
    | none => exact h
    | pushed c t htake =>
      obtain ⟨hkept, hnot⟩ := h.take htake
      refine hkept.update hpool rfl rfl (Nat.le_refl _) (fun _ _ => rfl) fun x hx => ?_
      rcases List.mem_append.mp hx with hx | hx
      · exact Or.inl hx
      · exact Or.inr (List.mem_singleton.mp hx ▸ hnot)
    | refused c t ps htake hid =>
      obtain ⟨hkept, hnot⟩ := h.take htake
      exact hkept.only (onlyCtx_opened hid c _ ps) hpool hnot rfl rfl
    | connected c t htake hid =>
      obtain ⟨hkept, hnot⟩ := h.take htake
      have hs := onlyCtx_opened hid c .reading ((t.ctx c).packet.setPacketCB c)
      generalize ho : t.opened c .reading ((t.ctx c).packet.setPacketCB c) = o at hs hpool ⊢
      have hsame : (o.mapInsert (t.sId + 1) c).released = t.released ∧
          (o.mapInsert (t.sId + 1) c).tlsFreed = t.tlsFreed ∧
          (o.mapInsert (t.sId + 1) c).clientList = o.clientList ∧
          (o.mapInsert (t.sId + 1) c).mallocs = o.mallocs ∧
          (o.mapInsert (t.sId + 1) c).ctx = o.ctx := by
        unfold mapInsert
        split <;> exact ⟨ho ▸ rfl, ho ▸ rfl, rfl, rfl, rfl⟩
      obtain ⟨hrel, htls, hlist, hmallocs, hctx⟩ := hsame
      refine hkept.update hpool hrel htls (hmallocs ▸ hs.mallocs_le) (fun x hx => ?_)
        fun x hx => ?_
      · rw [hctx, hs.other x fun hxc => hnot (hxc ▸ hx)]
      · rw [hlist, hs.list_eq] at hx
        exact Or.inl hx
  | @recv c data ps out hc =>
    exact h.only (onlyCtx_modify h.pool.id_lt c _) hpool
      (h.not_released (by rw [hc]; exact fun hne => by cases hne)) rfl rfl
  | @readError c hc =>
    exact h.only (onlyCtx_close h.pool.id_lt c) hpool
      (h.not_released (by rw [hc]; exact fun hne => by cases hne)) rfl rfl
  | recycled hc => exact h.recycled hc
  | @disconnected c hc => exact absurd hc (hopen c rfl)

/-- The close callback of a connection leaves a released context in
`client_list`, or it releases the context twice. -/
theorem Pool.not_owned (h : Pool s)
    (hc : (s.ctx c).tcphandle = .closing .afterClientClose) :
    ¬Owned ((s.handleClosed c).afterClientClose c) := by
  have hcases := h.afterClientClose_cases hc
  generalize (s.handleClosed c).afterClientClose c = s' at hcases ⊢
  intro howned
  cases hcases with
  | pushed freed hlen =>
    exact howned.live_free c (List.mem_append_right _ (List.mem_singleton_self c))
      (List.mem_append_right _ (List.mem_singleton_self c))
  | freed freed hlen =>
    have honce := howned.once
    change (s.released ++ [c] ++ [c]).Nodup at honce
    rw [List.nodup_append] at honce
    exact honce.2.2 c (List.mem_append_right _ (List.mem_singleton_self c)) c
      (List.mem_singleton_self c) rfl

end

/-- For every sequence of callbacks: every state that the server reaches is
`Owned`, if and only if the close callback of an accepted connection never
runs. -/
theorem owned_iff (needTls : Bool) (mem : Nat → ClientConnS) (es : List NetEvent) :
    (∀ pre post s out, es = pre ++ post → run (start needTls mem) pre = .ok (s, out) →
      Owned s) ↔
    Along step (fun s e => ∀ c, e = .closed c →
      (s.ctx c).tcphandle ≠ .closing .afterClientClose) (start needTls mem) es := by
  constructor
  · rintro howned pre e post hes s out hrun c rfl hc
    have hpool : Pool s := invariant (fun _ s _ => Pool s) (pool_start needTls mem)
      (fun _ _ _ _ _ _ h hstep => h.step hstep) pre s out hrun
    have hintact : s.Intact := (howned pre (.closed c :: post) s out hes hrun).once
    have hstep : s.step (.closed c) = .ok ((s.handleClosed c).afterClientClose c, []) := by
      simp only [step, if_pos hintact, callback, hc]
      rfl
    have hnext := run_trans hrun (run_one hstep)
    refine hpool.not_owned hc (howned (pre ++ [.closed c]) post _ _ ?_ hnext)
    rw [hes, List.append_assoc]
    rfl
  · intro halong pre post s out hes hrun
    rw [hes] at halong
    have hkept : Kept s := invariant_along (fun _ s _ => Kept s) (kept_start needTls mem)
      (fun _ _ _ _ _ _ h hopen hstep => h.step hstep hopen) pre s out halong.left hrun
    exact hkept.owned

/-- A context as the model needs one in memory. -/
def blankCtx : ClientConnS where
  needTls := false
  clientid := 0
  tcphandle := .closed
  tls := 0
  packet := PacketSync.new (charToNetPacket [])
  closedcb := false

/-- One connection that comes and goes. -/
theorem not_always_owned :
    ¬∀ es s out, run (start false fun _ => blankCtx) es = .ok (s, out) → Owned s := by
  intro howned
  obtain ⟨s, out, hrun, hlist, hreleased⟩ : ∃ s out,
      run (start false fun _ => blankCtx)
        [.newConnection ⟨0, 0, 0, 0⟩ (charToNetPacket []), .readError 0, .closed 0] =
          .ok (s, out) ∧ s.clientList = [0] ∧ s.released = [0] :=
    ⟨_, _, rfl, rfl, rfl⟩
  have hfree := (howned _ s out hrun).live_free 0
  rw [hlist, hreleased] at hfree
  exact hfree (List.mem_singleton_self 0) (List.mem_singleton_self 0)

end Uvnet

end OCServer
