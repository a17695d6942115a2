import OCServer.UvNet.Model

/-!
# The pool of contexts

`Pool s` is the invariant of every run: the contexts of `client_list` are
distinct and no handle of theirs is in use, and `client_map` holds exactly
the contexts that are connected, each under its own id.  `step_cases` lists
what a step can do, and `Pool.step` says that every step keeps the
invariant.

A context that `on_new_connection` has taken is in neither container until
one of its exits puts it there.  `Held s c` is the invariant in between.
-/

namespace OCServer

open MachineInt

/-- The connection has been accepted, and its close callback has not run. -/
def ClientConnS.Connected (conn : ClientConnS) : Prop :=
  conn.tcphandle = .reading ∨ conn.tcphandle = .closing .afterClientClose

namespace Uvnet

/-! ## What a step does -/

/-- The server after `uv_tcp_init` of the context `c`, with the handle and
the framer that the rest of `on_new_connection` leaves. -/
def opened (s : Uvnet) (c : Nat) (handle : TcpHandle) (ps : PacketSync) : Uvnet :=
  { s with
    sId := s.sId + 1
    ctx := Function.update s.ctx c
      { s.ctx c with
        tcphandle := handle, clientid := s.sId + 1, closedcb := true, packet := ps } }

/-- What `on_new_connection` does. -/
inductive Accepted (s : Uvnet) (answers : Answers) (uninit : NetPacket) : Uvnet → Prop
  | none : answers.status < 0 → Accepted s answers uninit s
  | pushed (c : Nat) (t : Uvnet) : s.takeClientCtx uninit = .ok (c, t) → answers.tcpInit ≠ 0 →
      Accepted s answers uninit (t.pushBack c)
  | refused (c : Nat) (t : Uvnet) (ps : PacketSync) : s.takeClientCtx uninit = .ok (c, t) →
      t.sId + 1 < 2 ^ 31 → (answers.accept ≠ 0 ∨ answers.readStart ≠ 0) →
      (ps = (t.ctx c).packet ∨ ps = (t.ctx c).packet.setPacketCB c) →
      Accepted s answers uninit (t.opened c (.closing .recycleTcpHandle) ps)
  | connected (c : Nat) (t : Uvnet) : s.takeClientCtx uninit = .ok (c, t) →
      t.sId + 1 < 2 ^ 31 → 0 ≤ answers.status → answers.tcpInit = 0 → answers.accept = 0 →
      answers.readStart = 0 →
      Accepted s answers uninit
        ((t.opened c .reading ((t.ctx c).packet.setPacketCB c)).mapInsert (t.sId + 1) c)

theorem onNewConnection_cases {s s' : Uvnet} {answers : Answers} {uninit : NetPacket}
    (h : s.onNewConnection answers uninit = .ok s') : Accepted s answers uninit s' := by
  unfold onNewConnection at h
  by_cases hstatus : answers.status < 0
  · rw [if_pos hstatus] at h
    cases h
    exact .none hstatus
  rw [if_neg hstatus] at h
  obtain ⟨⟨c, t⟩, htake, h⟩ := Incremental.bind_eq_ok h
  simp only at h
  by_cases hinit : answers.tcpInit ≠ 0
  · rw [if_pos hinit] at h
    cases h
    exact .pushed c t htake hinit
  rw [if_neg hinit] at h
  unfold getAvailaClientID at h
  by_cases hid : t.sId + 1 < 2 ^ 31
  · rw [if_pos hid] at h
    change (if answers.accept ≠ 0 then _ else _) = _ at h
    by_cases haccept : answers.accept ≠ 0
    · rw [if_pos haccept] at h
      cases h
      have hs : Accepted s answers uninit _ :=
        .refused c t _ htake hid (Or.inl haccept) (Or.inl rfl)
      unfold opened at hs
      unfold uvClose modify
      simp only [Function.update_self, Function.update_idem]
      exact hs
    · rw [if_neg haccept] at h
      by_cases hread : answers.readStart ≠ 0
      · rw [if_pos hread] at h
        cases h
        have hs : Accepted s answers uninit _ :=
          .refused c t _ htake hid (Or.inr hread) (Or.inr rfl)
        unfold opened at hs
        unfold uvClose modify
        simp only [Function.update_self, Function.update_idem]
        exact hs
      · rw [if_neg hread] at h
        cases h
        rw [not_not] at hinit haccept hread
        have hs : Accepted s answers uninit _ :=
          .connected c t htake hid (by omega) hinit haccept hread
        unfold opened at hs
        unfold modify
        simp only [Function.update_self, Function.update_idem]
        exact hs
  · rw [if_neg hid] at h
    cases h

/-- The context that `AllocTcpClientCtx` returns. -/
def newClientCtx (s : Uvnet) (uninit : NetPacket) : ClientConnS :=
  { s.ctx s.mallocs with
    needTls := s.needTls
    tls := if s.needTls then s.endpoints else (s.ctx s.mallocs).tls
    packet := PacketSync.new uninit }

theorem allocTcpClientCtx_eq (s : Uvnet) (uninit : NetPacket) :
    s.allocTcpClientCtx uninit = (s.mallocs,
      { s with
        ctx := Function.update s.ctx s.mallocs (s.newClientCtx uninit)
        mallocs := s.mallocs + 1
        endpoints := if s.needTls then s.endpoints + 1 else s.endpoints }) := by
  unfold allocTcpClientCtx newClientCtx modify
  cases htls : s.needTls with
  | true => simp
  | false => simp

/-- What `takeClientCtx` does. -/
inductive Taken (s : Uvnet) (uninit : NetPacket) : Nat → Uvnet → Prop
  | pooled (c : Nat) (rest : List Nat) : s.clientList = c :: rest → c ∉ s.released →
      Taken s uninit c { s with clientList := rest }
  | allocated : s.clientList = [] →
      Taken s uninit s.mallocs
        { s with
          ctx := Function.update s.ctx s.mallocs (s.newClientCtx uninit)
          mallocs := s.mallocs + 1
          endpoints := if s.needTls then s.endpoints + 1 else s.endpoints }

theorem takeClientCtx_cases {s t : Uvnet} {c : Nat} {uninit : NetPacket}
    (h : s.takeClientCtx uninit = .ok (c, t)) : Taken s uninit c t := by
  unfold takeClientCtx at h
  cases hlist : s.clientList with
  | nil =>
    rw [hlist] at h
    simp only [allocTcpClientCtx_eq] at h
    cases h
    exact .allocated hlist
  | cons c' rest =>
    rw [hlist] at h
    simp only at h
    split at h
    · cases h
    · next hlive =>
      cases h
      exact .pooled _ rest hlist hlive

theorem Taken.eq_next {s t : Uvnet} {c : Nat} {uninit : NetPacket} (h : Taken s uninit c t) :
    c = s.nextClientCtx := by
  unfold nextClientCtx
  cases h with
  | pooled c rest hlist => rw [hlist]; rfl
  | allocated hlist => rw [hlist]; rfl

/-! ## The invariant -/

/-- The invariant of every run. -/
structure Pool (s : Uvnet) : Prop where
  free_lt : ∀ c ∈ s.clientList, c < s.mallocs
  free_closed : ∀ c ∈ s.clientList, (s.ctx c).tcphandle = .closed
  nodup : s.clientList.Nodup
  length_le : s.clientList.length ≤ backlog + 1
  mapped : ∀ k c, s.clientMap k = some c →
    (s.ctx c).Connected ∧ toInt (s.ctx c).clientid = k
  connected : ∀ c, (s.ctx c).Connected → s.clientMap (toInt (s.ctx c).clientid) = some c
  busy_lt : ∀ c, (s.ctx c).tcphandle ≠ .closed → c < s.mallocs
  busy_cb : ∀ c, (s.ctx c).tcphandle ≠ .closed → (s.ctx c).closedcb = true
  id_le : ∀ c, (s.ctx c).Connected → (s.ctx c).clientid ≤ s.sId
  id_lt : s.sId < 2 ^ 31

/-- The invariant while `c` belongs to a callback that is running. -/
structure Held (s : Uvnet) (c : Nat) : Prop where
  pool : Pool s
  lt : c < s.mallocs
  closed : (s.ctx c).tcphandle = .closed
  not_mem : c ∉ s.clientList

theorem pool_start (needTls : Bool) (mem : Nat → ClientConnS) : Pool (start needTls mem) where
  free_lt c hc := absurd hc List.not_mem_nil
  free_closed c hc := absurd hc List.not_mem_nil
  nodup := List.nodup_nil
  length_le := Nat.zero_le _
  mapped k c hk := by cases hk
  connected c hc := by rcases hc with hc | hc <;> cases hc
  busy_lt c hc := absurd rfl hc
  busy_cb c hc := absurd rfl hc
  id_le c hc := by rcases hc with hc | hc <;> cases hc
  id_lt := Nat.two_pow_pos 31

theorem not_connected_of_closed {conn : ClientConnS} (h : conn.tcphandle = .closed) :
    ¬conn.Connected := by
  unfold ClientConnS.Connected
  rw [h]
  rintro (hc | hc) <;> cases hc

section

variable {s : Uvnet} {c : Nat}

theorem Pool.mapped_ne (h : Pool s) {k : Int} {x : Nat} (hc : ¬(s.ctx c).Connected)
    (hx : s.clientMap k = some x) : x ≠ c := by
  intro heq
  rcases heq with rfl
  exact hc (h.mapped k x hx).1

/-- `s'` differs from `s` in the context `c` and in the counters only. -/
structure OnlyCtx (s s' : Uvnet) (c : Nat) : Prop where
  list_eq : s'.clientList = s.clientList
  map_eq : s'.clientMap = s.clientMap
  other : ∀ x, x ≠ c → s'.ctx x = s.ctx x
  mallocs_le : s.mallocs ≤ s'.mallocs
  id_le : s.sId ≤ s'.sId
  id_lt : s'.sId < 2 ^ 31

theorem onlyCtx_modify (h : s.sId < 2 ^ 31) (c : Nat) (f : ClientConnS → ClientConnS) :
    OnlyCtx s (s.modify c f) c :=
  ⟨rfl, rfl, fun _ hx => Function.update_of_ne hx _ _, Nat.le_refl _, Nat.le_refl _, h⟩

theorem onlyCtx_opened (h : s.sId + 1 < 2 ^ 31) (c : Nat) (handle : TcpHandle)
    (ps : PacketSync) : OnlyCtx s (s.opened c handle ps) c :=
  ⟨rfl, rfl, fun _ hx => Function.update_of_ne hx _ _, Nat.le_refl _, Nat.le_succ _, h⟩

theorem onlyCtx_close (h : s.sId < 2 ^ 31) (c : Nat) : OnlyCtx s (s.close c) c := by
  unfold close uvClose
  exact onlyCtx_modify h c _

@[simp] theorem modify_ctx_self (c : Nat) (f : ClientConnS → ClientConnS) :
    (s.modify c f).ctx c = f (s.ctx c) := Function.update_self _ _ _

@[simp] theorem close_ctx_self (c : Nat) :
    (s.close c).ctx c = { s.ctx c with tcphandle := .closing .afterClientClose } := by
  unfold close uvClose
  exact modify_ctx_self c _

@[simp] theorem opened_ctx_self (c : Nat) (handle : TcpHandle) (ps : PacketSync) :
    (s.opened c handle ps).ctx c =
      { s.ctx c with
        tcphandle := handle, clientid := s.sId + 1, closedcb := true, packet := ps } :=
  Function.update_self _ _ _

@[simp] theorem mapInsert_ctx (clientid c : Nat) : (s.mapInsert clientid c).ctx = s.ctx := by
  unfold mapInsert
  split <;> rfl

@[simp] theorem mapInsert_released (clientid c : Nat) :
    (s.mapInsert clientid c).released = s.released := by
  unfold mapInsert
  split <;> rfl

/-- A context that is in neither container may change, as long as it does
not become connected. -/
theorem Pool.update {s' : Uvnet} (h : Pool s) (hs : OnlyCtx s s' c)
    (hold : ¬(s.ctx c).Connected) (hmem : c ∉ s.clientList) (hnew : ¬(s'.ctx c).Connected)
    (hbusy : (s'.ctx c).tcphandle ≠ .closed → c < s'.mallocs ∧ (s'.ctx c).closedcb = true) :
    Pool s' := by
  have hne : ∀ x, x ∈ s.clientList → x ≠ c := by
    intro x hx heq
    rcases heq with rfl
    exact hmem hx
  have hconn : ∀ x, (s'.ctx x).Connected → x ≠ c := by
    intro x hx heq
    rcases heq with rfl
    exact hnew hx
  constructor
  case free_lt =>
    intro x hx
    rw [hs.list_eq] at hx
    exact Nat.lt_of_lt_of_le (h.free_lt x hx) hs.mallocs_le
  case free_closed =>
    intro x hx
    rw [hs.list_eq] at hx
    rw [hs.other x (hne x hx)]
    exact h.free_closed x hx
  case nodup => exact hs.list_eq ▸ h.nodup
  case length_le => exact hs.list_eq ▸ h.length_le
  case mapped =>
    intro k x hx
    rw [hs.map_eq] at hx
    rw [hs.other x (h.mapped_ne hold hx)]
    exact h.mapped k x hx
  case connected =>
    intro x hx
    have hxc := hconn x hx
    rw [hs.other x hxc] at hx ⊢
    rw [hs.map_eq]
    exact h.connected x hx
  case busy_lt =>
    intro x hx
    by_cases hxc : x = c
    · subst hxc
      exact (hbusy hx).1
    · rw [hs.other x hxc] at hx
      exact Nat.lt_of_lt_of_le (h.busy_lt x hx) hs.mallocs_le
  case busy_cb =>
    intro x hx
    by_cases hxc : x = c
    · subst hxc
      exact (hbusy hx).2
    · rw [hs.other x hxc] at hx ⊢
      exact h.busy_cb x hx
  case id_le =>
    intro x hx
    have hxc := hconn x hx
    rw [hs.other x hxc] at hx ⊢
    exact Nat.le_trans (h.id_le x hx) hs.id_le
  case id_lt => exact hs.id_lt

/-- A connected context may change, as long as it keeps its id and stays
connected. -/
theorem Pool.keep {s' : Uvnet} (h : Pool s) (hs : OnlyCtx s s' c)
    (hold : (s.ctx c).Connected) (hnew : (s'.ctx c).Connected)
    (hid : (s'.ctx c).clientid = (s.ctx c).clientid)
    (hcb : (s'.ctx c).closedcb = (s.ctx c).closedcb) : Pool s' := by
  have hopen : (s.ctx c).tcphandle ≠ .closed := fun hc => not_connected_of_closed hc hold
  have hsame : ∀ x, (s'.ctx x).clientid = (s.ctx x).clientid ∧
      (s'.ctx x).closedcb = (s.ctx x).closedcb ∧
      ((s'.ctx x).Connected ↔ (s.ctx x).Connected) ∧
      ((s'.ctx x).tcphandle ≠ .closed → (s.ctx x).tcphandle ≠ .closed) := by
    intro x
    by_cases hxc : x = c
    · subst hxc
      exact ⟨hid, hcb, iff_of_true hnew hold, fun _ => hopen⟩
    · rw [hs.other x hxc]
      exact ⟨rfl, rfl, Iff.rfl, id⟩
  constructor
  case free_lt =>
    intro x hx
    rw [hs.list_eq] at hx
    exact Nat.lt_of_lt_of_le (h.free_lt x hx) hs.mallocs_le
  case free_closed =>
    intro x hx
    rw [hs.list_eq] at hx
    rw [hs.other x fun hxc => hopen (hxc ▸ h.free_closed x hx)]
    exact h.free_closed x hx
  case nodup => exact hs.list_eq ▸ h.nodup
  case length_le => exact hs.list_eq ▸ h.length_le
  case mapped =>
    intro k x hx
    rw [hs.map_eq] at hx
    rw [(hsame x).1, (hsame x).2.2.1]
    exact h.mapped k x hx
  case connected =>
    intro x hx
    rw [(hsame x).1, hs.map_eq]
    exact h.connected x ((hsame x).2.2.1.mp hx)
  case busy_lt =>
    intro x hx
    exact Nat.lt_of_lt_of_le (h.busy_lt x ((hsame x).2.2.2 hx)) hs.mallocs_le
  case busy_cb =>
    intro x hx
    rw [(hsame x).2.1]
    exact h.busy_cb x ((hsame x).2.2.2 hx)
  case id_le =>
    intro x hx
    rw [(hsame x).1]
    exact Nat.le_trans (h.id_le x ((hsame x).2.2.1.mp hx)) hs.id_le
  case id_lt => exact hs.id_lt

/-! ## Accepting -/

/-- The context that is taken belongs to `on_new_connection`. -/
theorem Pool.take {t : Uvnet} {uninit : NetPacket} (h : Pool s)
    (ht : s.takeClientCtx uninit = .ok (c, t)) : Held t c ∧ t.clientList.length ≤ backlog := by
  cases takeClientCtx_cases ht with
  | pooled c rest hlist =>
    have hmem : ∀ x ∈ rest, x ∈ s.clientList := fun x hx => hlist ▸ List.mem_cons_of_mem c hx
    have hc : c ∈ s.clientList := hlist ▸ List.mem_cons_self
    have hnodup := h.nodup
    have hlen := h.length_le
    rw [hlist, List.nodup_cons] at hnodup
    rw [hlist, List.length_cons] at hlen
    refine ⟨⟨?_, h.free_lt c hc, h.free_closed c hc, hnodup.1⟩, Nat.le_of_succ_le_succ hlen⟩
    exact { h with
      free_lt := fun x hx => h.free_lt x (hmem x hx)
      free_closed := fun x hx => h.free_closed x (hmem x hx)
      nodup := hnodup.2
      length_le := Nat.le_of_succ_le hlen }
  | allocated hlist =>
    have hclosed : (s.ctx s.mallocs).tcphandle = .closed := by
      by_contra hbusy
      exact Nat.lt_irrefl _ (h.busy_lt _ hbusy)
    have hmem : s.mallocs ∉ s.clientList := by
      rw [hlist]
      exact List.not_mem_nil
    have hself : ∀ n, (Function.update s.ctx s.mallocs (s.newClientCtx uninit) n).tcphandle =
        (s.ctx n).tcphandle := by
      intro n
      by_cases hn : n = s.mallocs
      · subst hn
        rw [Function.update_self]
        rfl
      · rw [Function.update_of_ne hn]
    have hnew := (hself s.mallocs).trans hclosed
    refine ⟨⟨?_, Nat.lt_succ_self _, hnew, hmem⟩, ?_⟩
    · exact h.update
        ⟨rfl, rfl, fun _ hx => Function.update_of_ne hx _ _, Nat.le_succ _, Nat.le_refl _,
          h.id_lt⟩
        (not_connected_of_closed hclosed) hmem (not_connected_of_closed hnew)
        (fun hbusy => absurd hnew hbusy)
    · show s.clientList.length ≤ backlog
      rw [hlist]
      exact Nat.zero_le _

/-- A context that is held may be pushed into `client_list`. -/
theorem Held.pushBack (h : Held s c) (hlen : s.clientList.length ≤ backlog) :
    Pool (s.pushBack c) := by
  have hmem : ∀ x ∈ s.clientList ++ [c], x ∈ s.clientList ∨ x = c := by
    intro x hx
    rwa [List.mem_append, List.mem_singleton] at hx
  exact { h.pool with
    free_lt := fun x hx => by
      rcases hmem x hx with hx | rfl
      · exact h.pool.free_lt x hx
      · exact h.lt
    free_closed := fun x hx => by
      rcases hmem x hx with hx | rfl
      · exact h.pool.free_closed x hx
      · exact h.closed
    nodup := by
      show (s.clientList ++ [c]).Nodup
      rw [List.nodup_append]
      refine ⟨h.pool.nodup, by simp, fun a ha b hb hab => ?_⟩
      rw [List.mem_singleton] at hb
      exact h.not_mem (hb ▸ hab ▸ ha)
    length_le := by
      show (s.clientList ++ [c]).length ≤ backlog + 1
      rw [List.length_append]
      exact Nat.succ_le_succ hlen }

theorem Held.refused (h : Held s c) (hid : s.sId + 1 < 2 ^ 31) (ps : PacketSync) :
    Pool (s.opened c (.closing .recycleTcpHandle) ps) := by
  refine h.pool.update (onlyCtx_opened hid c _ ps) (not_connected_of_closed h.closed) h.not_mem
    ?_ ?_
  · rw [opened_ctx_self]
    rintro (hc | hc) <;> cases hc
  · rw [opened_ctx_self]
    exact fun _ => ⟨h.lt, rfl⟩

/-- No entry of `client_map` has an id that has not been given out. -/
theorem Pool.map_fresh (h : Pool s) (hid : s.sId + 1 < 2 ^ 31) :
    s.clientMap (toInt (s.sId + 1)) = none := by
  cases hmap : s.clientMap (toInt (s.sId + 1)) with
  | none => rfl
  | some x =>
    obtain ⟨hconn, hkey⟩ := h.mapped _ x hmap
    have hle := h.id_le x hconn
    rw [toInt_eq (by omega), toInt_eq hid] at hkey
    omega

theorem Held.connected (h : Held s c) (hid : s.sId + 1 < 2 ^ 31) (ps : PacketSync) :
    Pool ((s.opened c .reading ps).mapInsert (s.sId + 1) c) := by
  have hnone := h.pool.map_fresh hid
  have hs := onlyCtx_opened hid c .reading ps
  have hself := opened_ctx_self (s := s) c .reading ps
  have hlt : c < (s.opened c .reading ps).mallocs := h.lt
  have hid' : (s.opened c .reading ps).sId = s.sId + 1 := rfl
  have hold := not_connected_of_closed h.closed
  generalize s.opened c .reading ps = t at hs hself hlt hid' ⊢
  have hinsert : t.mapInsert (s.sId + 1) c =
      { t with clientMap := Function.update s.clientMap (toInt (s.sId + 1)) (some c) } := by
    unfold mapInsert
    rw [hs.map_eq, hnone]
  have hmap : ∀ k x, Function.update s.clientMap (toInt (s.sId + 1)) (some c) k = some x ↔
      (k = toInt (s.sId + 1) ∧ x = c) ∨ (k ≠ toInt (s.sId + 1) ∧ s.clientMap k = some x) := by
    intro k x
    by_cases hk : k = toInt (s.sId + 1)
    · subst hk
      simp [eq_comm]
    · simp [hk]
  rw [hinsert]
  constructor
  case free_lt =>
    intro x hx
    rw [hs.list_eq] at hx
    exact Nat.lt_of_lt_of_le (h.pool.free_lt x hx) hs.mallocs_le
  case free_closed =>
    intro x hx
    rw [hs.list_eq] at hx
    rw [hs.other x fun hxc => h.not_mem (hxc ▸ hx)]
    exact h.pool.free_closed x hx
  case nodup => exact hs.list_eq ▸ h.pool.nodup
  case length_le => exact hs.list_eq ▸ h.pool.length_le
  case mapped =>
    intro k x hx
    rcases (hmap k x).mp hx with ⟨rfl, rfl⟩ | ⟨_, hx⟩
    · rw [hself]
      exact ⟨Or.inl rfl, rfl⟩
    · rw [hs.other x (h.pool.mapped_ne hold hx)]
      exact h.pool.mapped k x hx
  case connected =>
    intro x hx
    rw [hmap]
    by_cases hxc : x = c
    · subst hxc
      rw [hself]
      exact Or.inl ⟨rfl, rfl⟩
    · rw [hs.other x hxc] at hx ⊢
      have hkey := h.pool.connected x hx
      refine Or.inr ⟨fun hk => ?_, hkey⟩
      rw [hk, hnone] at hkey
      cases hkey
  case busy_lt =>
    intro x hx
    by_cases hxc : x = c
    · exact hxc ▸ hlt
    · rw [hs.other x hxc] at hx
      exact Nat.lt_of_lt_of_le (h.pool.busy_lt x hx) hs.mallocs_le
  case busy_cb =>
    intro x hx
    by_cases hxc : x = c
    · subst hxc
      rw [hself]
    · rw [hs.other x hxc] at hx ⊢
      exact h.pool.busy_cb x hx
  case id_le =>
    intro x hx
    by_cases hxc : x = c
    · subst hxc
      rw [hself, hid']
    · rw [hs.other x hxc] at hx ⊢
      exact Nat.le_trans (h.pool.id_le x hx) hs.id_le
  case id_lt => exact hs.id_lt

/-! ## Closing -/

theorem Pool.ledger (h : Pool s) (released tlsFreed : List Nat) :
    Pool { s with released := released, tlsFreed := tlsFreed } :=
  { h with }

/-- The handle of `c` is closed. -/
def handleClosed (s : Uvnet) (c : Nat) : Uvnet :=
  s.modify c fun conn => { conn with tcphandle := .closed }

@[simp] theorem handleClosed_ctx_self (c : Nat) :
    (s.handleClosed c).ctx c = { s.ctx c with tcphandle := .closed } := modify_ctx_self c _

/-- The context of a handle that was not accepted belongs to its close
callback. -/
theorem Pool.handleClosed (h : Pool s)
    (hc : (s.ctx c).tcphandle = .closing .recycleTcpHandle) : Held (s.handleClosed c) c := by
  have hs : OnlyCtx s (s.handleClosed c) c := onlyCtx_modify h.id_lt c _
  have hclosed : ((s.handleClosed c).ctx c).tcphandle = .closed := by
    rw [handleClosed_ctx_self]
  have hbusy : (s.ctx c).tcphandle ≠ .closed := by
    rw [hc]
    exact fun hne => by cases hne
  have hmem : c ∉ s.clientList := fun hmem => hbusy (h.free_closed c hmem)
  refine ⟨h.update hs ?_ hmem (not_connected_of_closed hclosed)
    (fun hne => absurd hclosed hne), h.busy_lt c hbusy, hclosed, hmem⟩
  unfold ClientConnS.Connected
  rw [hc]
  rintro (hconn | hconn) <;> cases hconn

theorem Held.recycle (h : Held s c) : Pool (s.recycleTcpHandle c) := by
  unfold recycleTcpHandle
  split
  · exact h.pool.ledger _ s.tlsFreed
  · exact h.pushBack (by omega)

/-- The handle of `c` is closed and its id is no longer in `client_map`. -/
def forgotten (s : Uvnet) (c : Nat) : Uvnet :=
  { s.handleClosed c with
    clientMap := Function.update s.clientMap (toInt (s.ctx c).clientid) none }

/-- The context of a connection that is closed belongs to the close
callback. -/
theorem Pool.forgotten (h : Pool s) (hc : (s.ctx c).Connected) :
    Held (s.forgotten c) c := by
  have hs : OnlyCtx s (s.handleClosed c) c := onlyCtx_modify h.id_lt c _
  have hclosed : ((s.handleClosed c).ctx c).tcphandle = .closed := by
    rw [handleClosed_ctx_self]
  have hbusy : (s.ctx c).tcphandle ≠ .closed := fun hne => not_connected_of_closed hne hc
  have hmem : c ∉ s.clientList := fun hmem => hbusy (h.free_closed c hmem)
  have hmine := h.connected c hc
  have hmap : ∀ k x, (s.forgotten c).clientMap k = some x ↔ s.clientMap k = some x ∧ x ≠ c := by
    intro k x
    show Function.update s.clientMap (toInt (s.ctx c).clientid) none k = some x ↔ _
    by_cases hk : k = toInt (s.ctx c).clientid
    · subst hk
      rw [Function.update_self, hmine]
      simp [eq_comm]
    · rw [Function.update_of_ne hk]
      refine ⟨fun hx => ⟨hx, ?_⟩, And.left⟩
      intro heq
      rcases heq with rfl
      exact hk (h.mapped k x hx).2.symm
  have hne : ∀ x, ((s.handleClosed c).ctx x).tcphandle ≠ .closed → x ≠ c := by
    intro x hx heq
    rcases heq with rfl
    exact hx hclosed
  have hconn : ∀ x, ((s.handleClosed c).ctx x).Connected → x ≠ c := by
    intro x hx heq
    rcases heq with rfl
    exact not_connected_of_closed hclosed hx
  refine ⟨?_, h.busy_lt c hbusy, hclosed, hmem⟩
  constructor
  case free_lt => exact h.free_lt
  case free_closed =>
    intro x hx
    show ((s.handleClosed c).ctx x).tcphandle = .closed
    rw [hs.other x fun hxc => hmem (hxc ▸ hx)]
    exact h.free_closed x hx
  case nodup => exact h.nodup
  case length_le => exact h.length_le
  case mapped =>
    intro k x hx
    obtain ⟨hx, hxc⟩ := (hmap k x).mp hx
    show ((s.handleClosed c).ctx x).Connected ∧ toInt ((s.handleClosed c).ctx x).clientid = k
    rw [hs.other x hxc]
    exact h.mapped k x hx
  case connected =>
    intro x hx
    have hxc := hconn x hx
    change ((s.handleClosed c).ctx x).Connected at hx
    rw [hmap]
    show s.clientMap (toInt ((s.handleClosed c).ctx x).clientid) = some x ∧ x ≠ c
    rw [hs.other x hxc] at hx ⊢
    exact ⟨h.connected x hx, hxc⟩
  case busy_lt =>
    intro x hx
    have hxc := hne x hx
    change ((s.handleClosed c).ctx x).tcphandle ≠ .closed at hx
    rw [hs.other x hxc] at hx
    exact h.busy_lt x hx
  case busy_cb =>
    intro x hx
    have hxc := hne x hx
    change ((s.handleClosed c).ctx x).tcphandle ≠ .closed at hx
    show ((s.handleClosed c).ctx x).closedcb = true
    rw [hs.other x hxc] at hx ⊢
    exact h.busy_cb x hx
  case id_le =>
    intro x hx
    have hxc := hconn x hx
    change ((s.handleClosed c).ctx x).Connected at hx
    show ((s.handleClosed c).ctx x).clientid ≤ s.sId
    rw [hs.other x hxc] at hx ⊢
    exact h.id_le x hx
  case id_lt => exact h.id_lt

/-- What the close callback of a connection does: the context goes to
`client_list`, or it is released, and then it is released. -/
inductive Disconnected (s : Uvnet) (c : Nat) : Uvnet → Prop
  | pushed (freed : List Nat) : s.clientList.length ≤ backlog →
      Disconnected s c { (s.forgotten c).pushBack c with
        released := s.released ++ [c], tlsFreed := freed }
  | freed (freed : List Nat) : backlog < s.clientList.length →
      Disconnected s c { s.forgotten c with
        released := s.released ++ [c] ++ [c], tlsFreed := freed }

theorem Pool.afterClientClose_cases (h : Pool s)
    (hc : (s.ctx c).tcphandle = .closing .afterClientClose) :
    Disconnected s c ((s.handleClosed c).afterClientClose c) := by
  have hconn : (s.ctx c).Connected := Or.inr hc
  have hcb := h.busy_cb c fun hne => not_connected_of_closed hne hconn
  have hmine := h.connected c hconn
  have hself := handleClosed_ctx_self (s := s) c
  unfold afterClientClose
  rw [hself]
  generalize hfreed : (if (s.ctx c).needTls = true then s.tlsFreed ++ [(s.ctx c).tls]
    else s.tlsFreed) = freed
  have htls : (if (s.ctx c).needTls = true then { s.handleClosed c with
      tlsFreed := (s.handleClosed c).tlsFreed ++ [(s.ctx c).tls] }
      else s.handleClosed c) = { s.handleClosed c with tlsFreed := freed } := by
    rw [← hfreed]
    cases (s.ctx c).needTls with
    | true => rfl
    | false => rfl
  simp only [htls, hself, hcb, if_true]
  unfold subClientClosed
  simp only [hself]
  rw [show (s.handleClosed c).clientMap = s.clientMap from rfl, hmine]
  simp only
  by_cases hlen : s.clientList.length > backlog
  · rw [if_pos (show (s.handleClosed c).clientList.length > backlog from hlen)]
    exact .freed freed hlen
  · rw [if_neg (show ¬(s.handleClosed c).clientList.length > backlog from hlen)]
    exact .pushed freed (by omega)

theorem Pool.afterClientClose (h : Pool s)
    (hc : (s.ctx c).tcphandle = .closing .afterClientClose) :
    Pool ((s.handleClosed c).afterClientClose c) := by
  have hheld := h.forgotten (Or.inr hc)
  have hcases := h.afterClientClose_cases hc
  generalize (s.handleClosed c).afterClientClose c = s' at hcases ⊢
  cases hcases with
  | pushed freed hlen => exact (hheld.pushBack hlen).ledger _ freed
  | freed freed hlen => exact hheld.pool.ledger _ freed

/-! ## A whole step -/

/-- What a step does. -/
inductive Stepped (s : Uvnet) : NetEvent → Uvnet → List Delivery → Prop
  | newConnection {answers : Answers} {uninit : NetPacket} {s' : Uvnet} :
      Accepted s answers uninit s' → Stepped s (.newConnection answers uninit) s' []
  | recv {c : Nat} {data : Chunk} {ps : PacketSync} {out : List Delivery} :
      (s.ctx c).tcphandle = .reading → (s.ctx c).packet.recvdata data = .ok (ps, out) →
      Stepped s (.recv c data) (s.modify c fun conn => { conn with packet := ps }) out
  | readError {c : Nat} : (s.ctx c).tcphandle = .reading →
      Stepped s (.readError c) (s.close c) []
  | recycled {c : Nat} : (s.ctx c).tcphandle = .closing .recycleTcpHandle →
      Stepped s (.closed c) ((s.handleClosed c).recycleTcpHandle c) []
  | disconnected {c : Nat} : (s.ctx c).tcphandle = .closing .afterClientClose →
      Stepped s (.closed c) ((s.handleClosed c).afterClientClose c) []

/-- The process goes on only while no context has been released twice. -/
theorem step_intact {s' : Uvnet} {e : NetEvent} {out : List Delivery}
    (h : s.step e = .ok (s', out)) : s.Intact ∧ s.callback e = .ok (s', out) := by
  unfold Uvnet.step at h
  split at h
  · next hintact => exact ⟨hintact, h⟩
  · cases h

theorem step_cases {s' : Uvnet} {e : NetEvent} {out : List Delivery}
    (h : s.step e = .ok (s', out)) : Stepped s e s' out := by
  replace h := (step_intact h).2
  cases e with
  | newConnection answers uninit =>
    simp only [callback] at h
    cases hnew : s.onNewConnection answers uninit with
    | error e =>
      rw [hnew] at h
      cases h
    | ok t =>
      rw [hnew] at h
      cases h
      exact .newConnection (onNewConnection_cases hnew)
  | recv c data =>
    by_cases hc : (s.ctx c).tcphandle = .reading
    · simp only [callback, hc, if_true, recvdata] at h
      cases hrecv : (s.ctx c).packet.recvdata data with
      | error f =>
        rw [hrecv] at h
        cases h
      | ok r =>
        rw [hrecv] at h
        cases h
        exact .recv hc hrecv
    · simp only [callback, hc, if_false] at h
      cases h
  | readError c =>
    by_cases hc : (s.ctx c).tcphandle = .reading
    · simp only [callback, hc, if_true] at h
      cases h
      exact .readError hc
    · simp only [callback, hc, if_false] at h
      cases h
  | closed c =>
    cases hc : (s.ctx c).tcphandle with
    | closing cb =>
      simp only [callback, hc] at h
      cases cb with
      | recycleTcpHandle =>
        cases h
        exact .recycled hc
      | afterClientClose =>
        cases h
        exact .disconnected hc
    | closed => simp only [callback, hc] at h; cases h
    | initialized => simp only [callback, hc] at h; cases h
    | reading => simp only [callback, hc] at h; cases h

/-- Every step keeps the invariant. -/
theorem Pool.step {s' : Uvnet} {e : NetEvent} {out : List Delivery} (h : Pool s)
    (hstep : s.step e = .ok (s', out)) : Pool s' := by
  cases step_cases hstep with
  | newConnection haccepted =>
    cases haccepted with
    | none => exact h
    | pushed c t htake =>
      obtain ⟨hheld, hlen⟩ := h.take htake
      exact hheld.pushBack hlen
    | refused c t ps htake hid => exact (h.take htake).1.refused hid ps
    | connected c t htake hid => exact (h.take htake).1.connected hid _
  | @recv c data ps out hc =>
    refine h.keep (onlyCtx_modify h.id_lt c _) (Or.inl hc) ?_ ?_ ?_
    · rw [modify_ctx_self]
      exact Or.inl hc
    · rw [modify_ctx_self]
    · rw [modify_ctx_self]
  | @readError c hc =>
    refine h.keep (onlyCtx_close h.id_lt c) (Or.inl hc) ?_ ?_ ?_
    · rw [close_ctx_self]
      exact Or.inr rfl
    · rw [close_ctx_self]
    · rw [close_ctx_self]
  | recycled hc => exact (h.handleClosed hc).recycle
  | disconnected hc => exact h.afterClientClose hc

/-! ## A connection that stays -/

/-- `c` has the same connection in `s'` as in `s`, and has not been released
between them. -/
structure Stays (s s' : Uvnet) (c : Nat) : Prop where
  reading : (s'.ctx c).tcphandle = .reading
  id_eq : (s'.ctx c).clientid = (s.ctx c).clientid
  count_eq : s'.released.count c = s.released.count c

theorem Stays.of_ctx {s' : Uvnet} (hc : (s.ctx c).tcphandle = .reading)
    (hctx : s'.ctx c = s.ctx c) (hcount : s'.released.count c = s.released.count c) :
    Stays s s' c := by
  refine ⟨?_, ?_, hcount⟩ <;> rw [hctx]
  exact hc

theorem Pool.stays_take {x : Nat} {t : Uvnet} {uninit : NetPacket} (h : Pool s)
    (hc : (s.ctx c).tcphandle ≠ .closed) (ht : s.takeClientCtx uninit = .ok (x, t)) :
    x ≠ c ∧ t.ctx c = s.ctx c ∧ t.released = s.released := by
  have hlt : c < s.mallocs := h.busy_lt c hc
  have hsame : t.ctx c = s.ctx c ∧ t.released = s.released := by
    cases takeClientCtx_cases ht with
    | pooled _ rest hlist => exact ⟨rfl, rfl⟩
    | allocated hlist => exact ⟨Function.update_of_ne (Nat.ne_of_lt hlt) _ _, rfl⟩
  refine ⟨?_, hsame⟩
  intro heq
  rcases heq with rfl
  have hclosed := (h.take ht).1.closed
  rw [hsame.1] at hclosed
  exact hc hclosed

/-- A connection ends with a read error only. -/
theorem Pool.stays {s' : Uvnet} {e : NetEvent} {out : List Delivery} (h : Pool s)
    (hc : (s.ctx c).tcphandle = .reading) (hstep : s.step e = .ok (s', out))
    (he : e ≠ .readError c) : Stays s s' c := by
  -- the context of a handle that is closing is another one
  have hother : ∀ x cb, (s.ctx x).tcphandle = .closing cb → x ≠ c := by
    intro x cb hx heq
    rcases heq with rfl
    rw [hc] at hx
    cases hx
  have hclosed : ∀ x, x ≠ c → (s.handleClosed x).ctx c = s.ctx c := fun x hx =>
    Function.update_of_ne hx.symm _ _
  have hbusy : (s.ctx c).tcphandle ≠ .closed := by
    rw [hc]
    exact fun hne => by cases hne
  cases step_cases hstep with
  | newConnection haccepted =>
    cases haccepted with
    | none => exact .of_ctx hc rfl rfl
    | pushed x t htake =>
      obtain ⟨_, hctx, hrel⟩ := h.stays_take hbusy htake
      exact .of_ctx hc hctx (congrArg (List.count c) hrel)
    | refused x t ps htake =>
      obtain ⟨hne, hctx, hrel⟩ := h.stays_take hbusy htake
      exact .of_ctx hc ((Function.update_of_ne hne.symm _ _).trans hctx)
        (congrArg (List.count c) hrel)
    | connected x t htake =>
      obtain ⟨hne, hctx, hrel⟩ := h.stays_take hbusy htake
      refine .of_ctx hc ?_ ?_
      · rw [mapInsert_ctx]
        exact (Function.update_of_ne hne.symm _ _).trans hctx
      · rw [mapInsert_released]
        exact congrArg (List.count c) hrel
  | @recv x data ps out hx =>
    by_cases hxc : x = c
    · subst hxc
      refine ⟨?_, ?_, rfl⟩ <;> rw [modify_ctx_self]
      exact hc
    · exact .of_ctx hc (Function.update_of_ne (Ne.symm hxc) _ _) rfl
  | @readError x hx =>
    have hne : x ≠ c := fun heq => he (heq ▸ rfl)
    exact .of_ctx hc (Function.update_of_ne hne.symm _ _) rfl
  | @recycled x hx =>
    have hne := hother x _ hx
    unfold recycleTcpHandle
    split
    · refine .of_ctx hc (hclosed x hne) ?_
      show (s.released ++ [x]).count c = _
      simp [hne]
    · exact .of_ctx hc (hclosed x hne) rfl
  | @disconnected x hx =>
    have hne := hother x _ hx
    have hcases := h.afterClientClose_cases hx
    generalize (s.handleClosed x).afterClientClose x = s' at hcases ⊢
    cases hcases with
    | pushed => exact .of_ctx hc (hclosed x hne) (by simp [hne])
    | freed => exact .of_ctx hc (hclosed x hne) (by simp [hne])

/-! ## What a step releases -/

/-- A step releases no context but the one whose handle it closes. -/
inductive Releases (s s' : Uvnet) : Prop
  | none : s'.released = s.released → Releases s s'
  | some (c : Nat) (n : Nat) : (s.ctx c).tcphandle ≠ .closed →
      s'.released = s.released ++ List.replicate (n + 1) c → Releases s s'

theorem Pool.releases {s' : Uvnet} {e : NetEvent} {out : List Delivery} (h : Pool s)
    (hstep : s.step e = .ok (s', out)) : Releases s s' := by
  have hbusy : ∀ {x cb}, (s.ctx x).tcphandle = .closing cb → (s.ctx x).tcphandle ≠ .closed := by
    intro x cb hx
    rw [hx]
    exact fun hne => by cases hne
  have htaken : ∀ x t uninit, s.takeClientCtx uninit = .ok (x, t) →
      t.released = s.released := by
    intro x t uninit ht
    cases takeClientCtx_cases ht with
    | pooled => rfl
    | allocated => rfl
  cases step_cases hstep with
  | newConnection haccepted =>
    refine .none ?_
    cases haccepted with
    | none => rfl
    | pushed x t htake => exact htaken x t _ htake
    | refused x t ps htake => exact htaken x t _ htake
    | connected x t htake => exact (mapInsert_released _ _).trans (htaken x t _ htake)
  | recv => exact .none rfl
  | readError => exact .none rfl
  | @recycled x hx =>
    unfold recycleTcpHandle
    split
    · exact .some x 0 (hbusy hx) rfl
    · exact .none rfl
  | @disconnected x hx =>
    have hcases := h.afterClientClose_cases hx
    generalize (s.handleClosed x).afterClientClose x = s' at hcases ⊢
    cases hcases with
    | pushed => exact .some x 0 (hbusy hx) rfl
    | freed => exact .some x 1 (hbusy hx) (List.append_assoc _ _ _)

theorem Releases.grows {s' : Uvnet} (h : Releases s s') : s.released <+: s'.released := by
  cases h with
  | none heq => exact heq ▸ List.prefix_refl _
  | some x n _ heq => exact heq ▸ List.prefix_append _ _

theorem Releases.mem {s' : Uvnet} (h : Releases s s') (hc : c ∈ s'.released) :
    c ∈ s.released ∨ (s.ctx c).tcphandle ≠ .closed := by
  cases h with
  | none heq => exact Or.inl (heq ▸ hc)
  | some x n hx heq =>
    rw [heq, List.mem_append] at hc
    refine hc.imp_right fun hc => ?_
    rwa [List.eq_of_mem_replicate hc]

/-- A connection that a step ends has been released. -/
theorem Pool.connected_step {s' : Uvnet} {e : NetEvent} {out : List Delivery} (h : Pool s)
    (hc : (s.ctx c).Connected) (hstep : s.step e = .ok (s', out)) :
    (s'.ctx c).Connected ∨ c ∈ s'.released := by
  have hbusy : (s.ctx c).tcphandle ≠ .closed := fun hne => not_connected_of_closed hne hc
  have hother : ∀ {x : Nat} {conn}, x ≠ c → (Function.update s.ctx x conn c).Connected := by
    intro x conn hx
    rwa [Function.update_of_ne hx.symm]
  cases step_cases hstep with
  | newConnection haccepted =>
    refine Or.inl ?_
    cases haccepted with
    | none => exact hc
    | pushed x t htake =>
      obtain ⟨_, hctx, _⟩ := h.stays_take hbusy htake
      exact (congrArg _ hctx).mpr hc
    | refused x t ps htake =>
      obtain ⟨hne, hctx, _⟩ := h.stays_take hbusy htake
      exact (congrArg _ ((Function.update_of_ne hne.symm _ _).trans hctx)).mpr hc
    | connected x t htake =>
      obtain ⟨hne, hctx, _⟩ := h.stays_take hbusy htake
      rw [mapInsert_ctx]
      exact (congrArg _ ((Function.update_of_ne hne.symm _ _).trans hctx)).mpr hc
  | @recv x data ps out hx =>
    by_cases hxc : x = c
    · subst hxc
      rw [modify_ctx_self]
      exact Or.inl (Or.inl hx)
    · exact Or.inl (show (Function.update s.ctx x _ c).Connected from hother hxc)
  | @readError x hx =>
    by_cases hxc : x = c
    · subst hxc
      rw [close_ctx_self]
      exact Or.inl (Or.inr rfl)
    · exact Or.inl (show (Function.update s.ctx x _ c).Connected from hother hxc)
  | @recycled x hx =>
    have hxc : x ≠ c := by
      intro heq
      rcases heq with rfl
      unfold ClientConnS.Connected at hc
      rw [hx] at hc
      rcases hc with hc | hc <;> cases hc
    refine Or.inl ?_
    unfold recycleTcpHandle
    split
    · exact (show (Function.update s.ctx x _ c).Connected from hother hxc)
    · exact (show (Function.update s.ctx x _ c).Connected from hother hxc)
  | @disconnected x hx =>
    have hcases := h.afterClientClose_cases hx
    generalize (s.handleClosed x).afterClientClose x = s' at hcases ⊢
    by_cases hxc : x = c
    · subst hxc
      refine Or.inr ?_
      cases hcases with
      | pushed => exact List.mem_append_right _ (List.mem_singleton_self x)
      | freed => exact List.mem_append_right _ (List.mem_singleton_self x)
    · refine Or.inl ?_
      cases hcases with
      | pushed => exact (show (Function.update s.ctx x _ c).Connected from hother hxc)
      | freed => exact (show (Function.update s.ctx x _ c).Connected from hother hxc)

end

end Uvnet

end OCServer
