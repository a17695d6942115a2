import OCServer.UvNet.Own

/-!
# Connections by their number

`on_new_connection` numbers the connections, and `getClientByID` looks for one by its number.
`getClientByID_iff` says what it answers after any run, by the callbacks of the run alone: the
connection that has got the number, from its accept up to its close callback.
-/

namespace OCServer

open MachineInt Machine

namespace Uvnet

/-- `getClientByID`. -/
def getClientByID (s : Uvnet) (cid : Int) : Option Nat := s.clientMap cid

/-- The accepts that get a number: also those that fail behind `uv_tcp_init`. -/
def Numbered : NetEvent → Prop
  | .newConnection answers _ => 0 ≤ answers.status ∧ answers.tcpInit = 0
  | _ => False

instance : DecidablePred Numbered
  | .newConnection _ _ => inferInstanceAs (Decidable (_ ∧ _))
  | .recv _ _ => inferInstanceAs (Decidable False)
  | .readError _ => inferInstanceAs (Decidable False)
  | .closed _ => inferInstanceAs (Decidable False)

/-- How many numbers some callbacks give. -/
def numbers (es : List NetEvent) : Nat := es.countP fun e => Numbered e

/-- In the run of `es` from `s`, a connection with the context `c` gets the number `cid`, and
its close callback does not follow. -/
def OpenAs (s : Uvnet) (es : List NetEvent) (cid : Int) (c : Nat) : Prop :=
  ∃ pre e post t out, es = pre ++ e :: post ∧ run s pre = .ok (t, out) ∧
    t.handsOut e = some c ∧ cid = (numbers pre + 1 : Nat) ∧ .closed c ∉ post

section

variable {s s' s₀ : Uvnet} {e : NetEvent} {es : List NetEvent} {out o : List Delivery}

theorem numbers_concat (es : List NetEvent) (e : NetEvent) :
    numbers (es ++ [e]) = numbers es + if Numbered e then 1 else 0 := by
  simp [numbers, List.countP_cons]

/-- The last callback of a run. -/
theorem openAs_concat (hrun : run s₀ es = .ok (s, out)) (e : NetEvent) (cid : Int) (c : Nat) :
    OpenAs s₀ (es ++ [e]) cid c ↔ OpenAs s₀ es cid c ∧ e ≠ .closed c ∨
      s.handsOut e = some c ∧ cid = (numbers es + 1 : Nat) := by
  constructor
  · rintro ⟨pre, e', post, t, out', hes, hpre, hout, hcid, hpost⟩
    induction post using List.reverseRecOn with
    | nil =>
      obtain ⟨rfl, he⟩ := List.append_inj' hes rfl
      cases he
      rw [hrun] at hpre
      cases hpre
      exact Or.inr ⟨hout, hcid⟩
    | append_singleton post x _ =>
      rw [← List.cons_append, ← List.append_assoc] at hes
      obtain ⟨rfl, hx⟩ := List.append_inj' hes rfl
      cases hx
      rw [List.mem_append, not_or, List.mem_singleton] at hpost
      exact Or.inl ⟨⟨pre, e', post, t, out', rfl, hpre, hout, hcid, hpost.1⟩,
        fun heq => hpost.2 heq.symm⟩
  · rintro (⟨⟨pre, e', post, t, out', rfl, hpre, hout, hcid, hpost⟩, he⟩ | ⟨hout, hcid⟩)
    · refine ⟨pre, e', post ++ [e], t, out', by simp, hpre, hout, hcid, ?_⟩
      rw [List.mem_append, not_or, List.mem_singleton]
      exact ⟨hpost, fun heq => he heq.symm⟩
    · exact ⟨es, e, [], s, out, rfl, hrun, hout, hcid, List.not_mem_nil⟩

theorem mapInsert_sId (s : Uvnet) (clientid c : Nat) : (s.mapInsert clientid c).sId = s.sId := by
  unfold mapInsert
  split <;> rfl

theorem take_same {t : Uvnet} {c : Nat} {uninit : NetPacket}
    (h : s.takeClientCtx uninit = .ok (c, t)) : t.sId = s.sId ∧ t.clientMap = s.clientMap := by
  cases takeClientCtx_cases h with
  | pooled => exact ⟨rfl, rfl⟩
  | allocated => exact ⟨rfl, rfl⟩

theorem onNewConnection_sId {answers : Answers} {uninit : NetPacket}
    (h : s.onNewConnection answers uninit = .ok s') :
    s'.sId = s.sId + if Numbered (.newConnection answers uninit) then 1 else 0 := by
  unfold onNewConnection at h
  by_cases hstatus : answers.status < 0
  · have hnot : ¬Numbered (.newConnection answers uninit) := fun hn => absurd hn.1 (by omega)
    rw [if_pos hstatus] at h
    cases h
    rw [if_neg hnot, Nat.add_zero]
  rw [if_neg hstatus] at h
  obtain ⟨⟨c, t⟩, htake, h⟩ := Incremental.bind_eq_ok h
  simp only at h
  rw [← (take_same htake).1]
  by_cases hinit : answers.tcpInit ≠ 0
  · have hnot : ¬Numbered (.newConnection answers uninit) := fun hn => hinit hn.2
    rw [if_pos hinit] at h
    cases h
    rw [if_neg hnot]
    rfl
  have hnum : Numbered (.newConnection answers uninit) := ⟨by omega, not_not.mp hinit⟩
  rw [if_neg hinit] at h
  rw [if_pos hnum]
  unfold getAvailaClientID at h
  by_cases hid : t.sId + 1 < 2 ^ 31
  · rw [if_pos hid] at h
    change (if answers.accept ≠ 0 then _ else _) = _ at h
    split at h
    · cases h
      rfl
    · split at h
      · cases h
        rfl
      · cases h
        exact mapInsert_sId _ _ _
  · rw [if_neg hid] at h
    cases h

/-- What a callback does to the numbers. -/
theorem step_sId (hpool : Pool s) (h : s.step e = .ok (s', o)) :
    s'.sId = s.sId + if Numbered e then 1 else 0 := by
  cases e with
  | newConnection answers uninit =>
    replace h := (step_intact h).2
    simp only [callback] at h
    split at h
    · cases h
    · next hnew =>
      cases h
      exact onNewConnection_sId hnew
  | recv c data =>
    cases step_cases h with
    | recv => rfl
  | readError c =>
    cases step_cases h with
    | readError => rfl
  | closed c =>
    cases step_cases h with
    | recycled hc =>
      unfold recycleTcpHandle
      split <;> rfl
    | disconnected hc =>
      have hcases := hpool.afterClientClose_cases hc
      generalize (s.handleClosed c).afterClientClose c = t at hcases
      cases hcases with
      | pushed => rfl
      | freed => rfl

/-- What a callback does to the map. -/
theorem step_clientMap (hpool : Pool s) (h : s.step e = .ok (s', o)) (cid : Int) (c : Nat) :
    s'.clientMap cid = some c ↔ s.clientMap cid = some c ∧ e ≠ .closed c ∨
      s.handsOut e = some c ∧ cid = (s.sId + 1 : Nat) := by
  cases step_cases h with
  | @newConnection answers uninit _ haccepted =>
    have hkeep : (s.handsOut (.newConnection answers uninit) = none) →
        (s.clientMap cid = some c ↔ s.clientMap cid = some c ∧
          NetEvent.newConnection answers uninit ≠ .closed c ∨
        s.handsOut (.newConnection answers uninit) = some c ∧ cid = (s.sId + 1 : Nat)) := by
      intro hnone
      rw [hnone]
      simp
    cases haccepted with
    | none hneg => exact hkeep (if_neg fun hok => absurd hok.1 (by omega))
    | pushed x t htake hinit =>
      rw [← hkeep (if_neg fun hok => hinit hok.2.1)]
      show t.clientMap cid = some c ↔ _
      rw [(take_same htake).2]
    | refused x t ps htake hid hbad =>
      rw [← hkeep (if_neg fun hok => (hbad.resolve_left fun hne => hne hok.2.2.1) hok.2.2.2)]
      show t.clientMap cid = some c ↔ _
      rw [(take_same htake).2]
    | connected x t htake hid hstatus hinit haccept hread =>
      obtain ⟨hsId, hmap⟩ := take_same htake
      have hfresh := (hpool.take htake).1.pool.map_fresh hid
      have hout : s.handsOut (.newConnection answers uninit) = some x := by
        show (if _ then some s.nextClientCtx else none) = _
        rw [if_pos ⟨hstatus, hinit, haccept, hread⟩, (takeClientCtx_cases htake).eq_next]
      have hinsert : ((t.opened x .reading ((t.ctx x).packet.setPacketCB x)).mapInsert
          (t.sId + 1) x).clientMap = Function.update t.clientMap (toInt (t.sId + 1)) (some x) := by
        unfold mapInsert
        rw [show (t.opened x .reading _).clientMap = t.clientMap from rfl, hfresh]
      rw [hinsert, hout, ← hmap, ← hsId]
      rw [toInt_eq hid] at hfresh ⊢
      by_cases hcid : cid = (t.sId + 1 : Nat)
      · rw [hcid, Function.update_self, hfresh]
        simp
      · rw [Function.update_of_ne hcid]
        constructor
        · exact fun hmapped => Or.inl ⟨hmapped, nofun⟩
        · rintro (⟨hmapped, -⟩ | ⟨-, heq⟩)
          · exact hmapped
          · exact absurd heq hcid
  | recv => simp [modify, handsOut]
  | readError => simp [close, uvClose, modify, handsOut]
  | @recycled x hx =>
    have hnot : ¬(s.ctx x).Connected := by
      unfold ClientConnS.Connected
      rw [hx]
      rintro (hconn | hconn) <;> cases hconn
    have hmap : ((s.handleClosed x).recycleTcpHandle x).clientMap = s.clientMap := by
      unfold recycleTcpHandle
      split <;> rfl
    rw [hmap]
    constructor
    · intro hc
      refine Or.inl ⟨hc, fun heq => hpool.mapped_ne hnot hc ?_⟩
      cases heq
      rfl
    · rintro (⟨hc, -⟩ | ⟨hnone, -⟩)
      · exact hc
      · cases hnone
  | @disconnected x hx =>
    have hmine := hpool.connected x (Or.inr hx)
    have hmap : ((s.handleClosed x).afterClientClose x).clientMap =
        Function.update s.clientMap (toInt (s.ctx x).clientid) none := by
      have hcases := hpool.afterClientClose_cases hx
      generalize (s.handleClosed x).afterClientClose x = t at hcases
      cases hcases with
      | pushed => rfl
      | freed => rfl
    rw [hmap]
    by_cases hcid : cid = toInt (s.ctx x).clientid
    · subst hcid
      rw [Function.update_self, hmine]
      refine iff_of_false nofun ?_
      rintro (⟨hc, hne⟩ | ⟨hnone, -⟩)
      · cases hc
        exact hne rfl
      · cases hnone
    · rw [Function.update_of_ne hcid]
      constructor
      · intro hc
        refine Or.inl ⟨hc, fun heq => hcid ?_⟩
        cases heq
        exact (hpool.mapped cid c hc).2.symm
      · rintro (⟨hc, -⟩ | ⟨hnone, -⟩)
        · exact hc
        · cases hnone

/-- For every sequence of callbacks: a number finds the connection that it was given to, and it
does so until the close callback of the connection; any other number finds nothing. -/
theorem getClientByID_iff {needTls : Bool} {mem : Nat → ClientConnS}
    (h : run (start needTls mem) es = .ok (s, out)) (cid : Int) (c : Nat) :
    s.getClientByID cid = some c ↔ OpenAs (start needTls mem) es cid c := by
  have hinv := invariant (fun es s out => run (start needTls mem) es = .ok (s, out) ∧ Pool s ∧
    s.sId = numbers es ∧ ∀ cid c, s.clientMap cid = some c ↔ OpenAs (start needTls mem) es cid c)
    ⟨rfl, pool_start needTls mem, rfl, fun cid c => ?_⟩ ?_ es s out h
  · exact hinv.2.2.2 cid c
  · refine iff_of_false nofun ?_
    rintro ⟨pre, e, post, t, out, hnil, -⟩
    exact absurd hnil.symm (List.append_ne_nil_of_right_ne_nil pre (List.cons_ne_nil e post))
  · rintro es e s s' out o ⟨hrun, hpool, hid, hmap⟩ hstep
    refine ⟨run_trans hrun (run_one hstep), hpool.step hstep, ?_, fun cid c => ?_⟩
    · rw [step_sId hpool hstep, hid, numbers_concat]
    · rw [openAs_concat hrun, ← hmap, step_clientMap hpool hstep, hid]

end

/-- Two connections, and the first one goes. -/
theorem getClientByID_iff_two :
    ¬OpenAs (start false fun _ => blankCtx)
        [.newConnection ⟨0, 0, 0, 0⟩ (charToNetPacket []),
          .newConnection ⟨0, 0, 0, 0⟩ (charToNetPacket []), .readError 0, .closed 0] 1 0 ∧
      OpenAs (start false fun _ => blankCtx)
        [.newConnection ⟨0, 0, 0, 0⟩ (charToNetPacket []),
          .newConnection ⟨0, 0, 0, 0⟩ (charToNetPacket []), .readError 0, .closed 0] 2 1 := by
  obtain ⟨s, hrun, hfirst, hsecond⟩ : ∃ s, run (start false fun _ => blankCtx)
      [.newConnection ⟨0, 0, 0, 0⟩ (charToNetPacket []),
        .newConnection ⟨0, 0, 0, 0⟩ (charToNetPacket []), .readError 0, .closed 0] = .ok (s, []) ∧
      s.getClientByID 1 = none ∧ s.getClientByID 2 = some 1 := ⟨_, rfl, rfl, rfl⟩
  refine ⟨fun hopen => ?_, (getClientByID_iff hrun 2 1).mp hsecond⟩
  rw [← getClientByID_iff hrun 1 0, hfirst] at hopen
  cases hopen

end Uvnet

end OCServer
