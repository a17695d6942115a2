import Mathlib.Logic.Function.Basic
import OCServer.Lib.Machine

/-!
# The message queue

A model of `EvDispatch` (`src/src/ev_dispatch.cpp`): threads that post
messages, and the dispatch thread that takes them out.

`postMsg` and `afterpost_cb` run on different threads, so a step is one
section that holds `mutex_queue`, or `uv_async_send`, or the start of the
callback.  What libuv promises about the handle `async` is in the steps: a
send sets its flag, several sends may set it before libuv looks, and libuv
clears it before it runs `afterpost_cb`.

`run_delivers` says that the messages are taken in the order in which they
were pushed, and that no wake-up is lost.  The invariant is `Awake`.
-/

namespace OCServer

open Machine

/-- Where a thread is in `postMsg`: outside, or behind `qfmsg.push`. -/
inductive PostPc
  | outside
  | pushed
  deriving DecidableEq, Repr

/-- Where the dispatch thread is in `afterpost_cb`. -/
inductive CallbackPc
  | outside
  | loopTest
  | body
  deriving DecidableEq, Repr

/-- The fields of `EvDispatch`, and where its threads are.  `async` says
that the handle is pending.  The threads are the elements of `ι`. -/
structure EvDispatch (ι μ : Type) where
  qfmsg : List μ
  async : Bool
  posters : ι → PostPc
  callback : CallbackPc

/-- The steps of the threads. -/
inductive QueueEvent (ι μ : Type)
  | push (i : ι) (msg : μ)
  | send (i : ι)
  | afterpostCb
  | checkQueue
  | take
  deriving DecidableEq

/-- Why a step is not taken.  `frontOfEmpty` is a call of `front` on an
empty queue, which is not defined. -/
inductive QueueStop
  | notEnabled
  | frontOfEmpty
  deriving DecidableEq, Repr

namespace EvDispatch

variable {ι μ : Type}

/-- `EvDispatch` after its construction. -/
def start : EvDispatch ι μ where
  qfmsg := []
  async := false
  posters := fun _ => .outside
  callback := .outside

variable [DecidableEq ι]

/-- One step, with the messages that it gives to `proc_msg`. -/
def step (d : EvDispatch ι μ) : QueueEvent ι μ → Except QueueStop (EvDispatch ι μ × List μ)
  | .push i msg =>
    if d.posters i = .outside then
      .ok ({ d with
        qfmsg := d.qfmsg ++ [msg], posters := Function.update d.posters i .pushed }, [])
    else .error .notEnabled
  | .send i =>
    if d.posters i = .pushed then
      .ok ({ d with async := true, posters := Function.update d.posters i .outside }, [])
    else .error .notEnabled
  | .afterpostCb =>
    if d.async ∧ d.callback = .outside then
      .ok ({ d with async := false, callback := .loopTest }, [])
    else .error .notEnabled
  | .checkQueue =>
    if d.callback = .loopTest then
      .ok ({ d with callback := if d.qfmsg.isEmpty then .outside else .body }, [])
    else .error .notEnabled
  | .take =>
    if d.callback = .body then
      match d.qfmsg with
      | [] => .error .frontOfEmpty
      | msg :: rest => .ok ({ d with qfmsg := rest, callback := .loopTest }, [msg])
    else .error .notEnabled

/-- The steps of any number of threads, in any order. -/
abbrev run : EvDispatch ι μ → List (QueueEvent ι μ) →
    Except QueueStop (EvDispatch ι μ × List μ) :=
  Incremental.feedAll step

/-- The messages that are pushed, in the order of the pushes. -/
def pushed (es : List (QueueEvent ι μ)) : List μ :=
  es.filterMap fun
    | .push _ msg => some msg
    | _ => none

/-! ## What a step does -/

/-- The steps that are taken. -/
inductive Stepped (d : EvDispatch ι μ) : QueueEvent ι μ → EvDispatch ι μ → List μ → Prop
  | push (i : ι) (msg : μ) : d.posters i = .outside →
      Stepped d (.push i msg)
        { d with qfmsg := d.qfmsg ++ [msg], posters := Function.update d.posters i .pushed } []
  | send (i : ι) : d.posters i = .pushed →
      Stepped d (.send i)
        { d with async := true, posters := Function.update d.posters i .outside } []
  | afterpostCb : d.async = true → d.callback = .outside →
      Stepped d .afterpostCb { d with async := false, callback := .loopTest } []
  | empty : d.callback = .loopTest → d.qfmsg = [] →
      Stepped d .checkQueue { d with callback := .outside } []
  | nonempty : d.callback = .loopTest → d.qfmsg ≠ [] →
      Stepped d .checkQueue { d with callback := .body } []
  | take (msg : μ) (rest : List μ) : d.callback = .body → d.qfmsg = msg :: rest →
      Stepped d .take { d with qfmsg := rest, callback := .loopTest } [msg]

theorem step_cases {d d' : EvDispatch ι μ} {e : QueueEvent ι μ} {out : List μ}
    (h : d.step e = .ok (d', out)) : Stepped d e d' out := by
  cases e with
  | push i msg =>
    simp only [step] at h
    split at h
    · next hi =>
      cases h
      exact .push i msg hi
    · cases h
  | send i =>
    simp only [step] at h
    split at h
    · next hi =>
      cases h
      exact .send i hi
    · cases h
  | afterpostCb =>
    simp only [step] at h
    split at h
    · next hcb =>
      cases h
      exact .afterpostCb hcb.1 hcb.2
    · cases h
  | checkQueue =>
    simp only [step] at h
    split at h
    · next hcb =>
      cases h
      by_cases hq : d.qfmsg = []
      · rw [if_pos (List.isEmpty_iff.mpr hq)]
        exact .empty hcb hq
      · rw [if_neg (mt List.isEmpty_iff.mp hq)]
        exact .nonempty hcb hq
    · cases h
  | take =>
    simp only [step] at h
    split at h
    · next hcb =>
      cases hq : d.qfmsg with
      | nil =>
        rw [hq] at h
        cases h
      | cons msg rest =>
        rw [hq] at h
        cases h
        exact .take msg rest hcb hq
    · cases h

/-! ## No wake-up is lost -/

/-- Somebody will look at a message that is in the queue.  Behind the test
of the loop, the queue is not empty: only the dispatch thread takes. -/
structure Awake (d : EvDispatch ι μ) : Prop where
  front : d.callback = .body → d.qfmsg ≠ []
  awake : d.qfmsg ≠ [] →
    d.async = true ∨ d.callback ≠ .outside ∨ ∃ i, d.posters i = .pushed

omit [DecidableEq ι] in
theorem awake_start : Awake (start : EvDispatch ι μ) where
  front hcb := by cases hcb
  awake hq := absurd rfl hq

omit [DecidableEq ι] in
/-- The loop of the callback looks at the queue again. -/
theorem awake_inside {d : EvDispatch ι μ} (hcb : d.callback ≠ .outside)
    (hfront : d.callback = .body → d.qfmsg ≠ []) : Awake d :=
  ⟨hfront, fun _ => Or.inr (Or.inl hcb)⟩

theorem Awake.step {d d' : EvDispatch ι μ} {e : QueueEvent ι μ} {out : List μ} (h : Awake d)
    (hstep : d.step e = .ok (d', out)) : Awake d' := by
  cases step_cases hstep with
  | push i msg hi =>
    refine ⟨fun _ => ?_, fun _ => Or.inr (Or.inr ⟨i, Function.update_self i _ _⟩)⟩
    exact List.append_ne_nil_of_right_ne_nil _ (List.cons_ne_nil msg [])
  | send i hi => exact ⟨h.front, fun _ => Or.inl rfl⟩
  | afterpostCb hasync hcb => exact awake_inside nofun nofun
  | empty hcb hq => exact ⟨nofun, fun hne => absurd hq hne⟩
  | nonempty hcb hq => exact awake_inside nofun fun _ => hq
  | take msg rest hcb hq => exact awake_inside nofun nofun

/-- A message that a step takes is the front of the queue, and a message
that it pushes goes to the back. -/
theorem step_queue {d d' : EvDispatch ι μ} {e : QueueEvent ι μ} {out : List μ}
    (hstep : d.step e = .ok (d', out)) : out ++ d'.qfmsg = d.qfmsg ++ pushed [e] := by
  cases step_cases hstep with
  | push i msg hi => rfl
  | send i hi => exact (List.append_nil _).symm
  | afterpostCb hasync hcb => exact (List.append_nil _).symm
  | empty hcb hq => exact (List.append_nil _).symm
  | nonempty hcb hq => exact (List.append_nil _).symm
  | take msg rest hcb hq =>
    rw [hq]
    exact (List.append_nil _).symm

/-- `front` is never called on an empty queue. -/
theorem Awake.not_frontOfEmpty {d : EvDispatch ι μ} (h : Awake d) (e : QueueEvent ι μ) :
    d.step e ≠ .error .frontOfEmpty := by
  intro hstep
  cases e with
  | take =>
    simp only [EvDispatch.step] at hstep
    split at hstep
    · next hcb =>
      have hne := h.front hcb
      cases hq : d.qfmsg with
      | nil => exact hne hq
      | cons msg rest =>
        rw [hq] at hstep
        cases hstep
    · cases hstep
  | push i msg =>
    simp only [EvDispatch.step] at hstep
    split at hstep <;> cases hstep
  | send i =>
    simp only [EvDispatch.step] at hstep
    split at hstep <;> cases hstep
  | afterpostCb =>
    simp only [EvDispatch.step] at hstep
    split at hstep <;> cases hstep
  | checkQueue =>
    simp only [EvDispatch.step] at hstep
    split at hstep <;> cases hstep

/-- What is in the queue has been pushed and not been taken. -/
theorem run_queue {es : List (QueueEvent ι μ)} {d : EvDispatch ι μ} {out : List μ}
    (h : run start es = .ok (d, out)) : out ++ d.qfmsg = pushed es ∧ Awake d := by
  refine invariant (fun es d out => out ++ d.qfmsg = pushed es ∧ Awake d) ⟨rfl, awake_start⟩ ?_
    es d out h
  rintro es e d d' out o ⟨hqueue, hawake⟩ hstep
  refine ⟨?_, hawake.step hstep⟩
  have hsplit : pushed (es ++ [e]) = pushed es ++ pushed [e] := List.filterMap_append
  rw [hsplit, ← hqueue, List.append_assoc, List.append_assoc, step_queue hstep]

/-- For any number of posting threads and every order of their steps: the
messages that `proc_msg` has got and those in the queue are the messages
that were pushed, in that order, and a message in the queue will be looked
at.  No step takes the front of an empty queue. -/
theorem run_delivers {es : List (QueueEvent ι μ)} {d : EvDispatch ι μ} {out : List μ}
    (h : run start es = .ok (d, out)) :
    out ++ d.qfmsg = pushed es ∧
      (d.qfmsg ≠ [] →
        d.async = true ∨ d.callback ≠ .outside ∨ ∃ i, d.posters i = .pushed) ∧
      ∀ e, d.step e ≠ .error .frontOfEmpty := by
  obtain ⟨hqueue, hawake⟩ := run_queue h
  exact ⟨hqueue, hawake.awake, hawake.not_frontOfEmpty⟩

/-- Two threads push, one of them sends, and one message is taken. -/
theorem run_delivers_two :
    ∃ d : EvDispatch Bool Nat, d.qfmsg = [11] ∧
      [10] ++ d.qfmsg =
        pushed [.push true 10, .push false 11, .send true, .afterpostCb, .checkQueue, .take] ∧
      (d.async = true ∨ d.callback ≠ .outside ∨ ∃ i, d.posters i = .pushed) := by
  have hrun : run (start : EvDispatch Bool Nat)
      [.push true 10, .push false 11, .send true, .afterpostCb, .checkQueue, .take] =
        .ok (_, [10]) := rfl
  obtain ⟨hqueue, hawake, _⟩ := run_delivers hrun
  exact ⟨_, rfl, hqueue, hawake (List.cons_ne_nil 11 [])⟩

end EvDispatch

end OCServer
