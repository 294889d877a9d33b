import Mathlib.Algebra.Order.Field.Basic
import Mathlib.Algebra.Order.Field.Rat
import Mathlib.Tactic.Linarith
import SpVision.Library.Increasing
import SpVision.Tools.MathTools

set_option autoImplicit false

/-!
# Attitude queries

The gimbal's samples go through a bounded queue from the thread of the link to the one that
asks for attitudes. A query pops samples until it has one before the time asked for and looks
at the next without taking it.
-/
namespace SpVision

structure AttitudeSample (α : Type) where
  q : α
  t : ℤ
  deriving DecidableEq, Repr

/-- `ThreadSafeQueue::push` without `PopWhenFull`: a full queue drops the new value. -/
def queuePush {σ : Type} (maxSize : ℕ) (queue : List σ) (value : σ) : List σ :=
  if queue.length ≥ maxSize then queue else queue ++ [value]

/-- `k` of `LinkImpl::q`. -/
def qWeight (t tA tB : ℤ) : ℚ := deltaTime tA t / deltaTime tA tB

theorem qWeight_mem_iff {t tA tB : ℤ} (h : tA < tB) :
    0 < qWeight t tA tB ∧ qWeight t tA tB ≤ 1 ↔ tA < t ∧ t ≤ tB := by
  have hneg : ((deltaTime tA tB : ℤ) : ℚ) < 0 := by
    rw [Int.cast_lt_zero, deltaTime]
    omega
  have hpos : 0 < qWeight t tA tB ↔ tA < t := by
    rw [qWeight, div_pos_iff, and_iff_left hneg, or_iff_right (fun hboth => hneg.not_gt hboth.2),
      Int.cast_lt_zero, deltaTime, sub_neg]
  have hone : qWeight t tA tB ≤ 1 ↔ t ≤ tB := by
    rw [qWeight, div_le_one_of_neg hneg, Int.cast_le, deltaTime, deltaTime]
    omega
  rw [hpos, hone]

/-- What `LinkImpl::q` returns for `t`, from `a` and `b`. -/
structure Attitude (α : Type) where
  t : ℤ
  a : AttitudeSample α
  b : AttitudeSample α
  deriving DecidableEq, Repr

/-- `q_c` -/
def Attitude.value {α : Type} (slerp : α → ℚ → α → α) (c : Attitude α) : α :=
  slerp c.a.q (qWeight c.t c.a.t c.b.t) c.b.q

/-- Where the thread that asks stands: in the constructor, between calls, before the `pop` of a call, or
    after it and before the `front`. -/
inductive QCall (α : Type)
  | starting
  | idle
  | popping (t : ℤ)
  | fronting (t : ℤ) (a : AttitudeSample α)
  deriving DecidableEq, Repr

structure AttitudeLink (α : Type) where
  queue : List (AttitudeSample α) := []
  call : QCall α := .starting
  deriving DecidableEq, Repr

/-- `on_gimbal_state`, `reconnect`, a call of `q`, and a turn of the thread that asks. -/
inductive AttitudeEvent (α : Type)
  | receive (s : AttitudeSample α)
  | reconnect
  | query (t : ℤ)
  | turn
  deriving DecidableEq, Repr

namespace AttitudeLink

variable {α : Type}

/-- A turn of the thread that asks. `pop` and `front` wait while the queue is empty. -/
def turn (link : AttitudeLink α) : AttitudeLink α × Option (Attitude α) :=
  match link.call, link.queue with
  | .starting, _ :: rest => ({ queue := rest, call := .idle }, none)
  | .popping t, a :: rest => ({ queue := rest, call := .fronting t a }, none)
  | .fronting t a, b :: _ =>
    if t < a.t then ({ link with call := .idle }, some ⟨t, a, b⟩)
    else if ¬ (a.t < t ∧ t ≤ b.t) then ({ link with call := .popping t }, none)
    else ({ link with call := .idle }, some ⟨t, a, b⟩)
  | _, _ => (link, none)

def step (maxSize : ℕ) (link : AttitudeLink α) : AttitudeEvent α → AttitudeLink α
  | .receive s => { link with queue := queuePush maxSize link.queue s }
  | .reconnect => { link with queue := [] }
  | .query t =>
    match link.call with
    | .idle => { link with call := .popping t }
    | _ => link
  | .turn => link.turn.1

end AttitudeLink

def AttitudeEvent.sample? {α : Type} : AttitudeEvent α → Option (AttitudeSample α)
  | .receive s => some s
  | .reconnect => none
  | .query _ => none
  | .turn => none

def AttitudeEvent.time? {α : Type} : AttitudeEvent α → Option ℤ
  | .query t => some t
  | .receive _ => none
  | .reconnect => none
  | .turn => none

/-- The time that the current call asks for. -/
def QCall.asks? {α : Type} : QCall α → Option ℤ
  | .starting => none
  | .idle => none
  | .popping t => some t
  | .fronting t _ => some t

/-- The samples received so far, those popped, those dropped at a full queue or cleared by a reconnect, and
    those that were popped before the current call. -/
structure AttitudeTrace (α : Type) where
  link : AttitudeLink α := {}
  received : List (AttitudeSample α) := []
  popped : List (AttitudeSample α) := []
  lost : List (AttitudeSample α) := []
  before : List (AttitudeSample α) := []
  deriving DecidableEq, Repr

namespace AttitudeTrace

variable {α : Type}

/-- The sample that a turn pops. -/
def taken (link : AttitudeLink α) : List (AttitudeSample α) :=
  match link.call, link.queue with
  | .starting, a :: _ => [a]
  | .popping _, a :: _ => [a]
  | _, _ => []

def step (maxSize : ℕ) (tr : AttitudeTrace α) (event : AttitudeEvent α) : AttitudeTrace α :=
  let link := tr.link.step maxSize event
  match event with
  | .receive s =>
    { tr with link, received := tr.received ++ [s],
              lost := if tr.link.queue.length ≥ maxSize then tr.lost ++ [s] else tr.lost }
  | .reconnect => { tr with link, lost := tr.lost ++ tr.link.queue }
  | .query _ =>
    match tr.link.call with
    | .idle => { tr with link, before := tr.popped }
    | _ => tr
  | .turn => { tr with link, popped := tr.popped ++ taken tr.link }

def run (maxSize : ℕ) (events : List (AttitudeEvent α)) : AttitudeTrace α := events.foldl (step maxSize) {}

theorem run_append (maxSize : ℕ) (pre rest : List (AttitudeEvent α)) :
    run maxSize (pre ++ rest) = rest.foldl (step maxSize) (run maxSize pre) := List.foldl_append

theorem link_step (tr : AttitudeTrace α) (maxSize : ℕ) (event : AttitudeEvent α) :
    (tr.step maxSize event).link = tr.link.step maxSize event := by
  cases event with
  | receive s => rfl
  | reconnect => rfl
  | turn => rfl
  | query t =>
    cases hcall : tr.link.call <;> simp only [step, AttitudeLink.step, hcall]

/-- The trace only watches the link. -/
theorem link_run (maxSize : ℕ) (events : List (AttitudeEvent α)) :
    (run maxSize events).link = events.foldl (AttitudeLink.step maxSize) {} := by
  induction events using List.reverseRecOn with
  | nil => rfl
  | append_singleton pre event ih =>
    rw [run_append, List.foldl_cons, List.foldl_nil, link_step, ih, List.foldl_append]
    rfl

theorem received_step (tr : AttitudeTrace α) (maxSize : ℕ) (event : AttitudeEvent α) :
    (tr.step maxSize event).received = tr.received ++ event.sample?.toList := by
  cases event with
  | receive s => rfl
  | reconnect => exact (List.append_nil _).symm
  | turn => exact (List.append_nil _).symm
  | query t =>
    unfold step
    cases tr.link.call <;> exact (List.append_nil _).symm

theorem received_run (maxSize : ℕ) (events : List (AttitudeEvent α)) :
    (run maxSize events).received = events.filterMap AttitudeEvent.sample? := by
  induction events using List.reverseRecOn with
  | nil => rfl
  | append_singleton pre event ih =>
    rw [run_append, List.foldl_cons, List.foldl_nil, received_step, ih, List.filterMap_append]
    cases event <;> rfl

theorem turn_cases (tr : AttitudeTrace α) (maxSize : ℕ) :
    (tr.step maxSize .turn = tr ∧ tr.link.turn.2 = none ∧
      (tr.link.call.asks? ≠ none → tr.link.queue = [])) ∨
    (∃ a rest, tr.link.call = .starting ∧ tr.link.queue = a :: rest ∧ tr.link.turn.2 = none ∧
      tr.step maxSize .turn = { tr with link := ⟨rest, .idle⟩, popped := tr.popped ++ [a] }) ∨
    (∃ t a rest, tr.link.call = .popping t ∧ tr.link.queue = a :: rest ∧ tr.link.turn.2 = none ∧
      tr.step maxSize .turn = { tr with link := ⟨rest, .fronting t a⟩, popped := tr.popped ++ [a] }) ∨
    (∃ t a b rest, tr.link.call = .fronting t a ∧ tr.link.queue = b :: rest ∧
      ¬ t < a.t ∧ ¬ (a.t < t ∧ t ≤ b.t) ∧ tr.link.turn.2 = none ∧
      tr.step maxSize .turn = { tr with link := { tr.link with call := .popping t } }) ∨
    (∃ t a b rest, tr.link.call = .fronting t a ∧ tr.link.queue = b :: rest ∧
      (t < a.t ∨ a.t < t ∧ t ≤ b.t) ∧ tr.link.turn.2 = some ⟨t, a, b⟩ ∧
      tr.step maxSize .turn = { tr with link := { tr.link with call := .idle } }) := by
  obtain ⟨⟨queue, call⟩, received, popped, lost, before⟩ := tr
  cases queue with
  | nil =>
    left
    cases call <;> simp [step, AttitudeLink.step, AttitudeLink.turn, taken]
  | cons b rest =>
    cases call with
    | starting => exact .inr (.inl ⟨b, rest, rfl, rfl, rfl, rfl⟩)
    | idle =>
      left
      simp [step, AttitudeLink.step, AttitudeLink.turn, taken, QCall.asks?]
    | popping t => exact .inr (.inr (.inl ⟨t, b, rest, rfl, rfl, rfl, rfl⟩))
    | fronting t a =>
      by_cases hnear : t < a.t
      · refine .inr (.inr (.inr (.inr ⟨t, a, b, rest, rfl, rfl, .inl hnear, ?_, ?_⟩))) <;>
          simp [step, AttitudeLink.step, AttitudeLink.turn, taken, hnear]
      · by_cases hfar : a.t < t ∧ t ≤ b.t
        · refine .inr (.inr (.inr (.inr ⟨t, a, b, rest, rfl, rfl, .inr hfar, ?_, ?_⟩))) <;>
            simp [step, AttitudeLink.step, AttitudeLink.turn, taken, hnear, hfar]
        · refine .inr (.inr (.inr (.inl ⟨t, a, b, rest, rfl, rfl, hnear, hfar, ?_, ?_⟩))) <;>
            simp [step, AttitudeLink.step, AttitudeLink.turn, taken, hnear, hfar]

/-- A call that returns has its first sample in hand and its second at the front of the queue. -/
theorem turn_answers {tr : AttitudeTrace α} {c : Attitude α} (hanswer : tr.link.turn.2 = some c) :
    tr.link.call = .fronting c.t c.a ∧ (∃ rest, tr.link.queue = c.b :: rest) ∧
      (c.t < c.a.t ∨ c.a.t < c.t ∧ c.t ≤ c.b.t) := by
  rcases tr.turn_cases 0 with ⟨-, hnone, -⟩ | ⟨a, rest, -, -, hnone, -⟩ | ⟨t, a, rest, -, -, hnone, -⟩ |
      ⟨t, a, b, rest, -, -, -, -, hnone, -⟩ | ⟨t, a, b, rest, hfronting, hqueue, hdone, hsome, -⟩
  · exact absurd (hnone.symm.trans hanswer) nofun
  · exact absurd (hnone.symm.trans hanswer) nofun
  · exact absurd (hnone.symm.trans hanswer) nofun
  · exact absurd (hnone.symm.trans hanswer) nofun
  · cases hsome.symm.trans hanswer
    exact ⟨hfronting, ⟨rest, hqueue⟩, hdone⟩

end AttitudeTrace

end SpVision
