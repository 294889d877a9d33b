import Mathlib.Data.List.Infix
import SpVision.Library.Runs

set_option autoImplicit false

/-!
# The thread-safe queue

Each operation holds the mutex. A consumer that finds the queue empty sleeps, and every
push that is stored wakes all of them; each then looks at the queue again.
-/
namespace SpVision
open AllRuns

/-- `max_size_` and the template argument. -/
structure QueueConfig where
  maxSize : ℕ
  popWhenFull : Bool
  deriving DecidableEq, Repr

/-- `queue_` and the calls of `full_handler_`, with the consumers that sleep or were woken and, for the record,
    the items pushed, popped and cleared. -/
structure SafeQueue (α : Type) where
  queue : List α := []
  fullCalls : ℕ := 0
  asleep : ℕ := 0
  woken : ℕ := 0
  pushed : List α := []
  popped : List α := []
  cleared : ℕ := 0

/-- `retry` is a woken consumer's next look at the queue, `wake` a wake-up for no reason. A consumer that only wants
    to see the front takes nothing. -/
inductive QueueOp (α : Type)
  | push (value : α)
  | pop
  | front
  | retry (takes : Bool)
  | wake
  | clear
  deriving DecidableEq, Repr

namespace SafeQueue

variable {α : Type} {c : QueueConfig} {q : SafeQueue α}

def wakeAll (q : SafeQueue α) : SafeQueue α := { q with woken := q.woken + q.asleep, asleep := 0 }

/-- On a queue of size 0 that pops when full the source has no defined behaviour. -/
def push (c : QueueConfig) (q : SafeQueue α) (value : α) : SafeQueue α :=
  let q := { q with pushed := q.pushed ++ [value] }
  if q.queue.length ≥ c.maxSize then
    if c.popWhenFull then { q with queue := q.queue.tail ++ [value] }.wakeAll
    else { q with fullCalls := q.fullCalls + 1 }
  else { q with queue := q.queue ++ [value] }.wakeAll

/-- What a consumer does with the lock held. -/
def look (q : SafeQueue α) (takes : Bool) : SafeQueue α :=
  match q.queue with
  | [] => { q with asleep := q.asleep + 1 }
  | value :: rest => if takes then { q with queue := rest, popped := q.popped ++ [value] } else q

def clear (q : SafeQueue α) : SafeQueue α :=
  { q with queue := [], cleared := q.cleared + q.queue.length }.wakeAll

def step (c : QueueConfig) (q : SafeQueue α) : QueueOp α → SafeQueue α
  | .push value => q.push c value
  | .pop => q.look true
  | .front => q.look false
  | .retry takes => { q with woken := q.woken - 1 }.look takes
  | .wake => { q with asleep := q.asleep - 1, woken := q.woken + 1 }
  | .clear => q.clear

def Enabled (q : SafeQueue α) : QueueOp α → Prop
  | .retry _ => 0 < q.woken
  | .wake => 0 < q.asleep
  | _ => True

instance (q : SafeQueue α) : DecidablePred q.Enabled
  | .retry _ => inferInstanceAs (Decidable (_ < _))
  | .wake => inferInstanceAs (Decidable (_ < _))
  | .push _ | .pop | .front | .clear => isTrue trivial

/-! ### The invariant -/

structure Kept (c : QueueConfig) (q : SafeQueue α) : Prop where
  order : (q.popped ++ q.queue).Sublist q.pushed
  bound : q.queue.length ≤ c.maxSize
  asleep : 0 < q.asleep → q.queue = []
  count : c.popWhenFull = false →
    q.pushed.length = q.popped.length + q.queue.length + q.fullCalls + q.cleared
  latest : c.popWhenFull = true → q.queue <:+ q.pushed ∧ q.fullCalls = 0

theorem init_kept (c : QueueConfig) : ({} : SafeQueue α).Kept c where
  order := List.Sublist.refl _
  bound := Nat.zero_le _
  asleep _ := rfl
  count _ := rfl
  latest _ := ⟨List.suffix_rfl, rfl⟩

theorem Kept.push (h : q.Kept c) (hsize : 0 < c.maxSize) (value : α) : (q.push c value).Kept c := by
  have hbound := h.bound
  have hstored {queue : List α} (hsub : (q.popped ++ queue).Sublist q.pushed) :
      (q.popped ++ (queue ++ [value])).Sublist (q.pushed ++ [value]) := by
    rw [← List.append_assoc]
    exact hsub.append (List.Sublist.refl _)
  have hend {queue : List α} (hsuffix : queue <:+ q.pushed) : queue ++ [value] <:+ q.pushed ++ [value] := by
    obtain ⟨before, hbefore⟩ := hsuffix
    exact ⟨before, by rw [← List.append_assoc, hbefore]⟩
  unfold SafeQueue.push
  dsimp only
  split_ifs with hfull hpop
  · have htail : q.queue.tail.length + 1 = c.maxSize := by
      rw [List.length_tail]
      omega
    refine ⟨hstored ?_, ?_, fun hpos => absurd hpos (Nat.lt_irrefl 0), ?_, ?_⟩
    · exact (List.Sublist.append_left (List.tail_sublist _) _).trans h.order
    · change (q.queue.tail ++ [value]).length ≤ _
      rw [List.length_append, List.length_singleton]
      exact htail.le
    · intro hno
      rw [hpop] at hno
      cases hno
    · intro _
      obtain ⟨hsuffix, hcalls⟩ := h.latest hpop
      exact ⟨hend ((List.tail_suffix _).trans hsuffix), hcalls⟩
  · refine ⟨h.order.trans (List.sublist_append_left _ _), hbound, h.asleep, ?_, fun hyes => absurd hyes hpop⟩
    intro hno
    have hcount := h.count hno
    change (q.pushed ++ [value]).length = q.popped.length + q.queue.length + (q.fullCalls + 1) + q.cleared
    rw [List.length_append, List.length_singleton]
    omega
  · refine ⟨hstored h.order, ?_, fun hpos => absurd hpos (Nat.lt_irrefl 0), ?_, ?_⟩
    · change (q.queue ++ [value]).length ≤ _
      rw [List.length_append, List.length_singleton]
      omega
    · intro hno
      have hcount := h.count hno
      change (q.pushed ++ [value]).length =
        q.popped.length + (q.queue ++ [value]).length + q.fullCalls + q.cleared
      rw [List.length_append, List.length_append, List.length_singleton]
      omega
    · intro hyes
      obtain ⟨hsuffix, hcalls⟩ := h.latest hyes
      exact ⟨hend hsuffix, hcalls⟩

theorem look_cases (q : SafeQueue α) (takes : Bool) :
    q.queue = [] ∧ q.look takes = { q with asleep := q.asleep + 1 } ∨ q.look takes = q ∨
      ∃ value rest, q.queue = value :: rest ∧
        q.look takes = { q with queue := rest, popped := q.popped ++ [value] } := by
  unfold SafeQueue.look
  split
  · rename_i hqueue
    exact .inl ⟨hqueue, rfl⟩
  · rename_i value rest hqueue
    split_ifs
    · exact .inr (.inr ⟨value, rest, hqueue, rfl⟩)
    · exact .inr (.inl rfl)

theorem Kept.look (h : q.Kept c) (takes : Bool) : (q.look takes).Kept c := by
  rcases q.look_cases takes with ⟨hqueue, heq⟩ | heq | ⟨value, rest, hqueue, heq⟩
  · rw [heq]
    exact ⟨h.order, h.bound, fun _ => hqueue, h.count, h.latest⟩
  · rw [heq]
    exact h
  · rw [heq]
    have horder := h.order
    have hbound := h.bound
    have hcount := h.count
    have hlatest := h.latest
    rw [hqueue] at horder hbound hcount hlatest
    rw [List.length_cons] at hbound hcount
    refine ⟨?_, Nat.le_of_succ_le hbound, ?_, ?_, ?_⟩
    · rwa [List.append_cons] at horder
    · intro hpos
      have hempty := h.asleep hpos
      rw [hqueue] at hempty
      cases hempty
    · intro hno
      have hcount := hcount hno
      dsimp only
      rw [List.length_append, List.length_singleton]
      omega
    · intro hyes
      obtain ⟨hsuffix, hcalls⟩ := hlatest hyes
      exact ⟨(List.suffix_cons _ _).trans hsuffix, hcalls⟩

theorem Kept.clear (h : q.Kept c) : q.clear.Kept c where
  order := by
    change (q.popped ++ []).Sublist q.pushed
    exact (List.Sublist.append_left (List.nil_sublist _) _).trans h.order
  bound := Nat.zero_le _
  asleep _ := rfl
  count hno := by
    have hcount := h.count hno
    change q.pushed.length = q.popped.length + 0 + q.fullCalls + (q.cleared + q.queue.length)
    omega
  latest hyes := ⟨List.nil_suffix, (h.latest hyes).2⟩

theorem Kept.step (h : q.Kept c) (hsize : 0 < c.maxSize) {op : QueueOp α} (hop : q.Enabled op) :
    (q.step c op).Kept c := by
  cases op with
  | push value => exact h.push hsize value
  | pop => exact h.look true
  | front => exact h.look false
  | retry takes =>
    have hwoken : ({ q with woken := q.woken - 1 } : SafeQueue α).Kept c :=
      ⟨h.order, h.bound, h.asleep, h.count, h.latest⟩
    exact hwoken.look takes
  | wake => exact ⟨h.order, h.bound, fun hpos => h.asleep (Nat.lt_of_lt_of_le hpos (Nat.sub_le _ _)), h.count, h.latest⟩
  | clear => exact h.clear

end SafeQueue

/-- In every run of producers and consumers the items come out in the order they were pushed, none twice, the queue
    stays within its size, and no consumer sleeps while it holds an item. A queue that refuses when it is full counts
    every refusal; one that makes room instead holds the items pushed last, and nothing else. -/
theorem threadSafeQueue_run {α : Type} (c : QueueConfig) (hsize : 0 < c.maxSize) (ops : List (QueueOp α))
    (hops : LegalRun (SafeQueue.step c) SafeQueue.Enabled {} ops) :
    let q := ops.foldl (SafeQueue.step c) {}
    (q.popped ++ q.queue).Sublist q.pushed ∧ q.queue.length ≤ c.maxSize ∧ (0 < q.asleep → q.queue = []) ∧
      (c.popWhenFull = false →
        q.pushed.length = q.popped.length + q.queue.length + q.fullCalls + q.cleared) ∧
      (c.popWhenFull = true → q.queue = q.pushed.drop (q.pushed.length - q.queue.length) ∧ q.fullCalls = 0) := by
  intro q
  have h : q.Kept c := inv_foldl (SafeQueue.step c) (SafeQueue.Kept c)
    (fun _ _ hq hop => hq.step hsize hop) (SafeQueue.init_kept c) hops
  refine ⟨h.order, h.bound, h.asleep, h.count, fun hyes => ?_⟩
  obtain ⟨hsuffix, hcalls⟩ := h.latest hyes
  exact ⟨List.suffix_iff_eq_drop.mp hsuffix, hcalls⟩

/-- The queue between the detector and the planner: the planner sees the newest target. -/
def targetQueue : QueueConfig := ⟨1, true⟩

theorem threadSafeQueue_run_target :
    let q := [.front, .push 7, .push 8, .retry false, .pop, .pop].foldl (SafeQueue.step targetQueue) {}
    q.pushed = [7, 8] ∧ q.popped = [8] ∧ q.asleep = 1 ∧ (q.popped ++ q.queue).Sublist q.pushed :=
  ⟨by decide, by decide, by decide, (threadSafeQueue_run targetQueue (by decide) _ (by decide)).1⟩

end SpVision
