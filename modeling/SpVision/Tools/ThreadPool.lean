import Mathlib.Algebra.BigOperators.Fin
import Mathlib.Algebra.Order.BigOperators.Group.Finset
import Mathlib.Data.Multiset.Basic
import Mathlib.Tactic.Abel
import SpVision.Library.Runs

set_option autoImplicit false

/-!
# The thread pool

Producers, workers and the destructor take steps in any order. What happens under the
mutex is one step; a notification comes at some later time, and a worker that waits on
the condition variable may also wake up by itself.
-/
namespace SpVision
open AllRuns

/-- Where a worker is: about to take the lock and look at the predicate, asleep in `condition.wait`,
    inside a task, or past its `return`. -/
inductive Worker (τ : Type)
  | ready
  | waiting
  | running (task : τ)
  | exited
  deriving DecidableEq, Repr

/-- The pool with what is still to be notified and, for the record, the tasks in the order they were
    enqueued, started and finished, and those dropped by the destructor. -/
structure ThreadPool (τ : Type) (n : ℕ) where
  workers : Fin n → Worker τ := fun _ => .ready
  tasks : List τ := []
  stop : Bool := false
  toNotify : ℕ := 0
  toNotifyAll : Bool := false
  enqueued : List τ := []
  started : List τ := []
  done : List τ := []
  dropped : List τ := []

/-- The two halves of `enqueue` and of the destructor, a wake-up for no reason, and for a worker the
    part under the lock and the end of its task. -/
inductive PoolEvent (τ : Type) (n : ℕ)
  | enqueue (task : τ)
  | notifyOne (woken : Option (Fin n))
  | destroy
  | notifyAll
  | wake (i : Fin n)
  | lock (i : Fin n)
  | finish (i : Fin n)
  deriving DecidableEq, Repr

/-- The steps of the workers and of the notifications under way. -/
def PoolEvent.internal {τ : Type} {n : ℕ} : PoolEvent τ n → Bool
  | .notifyOne _ | .notifyAll | .lock _ | .finish _ => true
  | .enqueue _ | .destroy | .wake _ => false

namespace ThreadPool

variable {τ : Type} {n : ℕ}

def setWorker (p : ThreadPool τ n) (i : Fin n) (w : Worker τ) : ThreadPool τ n :=
  { p with workers := Function.update p.workers i w }

/-- `enqueue` on a stopped pool throws and changes nothing. -/
def enqueue (p : ThreadPool τ n) (task : τ) : ThreadPool τ n :=
  if p.stop then p
  else { p with
    tasks := p.tasks ++ [task], toNotify := p.toNotify + 1, enqueued := p.enqueued ++ [task] }

/-- The predicate of `condition.wait` and what follows it, with the lock held. -/
def lock (p : ThreadPool τ n) (i : Fin n) : ThreadPool τ n :=
  if ¬ p.stop ∧ p.tasks.isEmpty then p.setWorker i .waiting
  else if p.stop ∧ p.tasks.isEmpty then p.setWorker i .exited
  else match p.tasks with
    | [] => p
    | task :: rest => { p.setWorker i (.running task) with tasks := rest, started := p.started ++ [task] }

def step (p : ThreadPool τ n) : PoolEvent τ n → ThreadPool τ n
  | .enqueue task => p.enqueue task
  | .notifyOne woken =>
    let p := { p with toNotify := p.toNotify - 1 }
    match woken with
    | none => p
    | some i => p.setWorker i .ready
  | .destroy => { p with stop := true, tasks := [], toNotifyAll := true, dropped := p.tasks }
  | .notifyAll =>
    { p with
      workers := fun i => match p.workers i with
        | .waiting => .ready
        | w => w
      toNotifyAll := false }
  | .wake i => p.setWorker i .ready
  | .lock i => p.lock i
  | .finish i =>
    match p.workers i with
    | .running task => { p.setWorker i .ready with done := p.done ++ [task] }
    | _ => p

def IsRunning : Worker τ → Prop
  | .running _ => True
  | _ => False

instance (w : Worker τ) : Decidable (IsRunning w) :=
  match w with
  | .running _ => isTrue trivial
  | .ready | .waiting | .exited => isFalse id

/-- `notify_one` wakes a waiting worker if there is one. The destructor runs once. -/
def Enabled (p : ThreadPool τ n) : PoolEvent τ n → Prop
  | .enqueue _ => True
  | .notifyOne none => 0 < p.toNotify ∧ ∀ i, p.workers i ≠ .waiting
  | .notifyOne (some i) => 0 < p.toNotify ∧ p.workers i = .waiting
  | .destroy => p.stop = false
  | .notifyAll => p.toNotifyAll = true
  | .wake i => p.workers i = .waiting
  | .lock i => p.workers i = .ready
  | .finish i => IsRunning (p.workers i)

instance [DecidableEq τ] (p : ThreadPool τ n) : DecidablePred p.Enabled
  | .enqueue _ => isTrue trivial
  | .notifyOne none => inferInstanceAs (Decidable (_ ∧ _))
  | .notifyOne (some _) => inferInstanceAs (Decidable (_ ∧ _))
  | .destroy => inferInstanceAs (Decidable (_ = _))
  | .notifyAll => inferInstanceAs (Decidable (_ = _))
  | .wake _ => inferInstanceAs (Decidable (_ = _))
  | .lock _ => inferInstanceAs (Decidable (_ = _))
  | .finish i => inferInstanceAs (Decidable (IsRunning (p.workers i)))

end ThreadPool

/-! ### Counting over the workers -/

namespace Worker

variable {τ : Type}

def held : Worker τ → Multiset τ
  | .running task => {task}
  | _ => 0

def awake : Worker τ → ℕ
  | .ready => 1
  | _ => 0

/-- The steps that a worker takes at least before it waits or exits. -/
def work : Worker τ → ℕ
  | .ready => 1
  | .running _ => 2
  | _ => 0

end Worker

namespace ThreadPool

variable {τ : Type} {n : ℕ} {p : ThreadPool τ n}

/-- The tasks that are running. -/
def held (p : ThreadPool τ n) : Multiset τ := ∑ i, (p.workers i).held

def awake (p : ThreadPool τ n) : ℕ := ∑ i, (p.workers i).awake

theorem setWorker_self (p : ThreadPool τ n) (i : Fin n) (w : Worker τ) : (p.setWorker i w).workers i = w :=
  Function.update_self _ _ _

theorem setWorker_of_ne {i j : Fin n} (h : j ≠ i) (p : ThreadPool τ n) (w : Worker τ) :
    (p.setWorker i w).workers j = p.workers j := Function.update_of_ne h _ _

theorem sum_setWorker {M : Type} [AddCommMonoid M] (f : Worker τ → M) (p : ThreadPool τ n) (i : Fin n)
    (w : Worker τ) :
    (∑ j, f ((p.setWorker i w).workers j)) + f (p.workers i) = (∑ j, f (p.workers j)) + f w := by
  have hrest : ∀ j ∈ Finset.univ.erase i, f ((p.setWorker i w).workers j) = f (p.workers j) := by
    intro j hj
    rw [setWorker_of_ne (Finset.ne_of_mem_erase hj)]
  rw [← Finset.add_sum_erase _ _ (Finset.mem_univ i), ← Finset.add_sum_erase _ (fun j => f (p.workers j))
    (Finset.mem_univ i), Finset.sum_congr rfl hrest, setWorker_self]
  abel

theorem held_setWorker {i : Fin n} {w : Worker τ} (hi : p.workers i = w) (w' : Worker τ) :
    (p.setWorker i w').held + w.held = p.held + w'.held := by
  rw [← hi]
  exact sum_setWorker Worker.held p i w'

theorem awake_setWorker {i : Fin n} {w : Worker τ} (hi : p.workers i = w) (w' : Worker τ) :
    (p.setWorker i w').awake + w.awake = p.awake + w'.awake := by
  rw [← hi]
  exact sum_setWorker Worker.awake p i w'

/-- A worker that holds no task takes up another state without one. -/
theorem held_idle {i : Fin n} (hi : (p.workers i).held = 0) {w : Worker τ} (hw : w.held = 0) :
    (p.setWorker i w).held = p.held := by
  have hheld := held_setWorker (p := p) (i := i) rfl w
  rwa [hi, hw, add_zero, add_zero] at hheld

/-! ### The invariant -/

structure Sound (p : ThreadPool τ n) : Prop where
  fifo : p.enqueued = p.started ++ (p.dropped ++ p.tasks)
  kept : p.stop = false → p.dropped = []
  cleared : p.stop = true → p.tasks = []
  once : (p.started : Multiset τ) = p.done + p.held
  /-- no worker sleeps while a task is unattended -/
  attended : ∀ i, p.workers i = .waiting → p.tasks.length ≤ p.toNotify + p.awake
  roused : p.stop = true → p.toNotifyAll = false → ∀ i, p.workers i ≠ .waiting
  exited : ∀ i, p.workers i = .exited → p.stop = true

theorem init_sound : ({} : ThreadPool τ n).Sound where
  fifo := rfl
  kept _ := rfl
  cleared _ := rfl
  once := by simp [held, Worker.held]
  attended _ h := nomatch h
  roused h := nomatch h
  exited _ h := nomatch h

theorem Sound.enqueue (h : p.Sound) (task : τ) : (p.enqueue task).Sound := by
  unfold ThreadPool.enqueue
  split_ifs with hstop
  · exact h
  · have hstop' : p.stop = false := by simpa using hstop
    refine ⟨?_, h.kept, fun hs => absurd hs hstop, h.once, ?_, fun hs => absurd hs hstop, h.exited⟩
    · rw [h.fifo, h.kept hstop', List.nil_append, List.append_assoc, List.nil_append]
    · intro i hi
      have hattended := h.attended i hi
      simp only [List.length_append, List.length_singleton]
      change _ ≤ p.toNotify + 1 + p.awake
      omega

/-- A worker wakes up; what is still to be notified drops by one at most. -/
theorem Sound.rouse (h : p.Sound) {i : Fin n} (hi : p.workers i = .waiting) {k : ℕ} (hk : p.toNotify ≤ k + 1) :
    ({ p with toNotify := k }.setWorker i .ready).Sound := by
  let q : ThreadPool τ n := { p with toNotify := k }
  have hawake : (q.setWorker i .ready).awake + 0 = p.awake + 1 := awake_setWorker (p := q) hi .ready
  have hheld : (q.setWorker i .ready).held = p.held := held_idle (p := q) (congrArg Worker.held hi) rfl
  refine ⟨h.fifo, h.kept, h.cleared, ?_, ?_, ?_, ?_⟩
  · rw [hheld]
    exact h.once
  · intro j hj
    have hattended := h.attended i hi
    change p.tasks.length ≤ k + (q.setWorker i .ready).awake
    omega
  · intro hstop hall j
    by_cases hji : j = i
    · rw [hji, setWorker_self]
      nofun
    · rw [setWorker_of_ne hji]
      exact h.roused hstop hall j
  · intro j hj
    by_cases hji : j = i
    · rw [hji, setWorker_self] at hj
      cases hj
    · rw [setWorker_of_ne hji] at hj
      exact h.exited j hj

/-- A notification with no worker waiting. -/
theorem Sound.notifyNone (h : p.Sound) (hnone : ∀ i, p.workers i ≠ .waiting) (k : ℕ) :
    ({ p with toNotify := k } : ThreadPool τ n).Sound :=
  ⟨h.fifo, h.kept, h.cleared, h.once, fun i hi => absurd hi (hnone i), h.roused, h.exited⟩

theorem Sound.destroy (h : p.Sound) (hstop : p.stop = false) : (p.step .destroy).Sound where
  fifo := by
    change p.enqueued = p.started ++ (p.tasks ++ [])
    rw [h.fifo, h.kept hstop, List.nil_append, List.append_nil]
  kept hs := nomatch hs
  cleared _ := rfl
  once := h.once
  attended _ _ := Nat.zero_le _
  roused _ hall := nomatch hall
  exited _ _ := rfl

theorem Sound.notifyAll (h : p.Sound) : (p.step .notifyAll).Sound := by
  have hnone : ∀ i, (p.step .notifyAll).workers i ≠ .waiting := by
    intro i
    change (match p.workers i with | .waiting => Worker.ready | w => w) ≠ .waiting
    split
    · nofun
    · assumption
  refine ⟨h.fifo, h.kept, h.cleared, ?_, fun i hi => absurd hi (hnone i), fun _ _ => hnone, ?_⟩
  · have hheld : (p.step .notifyAll).held = p.held := by
      refine Finset.sum_congr rfl fun i _ => ?_
      change (match p.workers i with | .waiting => Worker.ready | w => w).held = _
      split
      · rename_i hw
        rw [hw]
        rfl
      · rfl
    rw [hheld]
    exact h.once
  · intro i hi
    change (match p.workers i with | .waiting => Worker.ready | w => w) = .exited at hi
    split at hi
    · cases hi
    · exact h.exited i hi

theorem Sound.lock (h : p.Sound) {i : Fin n} (hi : p.workers i = .ready) : (p.lock i).Sound := by
  have hidle : (p.workers i).held = 0 := congrArg Worker.held hi
  unfold ThreadPool.lock
  split_ifs with hwait hexit
  · obtain ⟨hstop, htasks⟩ := hwait
    rw [List.isEmpty_iff] at htasks
    refine ⟨h.fifo, h.kept, h.cleared, ?_, ?_, fun hs => absurd hs hstop, ?_⟩
    · rw [held_idle hidle rfl]
      exact h.once
    · intro _ _
      change p.tasks.length ≤ _
      rw [htasks]
      exact Nat.zero_le _
    · intro j hj
      by_cases hji : j = i
      · rw [hji, setWorker_self] at hj
        cases hj
      · rw [setWorker_of_ne hji] at hj
        exact h.exited j hj
  · obtain ⟨hstop, htasks⟩ := hexit
    rw [List.isEmpty_iff] at htasks
    refine ⟨h.fifo, h.kept, h.cleared, ?_, ?_, ?_, fun _ _ => hstop⟩
    · rw [held_idle hidle rfl]
      exact h.once
    · intro _ _
      change p.tasks.length ≤ _
      rw [htasks]
      exact Nat.zero_le _
    · intro hs hall j
      by_cases hji : j = i
      · rw [hji, setWorker_self]
        nofun
      · rw [setWorker_of_ne hji]
        exact h.roused hs hall j
  · cases htasks : p.tasks with
    | nil => exact h
    | cons task rest =>
      have hstop : p.stop = false := by
        by_contra hs
        have hcleared := h.cleared (by simpa using hs)
        rw [htasks] at hcleared
        cases hcleared
      have hrun : (p.setWorker i (.running task)).held + 0 = p.held + {task} := held_setWorker hi (.running task)
      have hrest : (p.setWorker i (.running task)).awake + 1 = p.awake + 0 := awake_setWorker hi (.running task)
      refine ⟨?_, h.kept, fun hs => ?_, ?_, ?_, fun hs => ?_, ?_⟩
      · change p.enqueued = p.started ++ [task] ++ (p.dropped ++ rest)
        rw [h.fifo, h.kept hstop, htasks]
        simp
      · change p.stop = true at hs
        rw [hstop] at hs
        cases hs
      · change ((p.started ++ [task] : List τ) : Multiset τ) = p.done + (p.setWorker i (.running task)).held
        rw [add_zero] at hrun
        rw [hrun, ← Multiset.coe_add, h.once]
        exact add_assoc _ _ _
      · intro j hj
        have hji : j ≠ i := by
          rintro rfl
          change (p.setWorker j (.running task)).workers j = .waiting at hj
          rw [setWorker_self] at hj
          cases hj
        change (p.setWorker i (.running task)).workers j = .waiting at hj
        rw [setWorker_of_ne hji] at hj
        have hattended := h.attended j hj
        rw [htasks, List.length_cons] at hattended
        change rest.length ≤ p.toNotify + (p.setWorker i (.running task)).awake
        omega
      · change p.stop = true at hs
        rw [hstop] at hs
        cases hs
      · intro j hj
        change (p.setWorker i (.running task)).workers j = .exited at hj
        by_cases hji : j = i
        · rw [hji, setWorker_self] at hj
          cases hj
        · rw [setWorker_of_ne hji] at hj
          exact h.exited j hj

theorem Sound.finish (h : p.Sound) {i : Fin n} {task : τ} (hi : p.workers i = .running task) :
    ({ p.setWorker i .ready with done := p.done ++ [task] } : ThreadPool τ n).Sound := by
  have hawake : (p.setWorker i .ready).awake + 0 = p.awake + 1 := awake_setWorker hi .ready
  have hheld : (p.setWorker i .ready).held + {task} = p.held + 0 := held_setWorker hi .ready
  refine ⟨h.fifo, h.kept, h.cleared, ?_, ?_, ?_, ?_⟩
  · change (p.started : Multiset τ) = ((p.done ++ [task] : List τ) : Multiset τ) + (p.setWorker i .ready).held
    rw [add_zero] at hheld
    rw [h.once, ← Multiset.coe_add, add_assoc, ← hheld]
    exact congrArg _ (add_comm _ _)
  · intro j hj
    have hji : j ≠ i := by
      rintro rfl
      change (p.setWorker j .ready).workers j = .waiting at hj
      rw [setWorker_self] at hj
      cases hj
    change (p.setWorker i .ready).workers j = .waiting at hj
    rw [setWorker_of_ne hji] at hj
    have hattended := h.attended j hj
    change p.tasks.length ≤ p.toNotify + (p.setWorker i .ready).awake
    omega
  · intro hs hall j
    change (p.setWorker i .ready).workers j ≠ .waiting
    by_cases hji : j = i
    · rw [hji, setWorker_self]
      nofun
    · rw [setWorker_of_ne hji]
      exact h.roused hs hall j
  · intro j hj
    change (p.setWorker i .ready).workers j = .exited at hj
    by_cases hji : j = i
    · rw [hji, setWorker_self] at hj
      cases hj
    · rw [setWorker_of_ne hji] at hj
      exact h.exited j hj

theorem Sound.step (h : p.Sound) {e : PoolEvent τ n} (he : p.Enabled e) : (p.step e).Sound := by
  cases e with
  | enqueue task => exact h.enqueue task
  | notifyOne woken =>
    cases woken with
    | none => exact h.notifyNone he.2 _
    | some i => exact h.rouse he.2 (by omega)
  | destroy => exact h.destroy he
  | notifyAll => exact h.notifyAll
  | wake i => exact h.rouse he (Nat.le_succ _)
  | lock i => exact h.lock he
  | finish i =>
    have hrunning : IsRunning (p.workers i) := he
    unfold ThreadPool.step
    dsimp only
    split
    · rename_i task htask
      exact h.finish htask
    · exact h

/-! ### The pool comes to rest -/

def remaining (p : ThreadPool τ n) : ℕ :=
  2 * p.tasks.length + 2 * p.toNotify + (if p.toNotifyAll then n + 1 else 0) + ∑ i, (p.workers i).work

theorem work_setWorker {i : Fin n} {w : Worker τ} (hi : p.workers i = w) (w' : Worker τ) :
    (∑ j, ((p.setWorker i w').workers j).work) + w.work = (∑ j, (p.workers j).work) + w'.work := by
  rw [← hi]
  exact sum_setWorker Worker.work p i w'

theorem remaining_lock {i : Fin n} (hi : p.workers i = .ready) : (p.lock i).remaining < p.remaining := by
  unfold ThreadPool.lock
  split_ifs with hwait hexit
  · have hwork : (∑ j, ((p.setWorker i .waiting).workers j).work) + 1 = (∑ j, (p.workers j).work) + 0 :=
      work_setWorker hi .waiting
    unfold remaining
    change 2 * p.tasks.length + 2 * p.toNotify + (if p.toNotifyAll then n + 1 else 0) + _ < _
    omega
  · have hwork : (∑ j, ((p.setWorker i .exited).workers j).work) + 1 = (∑ j, (p.workers j).work) + 0 :=
      work_setWorker hi .exited
    unfold remaining
    change 2 * p.tasks.length + 2 * p.toNotify + (if p.toNotifyAll then n + 1 else 0) + _ < _
    omega
  · cases htasks : p.tasks with
    | nil =>
      rw [htasks] at hwait hexit
      cases hstop : p.stop with
      | false => exact absurd ⟨by simp [hstop], rfl⟩ hwait
      | true => exact absurd ⟨hstop, rfl⟩ hexit
    | cons task rest =>
      have hwork : (∑ j, ((p.setWorker i (.running task)).workers j).work) + 1 =
          (∑ j, (p.workers j).work) + 2 := work_setWorker hi (.running task)
      unfold remaining
      rw [htasks, List.length_cons]
      change 2 * rest.length + 2 * p.toNotify + (if p.toNotifyAll then n + 1 else 0) +
        (∑ j, ((p.setWorker i (.running task)).workers j).work) < _
      omega

/-- Without new tasks and spurious wake-ups the pool gets closer to rest with every step. -/
theorem remaining_lt {e : PoolEvent τ n} (he : p.Enabled e) (hinternal : e.internal) :
    (p.step e).remaining < p.remaining := by
  cases e with
  | enqueue | destroy | wake => cases hinternal
  | notifyOne woken =>
    cases woken with
    | none =>
      have hpos : 0 < p.toNotify := he.1
      unfold remaining
      change 2 * p.tasks.length + 2 * (p.toNotify - 1) + (if p.toNotifyAll then n + 1 else 0) +
        (∑ j, (p.workers j).work) < _
      omega
    | some i =>
      have hpos : 0 < p.toNotify := he.1
      have hwork : (∑ j, ((p.setWorker i .ready).workers j).work) + 0 = (∑ j, (p.workers j).work) + 1 :=
        work_setWorker he.2 .ready
      unfold remaining
      change 2 * p.tasks.length + 2 * (p.toNotify - 1) + (if p.toNotifyAll then n + 1 else 0) +
        (∑ j, ((p.setWorker i .ready).workers j).work) < _
      omega
  | notifyAll =>
    have hall : p.toNotifyAll = true := he
    have hwork : (∑ j, ((p.step .notifyAll).workers j).work) ≤ (∑ j, (p.workers j).work) + n := by
      have hone : ∀ j ∈ Finset.univ, ((p.step .notifyAll).workers j).work ≤ (p.workers j).work + 1 := by
        intro j _
        change (match p.workers j with | .waiting => Worker.ready | w => w).work ≤ _
        split
        · exact Nat.le_add_left _ _
        · exact Nat.le_succ _
      have hsum := Finset.sum_le_sum hone
      rwa [Finset.sum_add_distrib, Finset.sum_const, Finset.card_univ, Fintype.card_fin, smul_eq_mul,
        mul_one] at hsum
    unfold remaining
    rw [hall, if_pos rfl]
    change 2 * p.tasks.length + 2 * p.toNotify + 0 + (∑ j, ((p.step .notifyAll).workers j).work) < _
    omega
  | lock i => exact remaining_lock he
  | finish i =>
    have hrunning : IsRunning (p.workers i) := he
    unfold ThreadPool.step
    dsimp only
    split
    · rename_i task htask
      have hwork : (∑ j, ((p.setWorker i .ready).workers j).work) + 2 = (∑ j, (p.workers j).work) + 1 :=
        work_setWorker htask .ready
      unfold remaining
      change 2 * p.tasks.length + 2 * p.toNotify + (if p.toNotifyAll then n + 1 else 0) +
        (∑ j, ((p.setWorker i .ready).workers j).work) < _
      omega
    · rename_i hnot
      cases hw : p.workers i with
      | running task => exact absurd hw (hnot task)
      | ready | waiting | exited =>
        rw [hw] at hrunning
        exact hrunning.elim

theorem length_le_remaining {es : List (PoolEvent τ n)} (hes : LegalRun step Enabled p es)
    (hinternal : ∀ e ∈ es, e.internal) : es.length ≤ p.remaining := by
  induction es generalizing p with
  | nil => exact Nat.zero_le _
  | cons e es ih =>
    obtain ⟨he, hes⟩ := hes
    obtain ⟨hfirst, hrest⟩ := List.forall_mem_cons.mp hinternal
    have hlt := remaining_lt he hfirst
    have hle := ih hes hrest
    rw [List.length_cons]
    omega

/-- No worker and no notification can take a step. -/
def AtRest (p : ThreadPool τ n) : Prop := ∀ e : PoolEvent τ n, e.internal → ¬ p.Enabled e

theorem AtRest.of_quiet (hnotify : p.toNotify = 0) (hall : p.toNotifyAll = false)
    (hworkers : ∀ i, p.workers i = .waiting ∨ p.workers i = .exited) : p.AtRest := by
  intro e hinternal he
  cases e with
  | enqueue | destroy | wake => cases hinternal
  | notifyOne woken =>
    cases woken with
    | none => exact absurd he.1 (by omega)
    | some i => exact absurd he.1 (by omega)
  | notifyAll =>
    have hpending : p.toNotifyAll = true := he
    rw [hall] at hpending
    cases hpending
  | lock i =>
    have hready : p.workers i = .ready := he
    rcases hworkers i with hw | hw <;> rw [hw] at hready <;> cases hready
  | finish i =>
    have hrunning : IsRunning (p.workers i) := he
    rcases hworkers i with hw | hw <;> rw [hw] at hrunning <;> exact hrunning.elim

theorem AtRest.toNotify_eq (hrest : p.AtRest) : p.toNotify = 0 := by
  by_contra hpos
  by_cases hwaiting : ∃ i, p.workers i = .waiting
  · obtain ⟨i, hi⟩ := hwaiting
    exact hrest (.notifyOne (some i)) rfl ⟨Nat.pos_of_ne_zero hpos, hi⟩
  · push Not at hwaiting
    exact hrest (.notifyOne none) rfl ⟨Nat.pos_of_ne_zero hpos, hwaiting⟩

theorem AtRest.worker (hrest : p.AtRest) (i : Fin n) : p.workers i = .waiting ∨ p.workers i = .exited := by
  cases hw : p.workers i with
  | ready => exact absurd hw (hrest (.lock i) rfl)
  | running task =>
    have hrunning : p.Enabled (.finish i) := by
      change IsRunning (p.workers i)
      rw [hw]
      trivial
    exact absurd hrunning (hrest (.finish i) rfl)
  | waiting => exact .inl rfl
  | exited => exact .inr rfl

theorem AtRest.sums (hrest : p.AtRest) : p.held = 0 ∧ p.awake = 0 := by
  constructor
  all_goals
    refine Finset.sum_eq_zero fun i _ => ?_
    rcases hrest.worker i with hw | hw <;> rw [hw] <;> rfl

/-- At rest nothing is left to do, unless the destructor threw it away. -/
theorem Sound.atRest (h : p.Sound) (hrest : p.AtRest) (hn : 0 < n) :
    p.tasks = [] ∧ (p.done : Multiset τ) = p.started ∧ p.enqueued = p.started ++ p.dropped ∧
      (p.stop = true → ∀ i, p.workers i = .exited) := by
  obtain ⟨hheld, hawake⟩ := hrest.sums
  have htasks : p.tasks = [] := by
    rcases hrest.worker ⟨0, hn⟩ with hw | hw
    · have hattended := h.attended _ hw
      rw [hrest.toNotify_eq, hawake] at hattended
      exact List.length_eq_zero_iff.mp (Nat.le_zero.mp hattended)
    · exact h.cleared (h.exited _ hw)
  refine ⟨htasks, ?_, ?_, ?_⟩
  · rw [h.once, hheld, add_zero]
  · rw [h.fifo, htasks, List.append_nil]
  · intro hstop i
    have hall : p.toNotifyAll = false := by
      cases hall : p.toNotifyAll with
      | false => rfl
      | true => exact absurd hall (hrest .notifyAll rfl)
    exact (hrest.worker i).resolve_left (h.roused hstop hall i)

end ThreadPool

/-- In every order of steps the tasks start in the order they were enqueued, none of them twice: those started are
    the ones finished and the ones running. While a worker sleeps, every waiting task has a notification or an awake
    worker coming, so no wake-up is lost. -/
theorem threadPool_order {τ : Type} {n : ℕ} (events : List (PoolEvent τ n))
    (hevents : LegalRun ThreadPool.step ThreadPool.Enabled {} events) :
    let p := events.foldl ThreadPool.step {}
    p.enqueued = p.started ++ (p.dropped ++ p.tasks) ∧ (p.started : Multiset τ) = p.done + p.held ∧
      (p.stop = false → p.dropped = []) ∧
      ∀ i, p.workers i = .waiting → p.tasks.length ≤ p.toNotify + p.awake := by
  intro p
  have h : p.Sound := inv_foldl ThreadPool.step ThreadPool.Sound (fun _ _ hp he => hp.step he)
    ThreadPool.init_sound hevents
  exact ⟨h.fifo, h.once, h.kept, h.attended⟩

/-- One worker waits before the first task comes, the other looks at the queue later. -/
def twoWorkers : List (PoolEvent ℕ 2) :=
  [.lock 0, .enqueue 5, .enqueue 6, .notifyOne (some 0), .lock 1, .lock 0]

def theirRest : List (PoolEvent ℕ 2) := [.finish 0, .lock 0, .notifyOne (some 0), .finish 1, .lock 1, .lock 0]

theorem threadPool_order_two :
    let p := twoWorkers.foldl ThreadPool.step {}
    p.started = [5, 6] ∧ p.done = [] ∧ (p.started : Multiset ℕ) = p.done + p.held :=
  ⟨by decide, by decide, (threadPool_order twoWorkers (by decide)).2.1⟩

/-- From every state that can be reached the steps of the workers and the notifications come to an end. Then every
    task that was enqueued has run, those the destructor dropped apart, and a destroyed pool has no worker left to
    join. -/
theorem threadPool_completes {τ : Type} {n : ℕ} (hn : 0 < n) (events more : List (PoolEvent τ n))
    (hevents : LegalRun ThreadPool.step ThreadPool.Enabled {} (events ++ more)) (hmore : ∀ e ∈ more, e.internal) :
    let p := events.foldl ThreadPool.step {}
    let q := more.foldl ThreadPool.step p
    more.length ≤ p.remaining ∧ (q.AtRest →
      q.done.Perm q.started ∧ q.enqueued = q.started ++ q.dropped ∧ (q.stop = false → q.done.Perm q.enqueued) ∧
        (q.stop = true → ∀ i, q.workers i = .exited)) := by
  intro p q
  obtain ⟨hstart, hrest⟩ := (legalRun_append ThreadPool.step).mp hevents
  have hkeep (a b : ThreadPool τ n) (es : List (PoolEvent τ n)) (ha : a.Sound)
      (hes : LegalRun ThreadPool.step ThreadPool.Enabled a es) : (es.foldl ThreadPool.step a).Sound :=
    inv_foldl ThreadPool.step ThreadPool.Sound (fun _ _ hp he => hp.step he) ha hes
  have hp : p.Sound := hkeep _ p events ThreadPool.init_sound hstart
  have hq : q.Sound := hkeep p q more hp hrest
  refine ⟨ThreadPool.length_le_remaining hrest hmore, fun hquiet => ?_⟩
  obtain ⟨-, hdone, henqueued, hexited⟩ := hq.atRest hquiet hn
  refine ⟨Multiset.coe_eq_coe.mp hdone, henqueued, fun hstop => ?_, hexited⟩
  rw [henqueued, hq.kept hstop, List.append_nil]
  exact Multiset.coe_eq_coe.mp hdone

theorem threadPool_completes_two :
    let q := theirRest.foldl ThreadPool.step (twoWorkers.foldl ThreadPool.step {})
    q.done = [6, 5] ∧ q.done.Perm q.enqueued := by
  have hrest : (theirRest.foldl ThreadPool.step (twoWorkers.foldl ThreadPool.step {})).AtRest :=
    .of_quiet (by decide) (by decide) (by decide)
  obtain ⟨-, hall⟩ := threadPool_completes (by decide) twoWorkers theirRest (by decide) (by decide)
  exact ⟨by decide, (hall hrest).2.2.1 (by decide)⟩

end SpVision
