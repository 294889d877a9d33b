import Mathlib.Data.List.AList
import SpVision.Library.InOrder

set_option autoImplicit false

/-!
# The ordered queue of the thread pool

The inference threads put frames into it in any order. Each operation holds the mutex.
-/
namespace SpVision

/-- `tools::Frame`; `content` is all but its number. -/
structure NumberedFrame (α : Type) where
  id : ℤ
  content : α
  deriving DecidableEq, Repr

structure OrderedQueue (α : Type) where
  mainQueue : List (NumberedFrame α) := []
  buffer : AList fun _ : ℤ => NumberedFrame α := ∅
  currentId : ℤ := 1

namespace OrderedQueue

variable {α : Type}

/-- The loop of `enqueue` over the frames that wait in the buffer. -/
def drain (q : OrderedQueue α) : OrderedQueue α :=
  match _ : q.buffer.lookup q.currentId with
  | none => q
  | some item => drain
    { mainQueue := q.mainQueue ++ [item], buffer := q.buffer.erase q.currentId, currentId := q.currentId + 1 }
termination_by q.buffer.keys.length
decreasing_by
  rename_i hnext
  have hmem : q.currentId ∈ q.buffer.keys := AList.mem_keys.mp (AList.lookup_isSome.mp (by rw [hnext]; rfl))
  rw [AList.keys_erase, List.length_erase_of_mem hmem]
  exact Nat.sub_lt (List.length_pos_of_mem hmem) Nat.one_pos

def enqueue (q : OrderedQueue α) (item : NumberedFrame α) : OrderedQueue α :=
  if item.id < q.currentId then q
  else if item.id = q.currentId then
    drain { q with mainQueue := q.mainQueue ++ [item], currentId := q.currentId + 1 }
  else { q with buffer := q.buffer.insert item.id item }

/-- `try_dequeue`, and `dequeue` where it does not wait. -/
def tryDequeue (q : OrderedQueue α) : Option (NumberedFrame α × OrderedQueue α) :=
  match q.mainQueue with
  | [] => none
  | item :: rest => some (item, { q with mainQueue := rest })

end OrderedQueue

/-- `wake` is a wake-up of a thread that waits in `dequeue`, for whatever reason. -/
inductive QueueEvent (α : Type)
  | enqueue (item : NumberedFrame α)
  | dequeue
  | tryDequeue
  | wake
  deriving DecidableEq, Repr

def QueueEvent.item? {α : Type} : QueueEvent α → Option (NumberedFrame α)
  | .enqueue item => some item
  | .dequeue => none
  | .tryDequeue => none
  | .wake => none

/-- The queue with the number of threads that wait in `dequeue` and the frames taken out so far. -/
structure QueueTrace (α : Type) where
  queue : OrderedQueue α := {}
  waiting : ℕ := 0
  taken : List (NumberedFrame α) := []

namespace QueueTrace

variable {α : Type}

/-- The first frame is taken out, if there is one; otherwise `waiting` threads wait. -/
def take (tr : QueueTrace α) (waiting : ℕ) : QueueTrace α :=
  match tr.queue.tryDequeue with
  | none => { tr with waiting }
  | some (item, queue) => { tr with queue, taken := tr.taken ++ [item] }

def step (tr : QueueTrace α) : QueueEvent α → QueueTrace α
  | .enqueue item => { tr with queue := tr.queue.enqueue item }
  | .dequeue => tr.take (tr.waiting + 1)
  | .tryDequeue => tr.take tr.waiting
  | .wake => if tr.waiting = 0 then tr else { tr with waiting := tr.waiting - 1 }.take tr.waiting

def run (events : List (QueueEvent α)) : QueueTrace α := events.foldl step {}

/-- The frames that have become available, those taken out first. -/
def released (tr : QueueTrace α) : List (NumberedFrame α) := tr.taken ++ tr.queue.mainQueue

end QueueTrace

/-! ### What the queue keeps -/

namespace OrderedQueue

variable {α : Type} {received taken : List (NumberedFrame α)} {q : OrderedQueue α}

/-- The queue after the frames of `received` were put in and those of `taken` came out, possibly with the next
    frame still in the buffer. -/
structure Feeding (received taken : List (NumberedFrame α)) (q : OrderedQueue α) : Prop where
  ids : ∃ k : ℕ, (taken ++ q.mainQueue).map NumberedFrame.id = idsUpTo k ∧ q.currentId = k + 1
  source : ∀ item ∈ taken ++ q.mainQueue, item ∈ received
  buffered : ∀ id item, q.buffer.lookup id = some item → item.id = id ∧ item ∈ received ∧ q.currentId ≤ id
  pending : ∀ item ∈ received, q.currentId ≤ item.id → item.id ∈ q.buffer

/-- The next frame has not been put in. -/
structure Settled (received taken : List (NumberedFrame α)) (q : OrderedQueue α) : Prop
    extends Feeding received taken q where
  next : q.currentId ∉ q.buffer

/-- The next frame moves to the main queue, perhaps as it is put in. -/
theorem Feeding.push (h : Feeding received taken q) {received' : List (NumberedFrame α)}
    (hgrow : received ⊆ received') (hnew : ∀ item ∈ received', item ∈ received ∨ item.id ≤ q.currentId)
    {item : NumberedFrame α} (hid : item.id = q.currentId) (hitem : item ∈ received')
    {buffer : AList fun _ : ℤ => NumberedFrame α}
    (hlookup : ∀ id ≠ q.currentId, buffer.lookup id = q.buffer.lookup id) (hgone : q.currentId ∉ buffer) :
    Feeding received' taken { mainQueue := q.mainQueue ++ [item], buffer, currentId := q.currentId + 1 } where
  ids := by
    obtain ⟨k, hids, hcurrent⟩ := h.ids
    refine ⟨k + 1, ?_, by rw [hcurrent]; rfl⟩
    rw [← List.append_assoc, List.map_append, hids, idsUpTo_succ, List.map_singleton, hid, hcurrent]
  source other hother := by
    rw [← List.append_assoc, List.mem_append, List.mem_singleton] at hother
    rcases hother with hold | rfl
    · exact hgrow (h.source other hold)
    · exact hitem
  buffered id other hother := by
    have hne : id ≠ q.currentId := by
      rintro rfl
      rw [AList.lookup_eq_none.mpr hgone] at hother
      exact absurd hother nofun
    obtain ⟨hsame, hin, hle⟩ := h.buffered id other (hlookup id hne ▸ hother)
    exact ⟨hsame, hgrow hin, Int.add_one_le_iff.mpr (lt_of_le_of_ne hle hne.symm)⟩
  pending other hother hle := by
    have hlt : q.currentId < other.id := Int.add_one_le_iff.mp hle
    have hmem := h.pending other ((hnew other hother).resolve_right (not_le.mpr hlt)) hlt.le
    rw [← AList.lookup_isSome] at hmem ⊢
    rwa [hlookup other.id hlt.ne']

theorem Feeding.drain (h : Feeding received taken q) : Settled received taken q.drain := by
  fun_induction OrderedQueue.drain q with
  | case1 q hnext => exact ⟨h, AList.lookup_eq_none.mp hnext⟩
  | case2 q item hnext ih =>
    obtain ⟨hid, hitem, -⟩ := h.buffered q.currentId item hnext
    refine ih (h.push (List.Subset.refl _) (fun _ => .inl) hid hitem (fun id hne => AList.lookup_erase_ne hne) ?_)
    exact fun hmem => (AList.mem_erase.mp hmem).1 rfl

theorem Settled.enqueue (h : Settled received taken q) (item : NumberedFrame α) :
    Settled (received ++ [item]) taken (q.enqueue item) := by
  have hgrow : received ⊆ received ++ [item] := List.subset_append_left ..
  have hlast : item ∈ received ++ [item] := List.mem_append_right _ (List.mem_singleton_self item)
  have hnew : ∀ other ∈ received ++ [item], other ∈ received ∨ other = item := by
    intro other hother
    rwa [List.mem_append, List.mem_singleton] at hother
  unfold OrderedQueue.enqueue
  split_ifs with hsmall hcurrent
  · refine ⟨⟨h.ids, fun other hother => hgrow (h.source other hother), ?_, ?_⟩, h.next⟩
    · intro id other hother
      obtain ⟨hsame, hin, hle⟩ := h.buffered id other hother
      exact ⟨hsame, hgrow hin, hle⟩
    · intro other hother hle
      rcases hnew other hother with hold | rfl
      · exact h.pending other hold hle
      · exact absurd hsmall (not_lt.mpr hle)
  · refine (h.push hgrow (fun other hother => ?_) hcurrent hlast (fun _ _ => rfl) h.next).drain
    exact (hnew other hother).imp_right fun heq => (heq ▸ hcurrent).le
  · have hlater : q.currentId < item.id := lt_of_le_of_ne (not_lt.mp hsmall) (Ne.symm hcurrent)
    refine ⟨⟨h.ids, fun other hother => hgrow (h.source other hother), ?_, ?_⟩, ?_⟩
    · intro id other hother
      by_cases hid : id = item.id
      · rw [hid, AList.lookup_insert] at hother
        obtain rfl := Option.some.inj hother
        exact ⟨hid.symm, hlast, hid ▸ hlater.le⟩
      · rw [AList.lookup_insert_ne hid] at hother
        obtain ⟨hsame, hin, hle⟩ := h.buffered id other hother
        exact ⟨hsame, hgrow hin, hle⟩
    · intro other hother hle
      rw [AList.mem_insert]
      rcases hnew other hother with hold | rfl
      · exact .inr (h.pending other hold hle)
      · exact .inl rfl
    · rw [AList.mem_insert]
      rintro (heq | hmem)
      · exact hlater.ne heq
      · exact h.next hmem

theorem Settled.tryDequeue (h : Settled received taken q) {item : NumberedFrame α} {q' : OrderedQueue α}
    (htake : q.tryDequeue = some (item, q')) : Settled received (taken ++ [item]) q' := by
  obtain ⟨mainQueue, buffer, currentId⟩ := q
  cases mainQueue with
  | nil => exact absurd htake nofun
  | cons first rest =>
    obtain ⟨rfl, rfl⟩ := Prod.mk.inj (Option.some.inj htake)
    have hsame : taken ++ [first] ++ rest = taken ++ first :: rest := List.append_cons .. |>.symm
    refine ⟨⟨?_, ?_, h.buffered, h.pending⟩, h.next⟩
    · rw [hsame]
      exact h.ids
    · rw [hsame]
      exact h.source

end OrderedQueue

namespace QueueTrace
open OrderedQueue

variable {α : Type} {received : List (NumberedFrame α)} {tr : QueueTrace α}

theorem settled_take (h : Settled received tr.taken tr.queue) (waiting : ℕ) :
    Settled received (tr.take waiting).taken (tr.take waiting).queue := by
  unfold take
  cases htake : tr.queue.tryDequeue with
  | none => exact h
  | some result => exact h.tryDequeue htake

theorem settled_step (h : Settled received tr.taken tr.queue) (event : QueueEvent α) :
    Settled (received ++ event.item?.toList) (tr.step event).taken (tr.step event).queue := by
  cases event with
  | enqueue item => exact h.enqueue item
  | dequeue =>
    rw [QueueEvent.item?, Option.toList_none, List.append_nil]
    exact settled_take h _
  | tryDequeue =>
    rw [QueueEvent.item?, Option.toList_none, List.append_nil]
    exact settled_take h _
  | wake =>
    rw [QueueEvent.item?, Option.toList_none, List.append_nil, step]
    split_ifs
    · exact h
    · have hwoken : Settled received ({ tr with waiting := tr.waiting - 1 } : QueueTrace α).taken tr.queue := h
      exact settled_take hwoken _

theorem run_append (pre rest : List (QueueEvent α)) : run (pre ++ rest) = rest.foldl step (run pre) :=
  List.foldl_append

theorem settled_run (events : List (QueueEvent α)) :
    Settled (events.filterMap QueueEvent.item?) (run events).taken (run events).queue := by
  induction events using List.reverseRecOn with
  | nil => exact ⟨⟨⟨0, rfl, rfl⟩, nofun, nofun, nofun⟩, AList.notMem_empty 1⟩
  | append_singleton pre event ih =>
    have hitems : (pre ++ [event]).filterMap QueueEvent.item? =
        pre.filterMap QueueEvent.item? ++ event.item?.toList := by
      rw [List.filterMap_append]
      cases event <;> rfl
    rw [hitems, run_append]
    exact settled_step ih event

theorem taken_tryDequeues (tr : QueueTrace α) (n : ℕ) :
    ((List.replicate n .tryDequeue).foldl step tr).taken = tr.taken ++ tr.queue.mainQueue.take n := by
  induction n generalizing tr with
  | zero => exact (List.append_nil _).symm
  | succ n ih =>
    rw [List.replicate_succ, List.foldl_cons, ih]
    obtain ⟨⟨mainQueue, buffer, currentId⟩, waiting, taken⟩ := tr
    cases mainQueue with
    | nil =>
      change taken ++ List.take n [] = taken ++ List.take (n + 1) []
      rw [List.take_nil, List.take_nil]
    | cons first rest => exact List.append_assoc taken [first] _

end QueueTrace

/-- Whatever frames are put in, in any order and with any repetitions, and however they are taken out in between:
    those that are available or taken are the frames put in with the numbers 1, 2, … up to the first number that
    is missing, the taken ones first, and once `1, …, n` are there they can all be taken. -/
theorem ordered_queue_in_order {α : Type} (events : List (QueueEvent α)) :
    (QueueTrace.run events).taken.map NumberedFrame.id = idsUpTo (QueueTrace.run events).taken.length ∧
    (∀ item ∈ (QueueTrace.run events).released, item ∈ events.filterMap QueueEvent.item?) ∧
    (∃ k, (QueueTrace.run events).released.map NumberedFrame.id = idsUpTo k ∧
      LongestPrefix ((events.filterMap QueueEvent.item?).map NumberedFrame.id) k) ∧
    ∀ n, (∀ id ∈ idsUpTo n, id ∈ (events.filterMap QueueEvent.item?).map NumberedFrame.id) →
      (QueueTrace.run events).taken.length ≤ n →
        (QueueTrace.run (events ++ List.replicate (n - (QueueTrace.run events).taken.length) .tryDequeue)).taken.map
          NumberedFrame.id = idsUpTo n := by
  have hsettled := QueueTrace.settled_run events
  obtain ⟨k, hids, hcurrent⟩ := hsettled.ids
  have hprefix : LongestPrefix ((events.filterMap QueueEvent.item?).map NumberedFrame.id) k := by
    constructor
    · intro id hid
      rw [← hids] at hid
      obtain ⟨item, hitem, rfl⟩ := List.mem_map.mp hid
      exact List.mem_map_of_mem (hsettled.source item hitem)
    · intro hmem
      obtain ⟨item, hitem, hid⟩ := List.mem_map.mp hmem
      have hnext := hsettled.pending item hitem (by omega)
      rw [hid, ← hcurrent] at hnext
      exact hsettled.next hnext
  refine ⟨?_, hsettled.source, ⟨k, hids, hprefix⟩, fun n hall hlen => ?_⟩
  · rw [List.map_append] at hids
    have htaken := eq_idsUpTo_of_append hids
    rwa [List.length_map] at htaken
  · have hnk : n ≤ k := hprefix.le hall
    have htaken := QueueTrace.taken_tryDequeues (QueueTrace.run events) (n - (QueueTrace.run events).taken.length)
    rw [QueueTrace.run_append, htaken]
    calc
      _ = (((QueueTrace.run events).taken ++ (QueueTrace.run events).queue.mainQueue).take n).map NumberedFrame.id := by
        rw [List.take_append, List.take_of_length_le hlen]
      _ = idsUpTo n := by rw [List.map_take, hids, take_idsUpTo, min_eq_left hnk]

/-- Frames 3, 1, 1 and 2 with a consumer that comes too early. -/
def lateFirst : List (QueueEvent Unit) :=
  [.dequeue, .enqueue ⟨3, ()⟩, .enqueue ⟨1, ()⟩, .wake, .enqueue ⟨1, ()⟩, .enqueue ⟨2, ()⟩]

/-- The consumer gets frame 1, and two further calls get the others. -/
theorem late_first_in_order :
    (QueueTrace.run (lateFirst ++ List.replicate 2 .tryDequeue)).taken.map NumberedFrame.id = [1, 2, 3] := by
  have htaken : (QueueTrace.run lateFirst).taken.length = 1 := by decide +kernel
  have hall := (ordered_queue_in_order lateFirst).2.2.2 3 (by decide +kernel)
  rw [htaken] at hall
  exact hall (by decide)

end SpVision
