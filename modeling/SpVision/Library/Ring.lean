import Mathlib.Algebra.GroupWithZero.Nat
import Mathlib.Data.List.DropRight
import Mathlib.Data.Fin.Basic
import Mathlib.Data.List.FinRange
import Mathlib.Data.Nat.ModEq
import Mathlib.Logic.Function.Basic

set_option autoImplicit false

/-!
# A ring of slots

A history of the last `n` items in which a new item overwrites the oldest. It is searched in
the order of the slots, and slots that were never written hold a default.
-/
namespace SpVision

/-- The last `n` items are those whose places are `n` or fewer before the end. -/
theorem mem_rtake_iff {α : Type} {l : List α} {n : ℕ} {a : α} :
    a ∈ l.rtake n ↔ ∃ k, l.length ≤ k + n ∧ l[k]? = some a := by
  rw [List.rtake, List.mem_iff_getElem?]
  constructor
  · rintro ⟨j, hj⟩
    rw [List.getElem?_drop] at hj
    exact ⟨l.length - n + j, by omega, hj⟩
  · rintro ⟨k, hrecent, hk⟩
    refine ⟨k - (l.length - n), ?_⟩
    rw [List.getElem?_drop, ← hk]
    congr 1
    omega

structure SlotRing (α : Type) (n : ℕ) where
  slots : Fin n → α
  pos : Fin n

namespace SlotRing

variable {α : Type} {n : ℕ} [NeZero n]

def init (n : ℕ) [NeZero n] (default : α) : SlotRing α n := ⟨fun _ => default, 0⟩

def put (r : SlotRing α n) (item : α) : SlotRing α n := ⟨Function.update r.slots r.pos item, r.pos + 1⟩

/-- The first slot that satisfies `p`. -/
def find? (r : SlotRing α n) (p : α → Bool) : Option α := ((List.finRange n).map r.slots).find? p

/-- The ring after the items of a list were put, the last one most recently. -/
structure Holds (r : SlotRing α n) (default : α) (items : List α) : Prop where
  pos : r.pos.val = items.length % n
  slot : ∀ i : Fin n, (items.length ≤ i.val ∧ r.slots i = default) ∨
    ∃ j, j % n = i.val ∧ items.length ≤ j + n ∧ items[j]? = some (r.slots i)

theorem holds_init (default : α) : (init n default).Holds default [] where
  pos := by simp [init]
  slot _ := .inl ⟨Nat.zero_le _, rfl⟩

theorem Holds.put {r : SlotRing α n} {default : α} {items : List α} (h : r.Holds default items) (item : α) :
    (r.put item).Holds default (items ++ [item]) where
  pos := by
    rw [SlotRing.put, Fin.val_add, h.pos, Fin.val_one', List.length_append, List.length_singleton]
    exact (Nat.add_mod _ _ _).symm
  slot i := by
    have hn : 0 < n := Nat.pos_of_ne_zero (NeZero.ne n)
    have hlen : (items ++ [item]).length = items.length + 1 := List.length_append
    by_cases hi : i = r.pos
    · right
      refine ⟨items.length, ?_, by omega, ?_⟩
      · rw [hi, h.pos]
      · have hwritten : (r.put item).slots r.pos = item := Function.update_self _ _ _
        rw [hi, hwritten, List.getElem?_concat_length]
    · have hslot : (r.put item).slots i = r.slots i := Function.update_of_ne hi _ _
      have hne : items.length % n ≠ i.val := fun heq => hi (Fin.ext (by rw [h.pos, heq]))
      rw [hslot, hlen]
      rcases h.slot i with ⟨hunwritten, hdefault⟩ | ⟨j, hj, hrecent, hitem⟩
      · left
        refine ⟨?_, hdefault⟩
        rcases Nat.lt_or_eq_of_le hunwritten with hlt | heq
        · exact hlt
        · exact absurd (by rw [heq, Nat.mod_eq_of_lt i.isLt]) hne
      · right
        have hjlt : j < items.length := (List.getElem?_eq_some_iff.mp hitem).1
        refine ⟨j, hj, ?_, by rw [List.getElem?_append_left hjlt, hitem]⟩
        -- the slot that would fall out of the window is the one written now
        rcases Nat.lt_or_eq_of_le hrecent with hlt | heq
        · omega
        · exact absurd (by rw [heq, Nat.add_mod_right, hj]) hne

/-- What a search finds is one of the last `n` items, or the default of a slot that was never written while
    no item at all satisfies the predicate. -/
theorem Holds.find? {r : SlotRing α n} {default : α} {items : List α} (h : r.Holds default items)
    {p : α → Bool} {item : α} (hfind : r.find? p = some item) :
    p item ∧ (item ∈ items.rtake n ∨ item = default ∧ ∀ x ∈ items, ¬ p x) := by
  have hn : 0 < n := Nat.pos_of_ne_zero (NeZero.ne n)
  obtain ⟨hp, i, hi, hitem, hbefore⟩ := List.find?_eq_some_iff_getElem.mp hfind
  simp only [List.length_map, List.length_finRange] at hi
  simp only [List.getElem_map, List.getElem_finRange, Fin.cast_mk] at hitem hbefore
  refine ⟨hp, ?_⟩
  rcases h.slot ⟨i, hi⟩ with ⟨hunwritten, hdefault⟩ | ⟨j, hj, hrecent, hget⟩
  · right
    refine ⟨hitem.symm.trans hdefault, fun x hx => ?_⟩
    obtain ⟨k, hk, rfl⟩ := List.mem_iff_getElem.mp hx
    have hki : k < i := hk.trans_le hunwritten
    have hkn : k < n := hki.trans hi
    -- fewer than `n` items were put, so the item is still in the slot it was written to
    rcases h.slot ⟨k, hkn⟩ with ⟨hnone, -⟩ | ⟨j, hj, -, hget⟩
    · exact absurd hk (Nat.not_lt.mpr hnone)
    · have hjlt : j < items.length := (List.getElem?_eq_some_iff.mp hget).1
      have hjk : j = k := by
        have hjn : j < n := (hjlt.trans_le hunwritten).trans hi
        rwa [Nat.mod_eq_of_lt hjn] at hj
      subst hjk
      rw [List.getElem?_eq_getElem hk, Option.some.injEq] at hget
      rw [hget]
      simpa using hbefore j hki
  · left
    exact mem_rtake_iff.mpr ⟨j, hrecent, hitem ▸ hget⟩

/-- Each of the last `n` items is in a slot. -/
theorem Holds.exists_slot {r : SlotRing α n} {default : α} {items : List α} (h : r.Holds default items) {item : α}
    (hmem : item ∈ items.rtake n) : ∃ i, r.slots i = item := by
  have hn : 0 < n := Nat.pos_of_ne_zero (NeZero.ne n)
  obtain ⟨j, hlast, hj⟩ := mem_rtake_iff.mp hmem
  have hjlt : j < items.length := (List.getElem?_eq_some_iff.mp hj).1
  refine ⟨⟨j % n, Nat.mod_lt _ hn⟩, ?_⟩
  rcases h.slot ⟨j % n, Nat.mod_lt _ hn⟩ with ⟨hunwritten, -⟩ | ⟨j', hj', hrecent, hitem⟩
  · exact absurd (hunwritten.trans (Nat.mod_le j n)) (Nat.not_le.mpr hjlt)
  · have hjlt' : j' < items.length := (List.getElem?_eq_some_iff.mp hitem).1
    have heq : j' = j := Nat.ModEq.eq_of_abs_lt hj' (by rw [abs_lt]; omega)
    rw [heq, hj, Option.some.injEq] at hitem
    exact hitem.symm

/-- A search finds the item it is meant for if that is the only one of the last `n` that satisfies `p`. -/
theorem Holds.find?_eq_some {r : SlotRing α n} {default : α} {items : List α} (h : r.Holds default items)
    {p : α → Bool} {item : α} (hmem : item ∈ items.rtake n) (hp : p item)
    (hunique : ∀ x ∈ items.rtake n, p x → x = item) : r.find? p = some item := by
  cases hfind : r.find? p with
  | none =>
    obtain ⟨i, hi⟩ := h.exists_slot hmem
    have hslot := List.find?_eq_none.mp hfind (r.slots i) (List.mem_map_of_mem (List.mem_finRange i))
    rw [hi] at hslot
    exact absurd hp hslot
  | some found =>
    obtain ⟨hfound, hrecent | ⟨-, hnone⟩⟩ := h.find? hfind
    · rw [hunique found hrecent hfound]
    · exact absurd hp (hnone item (List.mem_of_mem_drop hmem))

end SlotRing

end SpVision
