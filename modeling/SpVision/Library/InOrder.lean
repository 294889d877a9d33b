import Mathlib.Data.List.Range
import Mathlib.Algebra.Order.Group.Int
import Mathlib.Data.Int.Order.Basic

set_option autoImplicit false

/-!
# Release in order

Numbers arrive in any order and are released as far as they follow one another from 1.
-/
namespace SpVision

/-- `1, …, k` -/
def idsUpTo (k : ℕ) : List ℤ := (List.range k).map fun i : ℕ => (i : ℤ) + 1

theorem idsUpTo_length (k : ℕ) : (idsUpTo k).length = k := by
  rw [idsUpTo, List.length_map, List.length_range]

theorem idsUpTo_succ (k : ℕ) : idsUpTo (k + 1) = idsUpTo k ++ [(k : ℤ) + 1] := by
  rw [idsUpTo, List.range_succ, List.map_append]
  rfl

theorem mem_idsUpTo {k : ℕ} {id : ℤ} : id ∈ idsUpTo k ↔ 1 ≤ id ∧ id ≤ k := by
  rw [idsUpTo, List.mem_map]
  constructor
  · rintro ⟨i, hi, rfl⟩
    have hlt := List.mem_range.mp hi
    omega
  · rintro ⟨hlow, hhigh⟩
    exact ⟨(id - 1).toNat, List.mem_range.mpr (by omega), by omega⟩

theorem take_idsUpTo (n k : ℕ) : (idsUpTo k).take n = idsUpTo (min n k) := by
  rw [idsUpTo, ← List.map_take, List.take_range]
  rfl

/-- What was released first is what the first numbers are. -/
theorem eq_idsUpTo_of_append {released waiting : List ℤ} {k : ℕ} (h : released ++ waiting = idsUpTo k) :
    released = idsUpTo released.length := by
  have hlen : released.length ≤ k := by
    rw [← idsUpTo_length k, ← h, List.length_append]
    exact Nat.le_add_right ..
  calc
    released = (released ++ waiting).take released.length := List.take_left.symm
    _ = idsUpTo released.length := by rw [h, take_idsUpTo, min_eq_left hlen]

/-- All of `1, …, k` have arrived, and `k + 1` has not. -/
structure LongestPrefix (ids : List ℤ) (k : ℕ) : Prop where
  mem : ∀ id ∈ idsUpTo k, id ∈ ids
  next : (k : ℤ) + 1 ∉ ids

theorem LongestPrefix.le {ids : List ℤ} {k n : ℕ} (h : LongestPrefix ids k) (hall : ∀ id ∈ idsUpTo n, id ∈ ids) :
    n ≤ k := by
  by_contra hlt
  exact h.next (hall _ (mem_idsUpTo.mpr ⟨by omega, by omega⟩))

end SpVision
