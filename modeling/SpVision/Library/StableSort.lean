import Mathlib.Data.List.MinMax
import Mathlib.Data.List.Sort

set_option autoImplicit false

/-!
# Stable sorting by a key

What a stable sort does to the head of a list and to a part of it.
-/
namespace SpVision

variable {α κ : Type} [LinearOrder κ] (key : α → κ)

/-- A stable sort brings the first element with the least key to the front. -/
theorem head?_insertionSort (l : List α) : (l.insertionSort fun a b => key a ≤ key b).head? = l.argmin key := by
  induction l with
  | nil => rfl
  | cons a l ih =>
    rw [List.insertionSort_cons, List.argmin_cons, ← ih]
    cases l.insertionSort fun a b => key a ≤ key b with
    | nil => rfl
    | cons b sorted =>
      rw [List.orderedInsert_cons, List.head?_cons]
      dsimp only
      by_cases hle : key a ≤ key b
      · rw [if_pos hle, if_neg (not_lt.mpr hle)]
        rfl
      · rw [if_neg hle, if_pos (not_le.mp hle)]
        rfl

theorem pairwise_insertionSort_key (l : List α) :
    (l.insertionSort fun a b => key a ≤ key b).Pairwise fun a b => key a ≤ key b := by
  have htotal : Std.Total fun a b : α => key a ≤ key b := ⟨fun a b => le_total (key a) (key b)⟩
  have htrans : IsTrans α fun a b => key a ≤ key b := ⟨fun _ _ _ => le_trans⟩
  exact List.pairwise_insertionSort _ l

theorem orderedInsert_of_forall (a : α) (l : List α) (h : ∀ b ∈ l, key a ≤ key b) :
    l.orderedInsert (fun a b => key a ≤ key b) a = a :: l := by
  cases l with
  | nil => rfl
  | cons b l => rw [List.orderedInsert_cons, if_pos (h b List.mem_cons_self)]

theorem filter_orderedInsert (p : α → Bool) (a : α) (sorted : List α)
    (hsorted : sorted.Pairwise fun a b => key a ≤ key b) :
    (sorted.orderedInsert (fun a b => key a ≤ key b) a).filter p =
      if p a then (sorted.filter p).orderedInsert (fun a b => key a ≤ key b) a else sorted.filter p := by
  induction sorted with
  | nil => by_cases ha : p a <;> simp [ha]
  | cons b sorted ih =>
    obtain ⟨hb, hrest⟩ := List.pairwise_cons.mp hsorted
    rw [List.orderedInsert_cons]
    by_cases hab : key a ≤ key b
    · rw [if_pos hab, List.filter_cons]
      by_cases ha : p a
      · rw [if_pos ha, if_pos ha, orderedInsert_of_forall]
        intro c hc
        rcases List.mem_cons.mp (List.mem_filter.mp hc).1 with rfl | hc
        · exact hab
        · exact hab.trans (hb c hc)
      · rw [if_neg ha, if_neg ha]
    · rw [if_neg hab, List.filter_cons, ih hrest, List.filter_cons]
      by_cases ha : p a <;> by_cases hpb : p b <;> simp [ha, hpb, hab]

/-- Stable sorting of a part is the part of the sorted list. -/
theorem filter_insertionSort (p : α → Bool) (l : List α) :
    (l.insertionSort fun a b => key a ≤ key b).filter p = (l.filter p).insertionSort fun a b => key a ≤ key b := by
  induction l with
  | nil => rfl
  | cons a l ih =>
    rw [List.insertionSort_cons, filter_orderedInsert key p a _ (pairwise_insertionSort_key key l), ih,
      List.filter_cons]
    split_ifs
    · rw [List.insertionSort_cons]
    · rfl

end SpVision
