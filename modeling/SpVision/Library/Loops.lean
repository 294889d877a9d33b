import Mathlib.Data.List.FinRange
import Mathlib.Order.Basic

set_option autoImplicit false

/-!
# Loops over indices
-/
namespace SpVision

/-- What each turn of an ascending loop carries on holds at its end. -/
theorem foldl_finRange {σ : Type} {n : ℕ} (step : σ → Fin n → σ) (inv : ℕ → σ → Prop) {s : σ} (hs : inv 0 s)
    (hstep : ∀ (i : Fin n) s, inv i s → inv (i + 1) (step s i)) : inv n ((List.finRange n).foldl step s) := by
  induction n generalizing s inv with
  | zero => exact hs
  | succ n ih =>
    rw [List.finRange_succ, List.foldl_cons, List.foldl_map]
    exact ih (fun s i => step s i.succ) (fun k => inv (k + 1)) (hstep 0 s hs) fun i s hi => hstep i.succ s hi

/-- The same for a descending one. -/
theorem foldr_finRange {σ : Type} {n : ℕ} (step : Fin n → σ → σ) (inv : ℕ → σ → Prop) {s : σ} (hs : inv n s)
    (hstep : ∀ (i : Fin n) s, inv (i + 1) s → inv i (step i s)) : inv 0 ((List.finRange n).foldr step s) := by
  induction n generalizing inv with
  | zero => exact hs
  | succ n ih =>
    rw [List.finRange_succ, List.foldr_cons, List.foldr_map]
    exact hstep 0 _ (ih (fun i => step i.succ) (fun k => inv (k + 1)) hs fun i s hi => hstep i.succ s hi)

/-- A search keeps the first of the least below its bound. -/
theorem foldl_finRange_least {κ α : Type} [LinearOrder κ] {n : ℕ} (cost : Fin n → κ) (choice : Fin n → α) (bound : κ)
    (a : α) :
    let found := (List.finRange n).foldl (fun s i => if cost i < s.1 then (cost i, choice i) else s) (bound, a)
    (found = (bound, a) ∧ ∀ j, bound ≤ cost j) ∨
      ∃ i, found = (cost i, choice i) ∧ cost i < bound ∧ (∀ j, cost i ≤ cost j) ∧ ∀ j < i, cost i < cost j := by
  have hloop := foldl_finRange (fun s i => if cost i < s.1 then (cost i, choice i) else s)
    (fun k s => (s = (bound, a) ∧ ∀ j : Fin n, j < k → bound ≤ cost j) ∨
      ∃ i : Fin n, i < k ∧ s = (cost i, choice i) ∧ cost i < bound ∧ (∀ j : Fin n, j < k → cost i ≤ cost j) ∧
        ∀ j < i, cost i < cost j) (s := (bound, a)) (.inl ⟨rfl, fun j hj => absurd hj (Nat.not_lt_zero _)⟩) ?_
  · rcases hloop with ⟨hfound, hnone⟩ | ⟨i, -, hfound, hbound, hleast, hfirst⟩
    · exact .inl ⟨hfound, fun j => hnone j j.isLt⟩
    · exact .inr ⟨i, hfound, hbound, fun j => hleast j j.isLt, hfirst⟩
  · have hsplit {i j : Fin n} (hj : (j : ℕ) < i + 1) : (j : ℕ) < i ∨ j = i :=
      (Nat.lt_succ_iff_lt_or_eq.mp hj).imp_right Fin.ext
    rintro i s (⟨rfl, hnone⟩ | ⟨best, hbest, rfl, hbound, hleast, hfirst⟩)
    · dsimp only
      split_ifs with hless
      · refine .inr ⟨i, i.val.lt_succ_self, rfl, hless, fun j hj => ?_, fun j hj => hless.trans_le (hnone j hj)⟩
        rcases hsplit hj with hbefore | rfl
        · exact hless.le.trans (hnone j hbefore)
        · exact le_rfl
      · refine .inl ⟨rfl, fun j hj => ?_⟩
        rcases hsplit hj with hbefore | rfl
        · exact hnone j hbefore
        · exact not_lt.mp hless
    · dsimp only
      split_ifs with hless
      · refine .inr ⟨i, i.val.lt_succ_self, rfl, hless.trans hbound, fun j hj => ?_,
          fun j hj => hless.trans_le (hleast j hj)⟩
        rcases hsplit hj with hbefore | rfl
        · exact hless.le.trans (hleast j hbefore)
        · exact le_rfl
      · refine .inr ⟨best, hbest.trans i.val.lt_succ_self, rfl, hbound, fun j hj => ?_, hfirst⟩
        rcases hsplit hj with hbefore | rfl
        · exact hleast j hbefore
        · exact not_lt.mp hless

end SpVision
