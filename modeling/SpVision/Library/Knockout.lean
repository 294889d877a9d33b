import Mathlib.Data.Fintype.Basic
import Mathlib.Data.List.Basic
import Mathlib.Data.Set.Pairwise.Basic
import Mathlib.Order.Minimal

set_option autoImplicit false

/-!
# Knock-out

Each element of a list meets each later one, and a meeting knocks out either or both or none. An
element that is out goes on meeting the others.
-/
namespace SpVision

/-- Whether a meeting knocks out the earlier element, and whether it knocks out the later one. -/
structure Meeting (α : Type) where
  earlier : α → α → Bool
  later : α → α → Bool

namespace Meeting

variable {α : Type} (m : Meeting α)

/-- Whether an element is knocked out by those before it and behind it. -/
def out (before : List α) (a : α) (behind : List α) : Bool :=
  before.any (fun b => m.later b a) || behind.any (fun b => m.earlier a b)

theorem out_eq_false_iff {before : List α} {a : α} {behind : List α} :
    m.out before a behind = false ↔ (∀ b ∈ before, m.later b a = false) ∧ ∀ b ∈ behind, m.earlier a b = false := by
  simp only [out, Bool.or_eq_false_iff, List.any_eq_false, Bool.not_eq_true]

/-- The elements of a list that are not knocked out, when those of `before` stand before it. -/
def survivors (before : List α) : List α → List α
  | [] => []
  | a :: behind =>
    if m.out before a behind then survivors (before ++ [a]) behind else a :: survivors (before ++ [a]) behind

theorem mem_survivors {before l : List α} {a : α} : a ∈ m.survivors before l ↔
    ∃ pre post, l = pre ++ a :: post ∧ m.out (before ++ pre) a post = false := by
  induction l generalizing before with
  | nil =>
    constructor
    · exact nofun
    · rintro ⟨pre, post, hsplit, -⟩
      exact absurd hsplit.symm (by simp)
  | cons b l ih =>
    have hrest : a ∈ m.survivors (before ++ [b]) l ↔
        ∃ pre post, b :: l = b :: pre ++ a :: post ∧ m.out (before ++ b :: pre) a post = false := by
      simp only [ih, List.cons_append, List.cons.injEq, true_and, List.append_assoc, List.nil_append]
    have hhere : m.out before b l = false → (∃ pre post, b :: l = pre ++ b :: post ∧
        m.out (before ++ pre) b post = false) := by
      intro hstays
      exact ⟨[], l, rfl, by rwa [List.append_nil]⟩
    constructor
    · intro hmem
      rw [survivors] at hmem
      split_ifs at hmem with hout
      · obtain ⟨pre, post, hsplit, hstays⟩ := hrest.mp hmem
        exact ⟨b :: pre, post, hsplit, hstays⟩
      · rcases List.mem_cons.mp hmem with rfl | hmem
        · exact hhere (Bool.not_eq_true _ ▸ hout)
        · obtain ⟨pre, post, hsplit, hstays⟩ := hrest.mp hmem
          exact ⟨b :: pre, post, hsplit, hstays⟩
    · rintro ⟨pre, post, hsplit, hstays⟩
      cases pre with
      | nil =>
        obtain ⟨rfl, rfl⟩ := List.cons.inj hsplit
        rw [List.append_nil] at hstays
        rw [survivors, hstays, if_neg Bool.false_ne_true]
        exact List.mem_cons_self ..
      | cons c pre =>
        obtain ⟨rfl, -⟩ := List.cons.inj hsplit
        have hmem := hrest.mpr ⟨pre, post, hsplit, hstays⟩
        rw [survivors]
        split_ifs
        · exact hmem
        · exact List.mem_cons_of_mem _ hmem

/-- Where every conflict knocks one side out, those that are left are free of conflicts. -/
theorem survivors_pairwise {conflict : α → α → Prop}
    (h : ∀ a b, conflict a b → m.earlier a b = true ∨ m.later a b = true) (before l : List α) :
    (m.survivors before l).Pairwise fun a b => ¬ conflict a b := by
  induction l generalizing before with
  | nil => exact .nil
  | cons a l ih =>
    rw [survivors]
    split_ifs with hout
    · exact ih _
    · refine List.pairwise_cons.mpr ⟨fun b hb hab => ?_, ih _⟩
      obtain ⟨pre, post, rfl, hstays⟩ := m.mem_survivors.mp hb
      have hstays' := m.out_eq_false_iff.mp hstays
      have hout' := m.out_eq_false_iff.mp (Bool.not_eq_true _ ▸ hout)
      rcases h a b hab with hearlier | hlater
      · have hmem : b ∈ pre ++ b :: post := List.mem_append_right _ (List.mem_cons_self ..)
        exact absurd ((hout'.2 b hmem).symm.trans hearlier) nofun
      · have hmem : a ∈ before ++ [a] ++ pre :=
          List.mem_append_left _ (List.mem_append_right _ (List.mem_singleton_self a))
        exact absurd ((hstays'.1 a hmem).symm.trans hlater) nofun

/-! ### Positions -/

/-- The meeting of the elements at two positions knocks out the one at `i`. -/
def Beats (l : List α) (j i : Fin l.length) : Prop :=
  i < j ∧ m.earlier l[i] l[j] = true ∨ j < i ∧ m.later l[j] l[i] = true

def Beaten (l : List α) (i : Fin l.length) : Prop := ∃ j, m.Beats l j i

instance (l : List α) : DecidablePred (m.Beaten l) := fun i =>
  inferInstanceAs (Decidable (∃ j : Fin l.length, i < j ∧ _ ∨ j < i ∧ _))

theorem out_eq_true_iff (l : List α) (i : Fin l.length) :
    m.out (l.take i) l[i] (l.drop (i + 1)) = true ↔ m.Beaten l i := by
  rw [out, Bool.or_eq_true, List.any_eq_true, List.any_eq_true]
  constructor
  · rintro (⟨b, hmem, hlater⟩ | ⟨b, hmem, hearlier⟩)
    · obtain ⟨j, hj, rfl⟩ := List.mem_take_iff_getElem.mp hmem
      rw [lt_min_iff] at hj
      exact ⟨⟨j, hj.2⟩, .inr ⟨hj.1, hlater⟩⟩
    · obtain ⟨j, hj, rfl⟩ := List.mem_drop_iff_getElem.mp hmem
      have hlt : i.val + 1 + j < l.length := Nat.add_comm .. ▸ hj
      exact ⟨⟨i + 1 + j, hlt⟩, .inl ⟨Fin.lt_def.mpr (by dsimp only; omega), hearlier⟩⟩
  · rintro ⟨j, ⟨hlt, hearlier⟩ | ⟨hlt, hlater⟩⟩
    · have hsplit : i.val + 1 + (j.val - (i.val + 1)) = j.val := Nat.add_sub_cancel' hlt
      refine .inr ⟨l[j], List.mem_drop_iff_getElem.mpr ⟨j - (i + 1), ?_, ?_⟩, hearlier⟩
      · rw [Nat.sub_add_cancel hlt]
        exact j.isLt
      · simp only [hsplit]
        rfl
    · exact .inl ⟨l[j], List.mem_take_iff_getElem.mpr ⟨j, lt_min hlt j.isLt, rfl⟩, hlater⟩

section Conflicts

variable {conflict : α → α → Prop} (hsymm : ∀ a b, conflict a b → conflict b a)
  (hknock : ∀ a b, conflict a b → m.earlier a b = true ∨ m.later a b = true)

include hsymm hknock

theorem unbeaten_pairwise (l : List α) :
    {i | ¬ m.Beaten l i}.Pairwise fun i j => ¬ conflict l[i] l[j] := by
  intro i hi j hj hne hconflict
  rcases lt_or_gt_of_ne hne with hlt | hlt
  · rcases hknock _ _ hconflict with hearlier | hlater
    · exact hi ⟨j, .inl ⟨hlt, hearlier⟩⟩
    · exact hj ⟨i, .inr ⟨hlt, hlater⟩⟩
  · rcases hknock _ _ (hsymm _ _ hconflict) with hearlier | hlater
    · exact hj ⟨i, .inl ⟨hlt, hearlier⟩⟩
    · exact hi ⟨j, .inr ⟨hlt, hlater⟩⟩

/-- The unbeaten are as many as can be kept exactly if each beaten one is in conflict with one of them. -/
theorem maximal_unbeaten_iff (l : List α) :
    Maximal (fun s : Set (Fin l.length) => s.Pairwise fun i j => ¬ conflict l[i] l[j]) {i | ¬ m.Beaten l i} ↔
      ∀ i, m.Beaten l i → ∃ j, ¬ m.Beaten l j ∧ conflict l[i] l[j] := by
  constructor
  · intro hmax i hi
    by_contra halone
    have hfree : ∀ j, ¬ m.Beaten l j → ¬ conflict l[i] l[j] := fun j hj hconflict => halone ⟨j, hj, hconflict⟩
    have hlarger : (insert i {i | ¬ m.Beaten l i}).Pairwise fun i j => ¬ conflict l[i] l[j] :=
      Set.pairwise_insert.mpr ⟨hmax.1, fun j hj _ => ⟨hfree j hj, fun h => hfree j hj (hsymm _ _ h)⟩⟩
    exact hmax.2 hlarger (Set.subset_insert _ _) (Set.mem_insert _ _) hi
  · intro hcover
    refine ⟨m.unbeaten_pairwise hsymm hknock l, fun s hs hsub i hi hbeaten => ?_⟩
    obtain ⟨j, hj, hconflict⟩ := hcover i hbeaten
    have hne : i ≠ j := by
      rintro rfl
      exact hj hbeaten
    exact hs hi (hsub hj) hne hconflict

end Conflicts

end Meeting

end SpVision
