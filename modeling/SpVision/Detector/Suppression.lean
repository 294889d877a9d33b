import SpVision.Detector.Duplicates

set_option autoImplicit false

/-!
# What the duplicate pass removes

An armor is removed as soon as it loses one meeting, whether or not the winner stays.
-/
namespace SpVision
namespace Detector

variable (armors : List (Armor PlateView))

theorem markDuplicates_getElem? (before : List (Armor PlateView)) (i : ℕ) :
    (markDuplicates (armors.map fun b => flag (before.any fun c => meeting.later c b) b))[i]? =
      armors[i]?.map fun a => flag (meeting.out (before ++ armors.take i) a (armors.drop (i + 1))) a := by
  induction armors generalizing before i with
  | nil => rw [List.map_nil, markDuplicates]; rfl
  | cons a behind ih =>
    rw [List.map_cons, markDuplicates, markAgainst_eq]
    dsimp only
    cases i with
    | zero =>
      rw [List.take_zero, List.append_nil]
      rfl
    | succ i =>
      rw [List.getElem?_cons_succ, ih, List.append_assoc]
      rfl

/-- Whether the pass marks the armor at a position. -/
def removedAt (i : Fin armors.length) : Bool := (markDuplicates armors)[i]?.any fun a => a.view.duplicated

/-- No two of the positions hold armors that share a lightbar. -/
def ShareFree (s : Set (Fin armors.length)) : Prop := s.Pairwise fun i j => ¬ SharesLightbar armors[i] armors[j]

/-- What is removed gives way to what is kept. -/
structure LosersGiveWay : Prop where
  shares_kept : ∀ i, removedAt armors i = true →
    ∃ j, removedAt armors j = false ∧ SharesLightbar armors[i] armors[j]
  kept_ne_nil : armors ≠ [] → removeDuplicated (markDuplicates armors) ≠ []
  kept_maximal : Maximal (ShareFree armors) {i | removedAt armors i = false}

variable {armors}

theorem markDuplicates_at (i : Fin armors.length) : (markDuplicates armors)[i.val]? =
    some (flag (meeting.out (armors.take i) armors[i] (armors.drop (i + 1))) armors[i]) := by
  have hmarked := markDuplicates_getElem? armors [] i
  rwa [map_flag_nil, List.nil_append, List.getElem?_eq_getElem i.isLt, Option.map_some] at hmarked

theorem removedAt_iff (hnew : ∀ a ∈ armors, a.view.duplicated = false) (i : Fin armors.length) :
    removedAt armors i = true ↔ meeting.Beaten armors i := by
  change ((markDuplicates armors)[i.val]?.any fun a => a.view.duplicated) = true ↔ _
  have hfresh : armors[i].view.duplicated = false := hnew _ (List.getElem_mem _)
  rw [← meeting.out_eq_true_iff, markDuplicates_at, Option.any_some, flag]
  dsimp only
  rw [hfresh, Bool.false_or]

theorem SharesLightbar.symm {a b : Armor PlateView} (h : SharesLightbar a b) : SharesLightbar b a := by
  rcases h with (h | h) | (h | h)
  · exact .inl (.inl h.symm)
  · exact .inl (.inr h.symm)
  · exact .inr (.inr h.symm)
  · exact .inr (.inl h.symm)

theorem kept_maximal_iff (hnew : ∀ a ∈ armors, a.view.duplicated = false) :
    Maximal (ShareFree armors) {i | removedAt armors i = false} ↔
      ∀ i, meeting.Beaten armors i → ∃ j, ¬ meeting.Beaten armors j ∧ SharesLightbar armors[i] armors[j] := by
  have hkept : {i | removedAt armors i = false} = {i | ¬ meeting.Beaten armors i} := by
    ext i
    rw [Set.mem_ofPred_eq, Set.mem_ofPred_eq, ← removedAt_iff hnew, Bool.not_eq_true]
  rw [hkept]
  exact meeting.maximal_unbeaten_iff (fun _ _ h => h.symm) (fun _ _ h => meeting_of_shares h) armors

theorem removeDuplicated_ne_nil {i : Fin armors.length} (hkept : removedAt armors i = false) :
    removeDuplicated (markDuplicates armors) ≠ [] := by
  change ((markDuplicates armors)[i.val]?.any fun a => a.view.duplicated) = false at hkept
  rw [markDuplicates_at, Option.any_some] at hkept
  apply List.ne_nil_of_mem
  exact List.mem_filter.mpr ⟨List.mem_of_getElem? (markDuplicates_at i), by rw [hkept]; rfl⟩

theorem LosersGiveWay.unbeaten (hnew : ∀ a ∈ armors, a.view.duplicated = false) (h : LosersGiveWay armors) :
    ∀ i, meeting.Beaten armors i → ∃ j, ¬ meeting.Beaten armors j ∧ SharesLightbar armors[i] armors[j] :=
  (kept_maximal_iff hnew).mp h.kept_maximal

/-- The pass settles every conflict exactly if no armor loses only to armors that lose too. -/
theorem losersGiveWay_iff (hnew : ∀ a ∈ armors, a.view.duplicated = false) :
    LosersGiveWay armors ↔
      ∀ i, meeting.Beaten armors i → ∃ j, ¬ meeting.Beaten armors j ∧ SharesLightbar armors[i] armors[j] := by
  constructor
  · exact LosersGiveWay.unbeaten hnew
  intro hcover
  have hshares : ∀ i, removedAt armors i = true →
      ∃ j, removedAt armors j = false ∧ SharesLightbar armors[i] armors[j] := by
    intro i hi
    obtain ⟨j, hj, hij⟩ := hcover i ((removedAt_iff hnew i).mp hi)
    rw [← removedAt_iff hnew, Bool.not_eq_true] at hj
    exact ⟨j, hj, hij⟩
  refine ⟨hshares, fun hne => ?_, (kept_maximal_iff hnew).mpr hcover⟩
  have hpos : 0 < armors.length := List.length_pos_iff.mpr hne
  cases hfirst : removedAt armors ⟨0, hpos⟩
  · exact removeDuplicated_ne_nil hfirst
  · obtain ⟨j, hj, -⟩ := hshares _ hfirst
    exact removeDuplicated_ne_nil hj

instance (a b : Armor PlateView) : Decidable (SharesLightbar a b) := inferInstanceAs (Decidable (_ ∨ _))

/-- An armor between two lightbars, with the size of its image and its confidence. -/
def plateBetween (left right cols rows : ℕ) (confidence : ℚ) : Armor PlateView :=
  .ofLightbars ⟨left, .red, left⟩ ⟨right, .red, right⟩ ⟨.small, .three, .first, cols, rows, confidence⟩

/-- Three armors in a row, each more confident than the next one. -/
def plateRow : List (Armor PlateView) :=
  [plateBetween 0 1 40 20 (9 / 10), plateBetween 1 2 40 20 (8 / 10), plateBetween 2 3 40 20 (7 / 10)]

/-- Three armors on three lightbars, each of which beats the next one. -/
def plateRing : List (Armor PlateView) :=
  [plateBetween 0 1 20 20 (8 / 10), plateBetween 0 2 40 20 (9 / 10), plateBetween 1 2 40 30 (9 / 10)]

theorem losersGiveWay_plateRow : LosersGiveWay plateRow ↔
    ∀ i, meeting.Beaten plateRow i → ∃ j, ¬ meeting.Beaten plateRow j ∧ SharesLightbar plateRow[i] plateRow[j] :=
  losersGiveWay_iff (by decide +kernel)

/-- The last armor of the row gives way to the middle one, which is removed itself; of the ring nothing is left. -/
theorem loser_suppresses : ¬ LosersGiveWay plateRow ∧ removeDuplicated (markDuplicates plateRing) = [] := by
  constructor
  · intro h
    have hcover := h.unbeaten (by decide +kernel) ⟨2, by decide⟩
    revert hcover
    decide +kernel
  · rw [removeDuplicated_eq]
    decide +kernel

end Detector
end SpVision
