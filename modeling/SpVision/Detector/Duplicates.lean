import SpVision.Library.Knockout
import SpVision.Tracker.Track

set_option autoImplicit false

/-!
# The duplicate pass of the detector

Armors are built from pairs of lightbars, and of two that share a lightbar at most one is kept.
-/
namespace SpVision

structure Lightbar where
  id : ℕ
  color : Color
  centerX : ℚ
  deriving DecidableEq, Repr

/-- What the detector knows of an armor besides its kind; `cols` and `rows` are those of `pattern`. -/
structure PlateView where
  left : Lightbar
  right : Lightbar
  cols : ℕ
  rows : ℕ
  confidence : ℚ
  duplicated : Bool := false
  deriving DecidableEq, Repr

/-- What the classifier makes of the image between two lightbars. -/
structure PlateSight where
  type : ArmorType
  name : ArmorName
  priority : ArmorPriority
  cols : ℕ
  rows : ℕ
  confidence : ℚ
  deriving DecidableEq, Repr

/-- The constructor of `Armor`, with the results of the classifier. -/
def Armor.ofLightbars (left right : Lightbar) (s : PlateSight) : Armor PlateView :=
  { color := left.color, type := s.type, name := s.name, priority := s.priority
    view := { left, right, cols := s.cols, rows := s.rows, confidence := s.confidence } }

namespace Detector

/-- The loops that build armors. `classify` is none where a check of the detector refuses. -/
def candidates (classify : Lightbar → Lightbar → Option PlateSight) : List Lightbar → List (Armor PlateView)
  | [] => []
  | left :: rest =>
    (rest.filterMap fun right =>
      if left.color ≠ right.color then none else (classify left right).map (.ofLightbars left right)) ++
    candidates classify rest

def area (a : Armor PlateView) : ℕ := a.view.cols * a.view.rows

def markDuplicated (a : Armor PlateView) : Armor PlateView := { a with view := { a.view with duplicated := true } }

/-- Of two overlapping armors the smaller stays. -/
def markOverlapping (armor1 armor2 : Armor PlateView) : Armor PlateView × Armor PlateView :=
  if armor1.view.left.id = armor2.view.left.id ∨ armor1.view.right.id = armor2.view.right.id then
    if area armor1 < area armor2 then (armor1, markDuplicated armor2) else (markDuplicated armor1, armor2)
  else (armor1, armor2)

/-- Of two adjacent armors the more confident stays. -/
def markAdjacent (armor1 armor2 : Armor PlateView) : Armor PlateView × Armor PlateView :=
  if armor1.view.left.id = armor2.view.right.id ∨ armor1.view.right.id = armor2.view.left.id then
    if armor1.view.confidence < armor2.view.confidence then (markDuplicated armor1, armor2)
    else (armor1, markDuplicated armor2)
  else (armor1, armor2)

/-- One turn of the inner loop. -/
def markPair (armor1 armor2 : Armor PlateView) : Armor PlateView × Armor PlateView :=
  if armor1.view.left.id ≠ armor2.view.left.id ∧ armor1.view.left.id ≠ armor2.view.right.id ∧
      armor1.view.right.id ≠ armor2.view.left.id ∧ armor1.view.right.id ≠ armor2.view.right.id then (armor1, armor2)
  else
    let (armor1, armor2) := markOverlapping armor1 armor2
    markAdjacent armor1 armor2

def markAgainst (armor1 : Armor PlateView) : List (Armor PlateView) → Armor PlateView × List (Armor PlateView)
  | [] => (armor1, [])
  | armor2 :: rest =>
    let (armor1, armor2) := markPair armor1 armor2
    let (armor1, rest) := markAgainst armor1 rest
    (armor1, armor2 :: rest)

theorem markAgainst_length (armor1 : Armor PlateView) (rest : List (Armor PlateView)) :
    (markAgainst armor1 rest).2.length = rest.length := by
  induction rest generalizing armor1 with
  | nil => rfl
  | cons armor2 rest ih => exact congrArg (· + 1) (ih _)

/-- The outer loop. -/
def markDuplicates : List (Armor PlateView) → List (Armor PlateView)
  | [] => []
  | armor1 :: rest => (markAgainst armor1 rest).1 :: markDuplicates (markAgainst armor1 rest).2
termination_by armors => armors.length
decreasing_by
  rw [markAgainst_length]
  exact Nat.lt_succ_self _

def removeDuplicated (armors : List (Armor PlateView)) : List (Armor PlateView) :=
  armors.filter fun a => ¬ a.view.duplicated

/-- `Detector::detect` from the lightbars on. -/
def detect (classify : Lightbar → Lightbar → Option PlateSight) (lightbars : List Lightbar) : List (Armor PlateView) :=
  removeDuplicated (markDuplicates (candidates classify (lightbars.insertionSort fun a b => a.centerX ≤ b.centerX)))

/-! ### The pass as a knock-out -/

def Overlapping (a b : Armor PlateView) : Prop :=
  a.view.left.id = b.view.left.id ∨ a.view.right.id = b.view.right.id

def Adjacent (a b : Armor PlateView) : Prop :=
  a.view.left.id = b.view.right.id ∨ a.view.right.id = b.view.left.id

instance (a b : Armor PlateView) : Decidable (Overlapping a b) := inferInstanceAs (Decidable (_ ∨ _))

instance (a b : Armor PlateView) : Decidable (Adjacent a b) := inferInstanceAs (Decidable (_ ∨ _))

def SharesLightbar (a b : Armor PlateView) : Prop := Overlapping a b ∨ Adjacent a b

def meeting : Meeting (Armor PlateView) where
  earlier a b := Overlapping a b ∧ ¬ area a < area b ∨ Adjacent a b ∧ a.view.confidence < b.view.confidence
  later a b := Overlapping a b ∧ area a < area b ∨ Adjacent a b ∧ ¬ a.view.confidence < b.view.confidence

def flag (out : Bool) (a : Armor PlateView) : Armor PlateView :=
  { a with view := { a.view with duplicated := a.view.duplicated || out } }

theorem flag_flag (x y : Bool) (a : Armor PlateView) : flag y (flag x a) = flag (x || y) a := by
  simp only [flag, Bool.or_assoc]

theorem flag_true (a : Armor PlateView) : flag true a = markDuplicated a := by
  simp only [flag, markDuplicated, Bool.or_true]

theorem flag_false (a : Armor PlateView) : flag false a = a := by
  simp only [flag, Bool.or_false]

theorem markOverlapping_eq (a b : Armor PlateView) : markOverlapping a b =
    (flag (Overlapping a b ∧ ¬ area a < area b) a, flag (Overlapping a b ∧ area a < area b) b) := by
  unfold markOverlapping Overlapping
  split_ifs with hover harea
  · simp [hover, harea, flag_true, flag_false]
  · simp [hover, harea, flag_true, flag_false]
  · simp [hover, flag_false]

theorem markAdjacent_eq (a b : Armor PlateView) : markAdjacent a b =
    (flag (Adjacent a b ∧ a.view.confidence < b.view.confidence) a,
      flag (Adjacent a b ∧ ¬ a.view.confidence < b.view.confidence) b) := by
  unfold markAdjacent Adjacent
  split_ifs with hadj hconf
  · simp [hadj, hconf, flag_true, flag_false]
  · simp [hadj, hconf, flag_true, flag_false]
  · simp [hadj, flag_false]

/-- A meeting marks either armor by one of the two tests; what they are marked with does not matter. -/
theorem markPair_eq (a b : Armor PlateView) :
    markPair a b = (flag (meeting.earlier a b) a, flag (meeting.later a b) b) := by
  have hearlier : meeting.earlier a b = (decide (Overlapping a b ∧ ¬ area a < area b) ||
      decide (Adjacent a b ∧ a.view.confidence < b.view.confidence)) := Bool.decide_or ..
  have hlater : meeting.later a b = (decide (Overlapping a b ∧ area a < area b) ||
      decide (Adjacent a b ∧ ¬ a.view.confidence < b.view.confidence)) := Bool.decide_or ..
  rw [hearlier, hlater, ← flag_flag, ← flag_flag, markPair]
  split_ifs with hdisjoint
  · have hover : ¬ Overlapping a b := by
      rintro (h | h)
      · exact hdisjoint.1 h
      · exact hdisjoint.2.2.2 h
    have hadj : ¬ Adjacent a b := by
      rintro (h | h)
      · exact hdisjoint.2.1 h
      · exact hdisjoint.2.2.1 h
    simp [hover, hadj, flag_false]
  · rw [markOverlapping_eq]
    exact markAdjacent_eq _ _

theorem meeting_flag (x y : Bool) (a b : Armor PlateView) :
    meeting.earlier (flag x a) (flag y b) = meeting.earlier a b ∧
      meeting.later (flag x a) (flag y b) = meeting.later a b := ⟨rfl, rfl⟩

theorem markAgainst_eq (x : Bool) (a : Armor PlateView) (before behind : List (Armor PlateView)) :
    markAgainst (flag x a) (behind.map fun b => flag (before.any fun c => meeting.later c b) b) =
      (flag (x || behind.any fun b => meeting.earlier a b) a,
        behind.map fun b => flag ((before ++ [a]).any fun c => meeting.later c b) b) := by
  induction behind generalizing x with
  | nil => rw [List.any_nil, Bool.or_false]; rfl
  | cons b behind ih =>
    rw [List.map_cons, markAgainst, markPair_eq, (meeting_flag ..).1, (meeting_flag ..).2, flag_flag, flag_flag]
    dsimp only
    rw [ih, List.any_cons, List.map_cons, List.any_append, List.any_cons, List.any_nil, Bool.or_false, Bool.or_assoc]

theorem removeDuplicated_markDuplicates (before armors : List (Armor PlateView)) :
    removeDuplicated (markDuplicates (armors.map fun b => flag (before.any fun c => meeting.later c b) b)) =
      removeDuplicated (meeting.survivors before armors) := by
  induction armors generalizing before with
  | nil => rw [List.map_nil, markDuplicates, Meeting.survivors]
  | cons a behind ih =>
    have hrest := ih (before ++ [a])
    unfold removeDuplicated at hrest ⊢
    rw [List.map_cons, markDuplicates, markAgainst_eq]
    dsimp only
    rw [← Meeting.out, Meeting.survivors]
    cases hout : meeting.out before a behind
    · rw [flag_false, if_neg Bool.false_ne_true, List.filter_cons, List.filter_cons, hrest]
    · rw [flag_true, if_pos rfl, List.filter_cons_of_neg (by simp [markDuplicated]), hrest]

theorem map_flag_nil (armors : List (Armor PlateView)) :
    (armors.map fun b => flag (([] : List (Armor PlateView)).any fun c => meeting.later c b) b) = armors :=
  (List.map_congr_left fun b _ => flag_false b).trans (List.map_id armors)

theorem removeDuplicated_eq (armors : List (Armor PlateView)) :
    removeDuplicated (markDuplicates armors) = removeDuplicated (meeting.survivors [] armors) := by
  have hpass := removeDuplicated_markDuplicates [] armors
  rwa [map_flag_nil] at hpass

theorem meeting_of_shares {a b : Armor PlateView} (h : SharesLightbar a b) :
    meeting.earlier a b = true ∨ meeting.later a b = true := by
  simp only [meeting, decide_eq_true_eq]
  rcases h with hover | hadj
  · by_cases harea : area a < area b
    · exact .inr (.inl ⟨hover, harea⟩)
    · exact .inl (.inl ⟨hover, harea⟩)
  · by_cases hconf : a.view.confidence < b.view.confidence
    · exact .inl (.inr ⟨hadj, hconf⟩)
    · exact .inr (.inr ⟨hadj, hconf⟩)

end Detector

/-- After the duplicate pass over any armors no two of them share a lightbar, and so it is with those that are
    detected. -/
theorem detect_kept_share_no_lightbar :
    (∀ armors : List (Armor PlateView), (Detector.removeDuplicated (Detector.markDuplicates armors)).Pairwise
      fun a b => ¬ Detector.SharesLightbar a b) ∧
    ∀ (classify : Lightbar → Lightbar → Option PlateSight) (lightbars : List Lightbar),
      (Detector.detect classify lightbars).Pairwise fun a b => ¬ Detector.SharesLightbar a b := by
  have hpass : ∀ armors : List (Armor PlateView), (Detector.removeDuplicated (Detector.markDuplicates armors)).Pairwise
      fun a b => ¬ Detector.SharesLightbar a b := by
    intro armors
    rw [Detector.removeDuplicated_eq]
    exact (Meeting.survivors_pairwise _ (fun a b hshares => Detector.meeting_of_shares hshares) [] armors).filter _
  exact ⟨hpass, fun _ _ => hpass _⟩

end SpVision
