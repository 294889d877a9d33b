import SpVision.Library.ComparisonSort
import SpVision.Tracker.Track

set_option autoImplicit false

/-!
# The decider of the omnidirectional cameras

A `front()` of an empty list of armors gives `none`.
-/
namespace SpVision

/-- The entries of the file that the constructor reads; the mode is cut to an integer. -/
structure DeciderConfig where
  newFovH : ℚ
  newFovV : ℚ
  enemyColor : String
  mode : ℤ
  deriving DecidableEq, Repr

/-- The fields of view are in degrees; `invincibleArmor` is what the referee says. -/
structure Decider where
  newFovH : ℚ
  newFovV : ℚ
  mode : ℤ
  defaultEnemyColor : Color
  enemyColor : Color
  invincibleArmor : List ArmorName := []
  deriving DecidableEq, Repr

def modeOne : ℤ := 1

def mode1 : ArmorName → ArmorPriority
  | .one => .second
  | .two => .forth
  | .three => .first
  | .four => .first
  | .five => .third
  | .sentry => .third
  | .outpost => .fifth
  | .base => .fifth
  | .notArmor => .fifth

def mode2 : ArmorName → ArmorPriority
  | .two => .first
  | .one => .second
  | .three => .second
  | .four => .second
  | .five => .second
  | .sentry => .third
  | .outpost => .third
  | .base => .third
  | .notArmor => .third

/-- `ArmorName(value)`; other values are the name of no armor. -/
def ArmorName.ofInt? : ℤ → Option ArmorName
  | 0 => some .one
  | 1 => some .two
  | 2 => some .three
  | 3 => some .four
  | 4 => some .five
  | 5 => some .sentry
  | 6 => some .outpost
  | 7 => some .base
  | 8 => some .notArmor
  | _ => none

namespace Decider

variable {β : Type}

def init (cfg : DeciderConfig) : Decider :=
  let color := if cfg.enemyColor = "red" then .red else .blue
  { newFovH := cfg.newFovH, newFovV := cfg.newFovV, mode := cfg.mode, defaultEnemyColor := color, enemyColor := color }

variable (d : Decider)

def setEnemyColor (color : Color) : Decider := { d with enemyColor := color }

def resetEnemyColor : Decider := { d with enemyColor := d.defaultEnemyColor }

def getInvincibleArmor (invincibleEnemyIds : List Int8) : Decider :=
  { d with invincibleArmor := invincibleEnemyIds.filterMap fun id => ArmorName.ofInt? (id.toInt - 1) }

/-- In degrees, for the point `(x, y)` of the image of a camera; the whole image is one wide and one high. -/
def angleTo (camera : String) (x y : ℚ) : ℚ × ℚ :=
  if camera = "left" then (62 + d.newFovH / 2 - x * d.newFovH, y * d.newFovV - d.newFovV / 2)
  else if camera = "right" then (-62 + d.newFovH / 2 - x * d.newFovH, y * d.newFovV - d.newFovV / 2)
  else (170 + 54.2 / 2 - x * 54.2, y * 44.5 - 44.5 / 2)

def deltaAngle (centerNorm : β → ℚ × ℚ) (armors : List (Armor β)) (camera : String) : Option (ℚ × ℚ) :=
  armors.head?.map fun armor => d.angleTo camera (centerNorm armor.view).1 (centerNorm armor.view).2

/-- The armors that are left, and whether there are none. -/
def armorFilter (armors : List (Armor β)) : List (Armor β) × Bool :=
  if armors.isEmpty then (armors, true)
  else
    let armors := armors.filter (·.color = d.enemyColor)
    let armors := armors.filter (·.name ≠ .five)
    let armors := armors.filter (·.name ≠ .outpost)
    let armors := armors.filter (·.name ∉ d.invincibleArmor)
    (armors, armors.isEmpty)

def priorityMap : ArmorName → ArmorPriority := if d.mode = modeOne then mode1 else mode2

def setPriority (armors : List (Armor β)) : List (Armor β) :=
  armors.map fun armor => { armor with priority := d.priorityMap armor.name }

/-- What `sort` does to one result; `std::list::sort` is stable. -/
def sortArmors (dr : DetectionResult β) : DetectionResult β :=
  { dr with
    armors := (d.setPriority (d.armorFilter dr.armors).1).insertionSort fun a b => a.priority ≤ b.priority }

def frontPriority? (dr : DetectionResult β) : Option ArmorPriority := dr.armors.head?.map (·.priority)

/-- `Decider::sort`; the results are then sorted by the priority of their first armor. -/
def sort? (sorter : ComparisonSort) (detectionQueue : List (DetectionResult β)) : Option (List (DetectionResult β)) :=
  if detectionQueue.isEmpty then some detectionQueue
  else sorter.sortByKey? frontPriority? (detectionQueue.map d.sortArmors)

/-- `io::Command` -/
structure Command where
  control : Bool
  shoot : Bool
  yaw : ℚ
  pitch : ℚ
  deriving DecidableEq, Repr

/-- `Decider::decide` with a detection queue. -/
def decide (detectionQueue : List (DetectionResult β)) : Command :=
  match detectionQueue with
  | [] => ⟨false, false, 0, 0⟩
  | dr :: _ => if dr.armors.isEmpty then ⟨false, false, 0, 0⟩ else ⟨true, false, dr.deltaYaw, dr.deltaPitch⟩

/-! ### What is kept -/

/-- An enemy that is shot at. -/
def Keeps (armor : Armor β) : Prop :=
  armor.color = d.enemyColor ∧ armor.name ≠ .five ∧ armor.name ≠ .outpost ∧ armor.name ∉ d.invincibleArmor

instance (armor : Armor β) : Decidable (d.Keeps armor) := inferInstanceAs (Decidable (_ ∧ _ ∧ _ ∧ _))

theorem armorFilter_fst (armors : List (Armor β)) : (d.armorFilter armors).1 = armors.filter (d.Keeps ·) := by
  unfold armorFilter
  split_ifs with hempty
  · rw [List.isEmpty_iff.mp hempty]
    rfl
  · simp only [List.filter_filter]
    refine List.filter_congr fun armor _ => ?_
    rw [Bool.eq_iff_iff]
    simp only [Bool.and_eq_true, decide_eq_true_eq]
    unfold Keeps
    tauto

theorem sortArmors_armors_eq_nil (dr : DetectionResult β) :
    (d.sortArmors dr).armors = [] ↔ ∀ armor ∈ dr.armors, ¬ d.Keeps armor := by
  have hlength : (d.sortArmors dr).armors.length = (dr.armors.filter (d.Keeps ·)).length := by
    rw [sortArmors, List.length_insertionSort, setPriority, List.length_map, armorFilter_fst]
  rw [← List.length_eq_zero_iff, hlength, List.length_eq_zero_iff, List.filter_eq_nil_iff]
  simp only [decide_eq_true_eq]

theorem frontPriority?_isSome (dr : DetectionResult β) : (frontPriority? dr).isSome ↔ dr.armors ≠ [] := by
  rw [frontPriority?, Option.isSome_map, List.isSome_head?]

theorem frontPriority?_sortArmors_isSome (dr : DetectionResult β) :
    (frontPriority? (d.sortArmors dr)).isSome ↔ ∃ armor ∈ dr.armors, d.Keeps armor := by
  rw [frontPriority?_isSome, ne_eq, sortArmors_armors_eq_nil]
  push Not
  rfl

/-! ### The order of the results -/

theorem sort?_eq (sorter : ComparisonSort) (queue : List (DetectionResult β)) :
    d.sort? sorter queue = sorter.sortByKey? frontPriority? (queue.map d.sortArmors) := by
  unfold sort?
  split_ifs with hempty
  · rw [List.isEmpty_iff.mp hempty, List.map_nil, sorter.sortByKey?_nil]
  · rfl

theorem sort?_isSome_iff (sorter : ComparisonSort) (queue : List (DetectionResult β)) :
    (d.sort? sorter queue).isSome ↔ queue.length ≤ 1 ∨ ∀ dr ∈ queue, ∃ armor ∈ dr.armors, d.Keeps armor := by
  rw [sort?_eq, sorter.sortByKey?_isSome_iff .fifth, List.length_map, List.forall_mem_map]
  simp only [frontPriority?_sortArmors_isSome]

theorem sort?_perm {sorter : ComparisonSort} {queue sorted : List (DetectionResult β)}
    (h : d.sort? sorter queue = some sorted) : sorted.Perm (queue.map d.sortArmors) := by
  rw [sort?_eq] at h
  exact (sorter.sortByKey?_eq_some .fifth h).1

theorem sort?_ordered {sorter : ComparisonSort} {queue sorted : List (DetectionResult β)}
    (h : d.sort? sorter queue = some sorted) : (sorted.filterMap frontPriority?).Pairwise (· ≤ ·) := by
  rw [sort?_eq] at h
  rw [List.pairwise_filterMap]
  refine (sorter.sortByKey?_eq_some .fifth h).2.imp ?_
  intro dr dr' hle priority hpriority priority' hpriority'
  rwa [hpriority, hpriority', Option.getD_some, Option.getD_some] at hle

end Decider

/-- The sort goes through, with the results in order, if and only if there is nothing to compare or the filter leaves
    an armor in every result. -/
theorem decider_sort_safe_iff {β : Type} (d : Decider) (sorter : ComparisonSort) (queue : List (DetectionResult β)) :
    (∃ sorted, d.sort? sorter queue = some sorted ∧
      (sorted.filterMap Decider.frontPriority?).Pairwise (· ≤ ·)) ↔
    queue.length ≤ 1 ∨ ∀ dr ∈ queue, ∃ armor ∈ dr.armors, d.Keeps armor := by
  rw [← d.sort?_isSome_iff sorter, Option.isSome_iff_exists]
  constructor
  · rintro ⟨sorted, hsort, -⟩
    exact ⟨sorted, hsort⟩
  · rintro ⟨sorted, hsort⟩
    exact ⟨sorted, hsort, d.sort?_ordered hsort⟩

def sentryConfig : DeciderConfig := ⟨120, 90, "red", 1⟩

def redHero : Armor (ℚ × ℚ) := ⟨.red, .big, .one, .fifth, (1 / 4, 1 / 2)⟩

def blueEngineer : Armor (ℚ × ℚ) := ⟨.blue, .small, .two, .fifth, (1 / 2, 1 / 2)⟩

/-- Two cameras see one armor each, the second that of a teammate. -/
def enemyAndTeammate : List (DetectionResult (ℚ × ℚ)) := [⟨[redHero], 0, 0, 0⟩, ⟨[blueEngineer], 0, 0, 0⟩]

theorem teammate_in_view_front_of_empty :
    (∀ dr ∈ enemyAndTeammate, dr.armors ≠ []) ∧
    ¬ ∃ sorted, (Decider.init sentryConfig).sort? .insertion enemyAndTeammate = some sorted ∧
      (sorted.filterMap Decider.frontPriority?).Pairwise (· ≤ ·) := by
  refine ⟨by decide, ?_⟩
  rintro ⟨sorted, hsort, -⟩
  have hnone : (Decider.init sentryConfig).sort? .insertion enemyAndTeammate = none := by decide +kernel
  rw [hnone] at hsort
  cases hsort

end SpVision
