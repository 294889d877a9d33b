import SpVision.Library.StableSort
import SpVision.Omni.Decider

set_option autoImplicit false

/-!
# The angles of a detection result

They are computed when the armors are detected. The decider filters and reorders the armors later.
-/
namespace SpVision

/-- What an image says about an armor: its camera and its place in the image. -/
structure ImageView (β : Type) where
  camera : β → String
  centerNorm : β → ℚ × ℚ

variable {β : Type}

structure CameraFrame (v : ImageView β) where
  camera : String
  armors : List (Armor β)
  timestamp : ℤ
  seen : ∀ armor ∈ armors, v.camera armor.view = camera

namespace Decider

variable (d : Decider) (v : ImageView β)

/-- A turn of the loop of `Perceptron::parallel_infer`; an image without armors is not passed on. -/
def parallelInfer (frame : CameraFrame v) : Option (DetectionResult β) :=
  (d.deltaAngle v.centerNorm frame.armors frame.camera).map fun deltaAngle =>
    { armors := frame.armors
      timestamp := frame.timestamp
      deltaYaw := deltaAngle.1 / 57.3
      deltaPitch := deltaAngle.2 / 57.3 }

/-- The angles of a result are those of its first armor. -/
def Steers (dr : DetectionResult β) : Prop :=
  ∀ front ∈ dr.armors.head?, ∀ angle ∈ d.deltaAngle v.centerNorm dr.armors (v.camera front.view),
    dr.deltaYaw = angle.1 / 57.3 ∧ dr.deltaPitch = angle.2 / 57.3

/-- The first of the armors that are kept with the highest priority. -/
def selected (armors : List (Armor β)) : Option (Armor β) :=
  (armors.filter (d.Keeps ·)).argmin fun armor => d.priorityMap armor.name

def seenAt (armor : Armor β) : ℚ × ℚ :=
  d.angleTo (v.camera armor.view) (v.centerNorm armor.view).1 (v.centerNorm armor.view).2

theorem steers_iff (dr : DetectionResult β) : d.Steers v dr ↔
    ∀ front ∈ dr.armors.head?,
      dr.deltaYaw = (d.seenAt v front).1 / 57.3 ∧ dr.deltaPitch = (d.seenAt v front).2 / 57.3 := by
  unfold Steers
  refine forall₂_congr fun front hfront => ?_
  have hangle : d.deltaAngle v.centerNorm dr.armors (v.camera front.view) = some (d.seenAt v front) := by
    rw [deltaAngle, Option.mem_def.mp hfront]
    rfl
  simp only [hangle, Option.mem_some_iff, forall_eq']

/-- The command is for the first armor of the first result. -/
theorem decide_of_steers {dr : DetectionResult β} (h : d.Steers v dr) (rest : List (DetectionResult β))
    {front : Armor β} (hfront : front ∈ dr.armors.head?) :
    Decider.decide (dr :: rest) = ⟨true, false, (d.seenAt v front).1 / 57.3, (d.seenAt v front).2 / 57.3⟩ := by
  obtain ⟨hyaw, hpitch⟩ := (d.steers_iff v dr).mp h front hfront
  have hsome : dr.armors.isEmpty = false := by
    rw [List.isEmpty_eq_false_iff]
    exact List.ne_nil_of_mem (List.mem_of_mem_head? hfront)
  rw [Decider.decide, hsome, if_neg Bool.false_ne_true, hyaw, hpitch]

/-- The target that the tracker switches to has the angles of its first armor if the results of the queue have. -/
theorem switchTarget_steers {τ : Type} (cfg : TrackerConfig) (model : TargetModel β τ) (tr : Tracker τ)
    {queue : List (DetectionResult β)} (h : ∀ dr ∈ queue, d.Steers v dr) (frame : Frame β) :
    d.Steers v (tr.trackQueue cfg model queue frame).2.2.1 := by
  have hempty : ∀ t : ℤ, d.Steers v (⟨[], t, 0, 0⟩ : DetectionResult β) := fun _ => nofun
  have htemp : d.Steers v (queue.head?.getD ⟨[], frame.t, 0, 0⟩) := by
    cases queue with
    | nil => exact hempty frame.t
    | cons dr rest => exact h dr List.mem_cons_self
  have hchosen : (tr.trackQueue cfg model queue frame).2.2.1 =
      ((tr.largeDt frame.t).chooseOrSwitch model (queue.head?.getD ⟨[], frame.t, 0, 0⟩) frame).2.2.2 := by
    unfold Tracker.trackQueue
    dsimp only
    split_ifs <;> rfl
  rw [hchosen, Tracker.chooseOrSwitch]
  dsimp only
  split
  · exact hempty frame.t
  · exact htemp
  · exact hempty frame.t
  · exact hempty frame.t

theorem sortArmors_head? (dr : DetectionResult β) :
    (d.sortArmors dr).armors.head? =
      (d.selected dr.armors).map fun armor => { armor with priority := d.priorityMap armor.name } := by
  have hsort := List.map_insertionSort (fun a b : Armor β => d.priorityMap a.name ≤ d.priorityMap b.name)
    (fun a b : Armor β => a.priority ≤ b.priority)
    (fun armor => { armor with priority := d.priorityMap armor.name }) (dr.armors.filter (d.Keeps ·))
    fun _ _ _ _ => Iff.rfl
  rw [sortArmors, setPriority, armorFilter_fst, ← hsort, List.head?_map, head?_insertionSort, selected]

/-- Filtering and sorting keeps the angles right if and only if the first armor of the image was seen where the
    selected one was. -/
theorem steers_sortArmors_iff {frame : CameraFrame v} {dr : DetectionResult β} (h : d.parallelInfer v frame = some dr) :
    d.Steers v (d.sortArmors dr) ↔
      ∀ first ∈ frame.armors.head?, ∀ best ∈ d.selected frame.armors, d.seenAt v first = d.seenAt v best := by
  obtain ⟨angle, hangle, rfl⟩ := Option.map_eq_some_iff.mp h
  obtain ⟨first, hfirst, rfl⟩ := Option.map_eq_some_iff.mp hangle
  have hcamera : v.camera first.view = frame.camera := frame.seen first (List.mem_of_mem_head? hfirst)
  rw [steers_iff, sortArmors_head?, hfirst]
  simp only [Option.mem_def, Option.map_eq_some_iff, Option.some.injEq, forall_exists_index, and_imp,
    forall_apply_eq_imp_iff₂, forall_eq']
  refine forall₂_congr fun best _ => ?_
  rw [seenAt, seenAt, hcamera, Prod.ext_iff]
  exact and_congr (div_left_inj' (by norm_num)) (div_left_inj' (by norm_num))

theorem parallelInfer_congr {d d' : Decider} (hH : d.newFovH = d'.newFovH) (hV : d.newFovV = d'.newFovV)
    (frame : CameraFrame v) : d.parallelInfer v frame = d'.parallelInfer v frame := by
  simp only [parallelInfer, deltaAngle, angleTo, hH, hV]

end Decider

/-- The perceptron and the main loop have a decider each, from the same file. After the sort every result has the
    angles of its first armor if and only if the sort goes through and the armor selected from each image was seen
    where the first armor of that image was. -/
theorem decider_sort_steers_iff (v : ImageView β) (cfg : DeciderConfig) (color : Color) (ids : List Int8)
    (sorter : ComparisonSort) (frames : List (CameraFrame v)) :
    let d := ((Decider.init cfg).setEnemyColor color).getInvincibleArmor ids
    let queue := frames.filterMap ((Decider.init cfg).parallelInfer v)
    (∃ sorted, d.sort? sorter queue = some sorted ∧ ∀ dr ∈ sorted, d.Steers v dr) ↔
      (queue.length ≤ 1 ∨ ∀ dr ∈ queue, ∃ armor ∈ dr.armors, d.Keeps armor) ∧
      ∀ frame ∈ frames, ∀ first ∈ frame.armors.head?, ∀ best ∈ d.selected frame.armors,
        d.seenAt v first = d.seenAt v best := by
  intro d queue
  have hqueue : ∀ frame, (Decider.init cfg).parallelInfer v frame = d.parallelInfer v frame :=
    Decider.parallelInfer_congr v rfl rfl
  have hsteers : (∀ dr ∈ queue.map d.sortArmors, d.Steers v dr) ↔ ∀ frame ∈ frames, ∀ first ∈ frame.armors.head?,
      ∀ best ∈ d.selected frame.armors, d.seenAt v first = d.seenAt v best := by
    rw [List.forall_mem_map]
    constructor
    · intro hall frame hframe first hfirst
      have hsome : (d.parallelInfer v frame).isSome := by
        rw [Decider.parallelInfer, Decider.deltaAngle, Option.isSome_map, Option.isSome_map, Option.isSome_iff_exists]
        exact ⟨first, hfirst⟩
      obtain ⟨dr, hdr⟩ := Option.isSome_iff_exists.mp hsome
      have hmem : dr ∈ queue := List.mem_filterMap.mpr ⟨frame, hframe, (hqueue frame).trans hdr⟩
      exact (d.steers_sortArmors_iff v hdr).mp (hall dr hmem) first hfirst
    · intro hall dr hdr
      obtain ⟨frame, hframe, hinfer⟩ := List.mem_filterMap.mp hdr
      exact (d.steers_sortArmors_iff v ((hqueue frame).symm.trans hinfer)).mpr (hall frame hframe)
  rw [← d.sort?_isSome_iff sorter, ← hsteers, Option.isSome_iff_exists]
  constructor
  · rintro ⟨sorted, hsort, hall⟩
    exact ⟨⟨sorted, hsort⟩, fun dr hdr => hall dr ((d.sort?_perm hsort).mem_iff.mpr hdr)⟩
  · rintro ⟨⟨sorted, hsort⟩, hall⟩
    exact ⟨sorted, hsort, fun dr hdr => hall dr ((d.sort?_perm hsort).mem_iff.mp hdr)⟩

def leftView : ImageView (ℚ × ℚ) := ⟨fun _ => "left", id⟩

def teammateFirst : CameraFrame leftView := ⟨"left", [blueEngineer, redHero], 0, fun _ _ => rfl⟩

/-- A teammate is the first armor of the image, an enemy the second. The result names the enemy and has the angle of
    the teammate. -/
theorem result_steers_to_teammate :
    ∃ sorted, (((Decider.init sentryConfig).setEnemyColor .red).getInvincibleArmor []).sort? .insertion
        ([teammateFirst].filterMap ((Decider.init sentryConfig).parallelInfer leftView)) = some sorted ∧
      ∃ dr ∈ sorted, dr.armors.map (·.name) = [.one] ∧
        ¬ (((Decider.init sentryConfig).setEnemyColor .red).getInvincibleArmor []).Steers leftView dr := by
  refine ⟨_, rfl, _, List.mem_singleton.mpr rfl, rfl, ?_⟩
  rw [Decider.steers_iff]
  decide +kernel

end SpVision
