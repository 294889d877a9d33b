import Mathlib.Analysis.SpecialFunctions.Complex.Arg
import Mathlib.Data.Sign.Basic
import SpVision.Tools.Spherical
import SpVision.Tracker.StateVector

set_option autoImplicit false

/-!
# The choice of a plate

A target that does not spin is aimed at where it faces the gun, a spinning one only where its plates
come in. An access outside the list of plates is none.
-/
namespace SpVision

structure AimPoint (K : Type) where
  valid : Bool
  xyza : (K × K × K) × K
  deriving DecidableEq, Repr

structure Aimer (K : Type) where
  commingAngle : K
  leavingAngle : K
  lockId : ℤ := -1
  deriving DecidableEq, Repr

namespace Aimer

variable {K : Type} [Field K] [LinearOrder K] [IsStrictOrderedRing K] [FloorRing K]

/-- The angle between a plate and the line to the centre of the target. -/
def deltaAngle (trig : Trig K) (x : StateVector K) (xyza : (K × K × K) × K) : K :=
  limitRad (cvPi K) (xyza.2 - trig.atan2 (x 2) (x 0))

/-- `id_list` -/
def idList (deltaAngleList : List K) : List ℕ :=
  (List.range deltaAngleList.length).filter fun i => ¬ |deltaAngleList.getD i 0| > (60 : ℕ) / 57.3

/-- The tests of the last loop. -/
def meets (comingAngle leavingAngle w delta : K) : Bool :=
  ¬ |delta| > comingAngle ∧ (w > 0 ∧ delta < leavingAngle ∨ w < 0 ∧ delta > -leavingAngle)

/-- The branch of `choose_aim_point` for a target that does not spin. -/
def chooseFacing (aimer : Aimer K) (armorXyzaList : List ((K × K × K) × K)) (deltaAngleList : List K) :
    Option (AimPoint K × Aimer K) :=
  match idList deltaAngleList with
  | [] => armorXyzaList[0]?.map fun xyza => (⟨false, xyza⟩, aimer)
  | [id0] => armorXyzaList[id0]?.map fun xyza => (⟨true, xyza⟩, { aimer with lockId := -1 })
  | id0 :: id1 :: _ =>
    let lockId : ℤ :=
      if aimer.lockId ≠ id0 ∧ aimer.lockId ≠ id1 then
        if |deltaAngleList.getD id0 0| < |deltaAngleList.getD id1 0| then id0 else id1
      else aimer.lockId
    armorXyzaList[lockId.toNat]?.map fun xyza => (⟨true, xyza⟩, { aimer with lockId := lockId })

/-- The loop of `choose_aim_point` over the plates of a spinning target. -/
def chooseSpinning (aimer : Aimer K) (comingAngle leavingAngle w : K) (armorXyzaList : List ((K × K × K) × K))
    (deltaAngleList : List K) : Option (AimPoint K × Aimer K) :=
  match (List.range armorXyzaList.length).find? fun i =>
    meets comingAngle leavingAngle w (deltaAngleList.getD i 0) with
  | some i => armorXyzaList[i]?.map fun xyza => (⟨true, xyza⟩, aimer)
  | none => armorXyzaList[0]?.map fun xyza => (⟨false, xyza⟩, aimer)

/-- `Aimer::choose_aim_point`, with the `lock_id_` that it leaves. -/
def chooseAimPoint (trig : Trig K) (aimer : Aimer K) (target : Target (TargetEstimate (StateVector K))) :
    Option (AimPoint K × Aimer K) :=
  let ekfX := target.estimate.ekf
  let armorXyzaList := ekfX.armorXyzaList trig target.estimate.armorNum
  if ¬ target.estimate.jumped then armorXyzaList[0]?.map fun xyza => (⟨true, xyza⟩, aimer)
  else
    let deltaAngleList := armorXyzaList.map (deltaAngle trig ekfX)
    if |ekfX 8| ≤ (2 : ℕ) ∧ target.name ≠ .outpost then chooseFacing aimer armorXyzaList deltaAngleList
    else if target.name = .outpost then
      chooseSpinning aimer ((70 : ℕ) / 57.3) ((30 : ℕ) / 57.3) (ekfX 7) armorXyzaList deltaAngleList
    else chooseSpinning aimer aimer.commingAngle aimer.leavingAngle (ekfX 7) armorXyzaList deltaAngleList

/-! ### The window of a spinning target -/

/-- A plate that comes in and has not begun to leave. -/
def InWindow (aimer : Aimer K) (w delta : K) : Prop :=
  |delta| ≤ aimer.commingAngle ∧ delta * (SignType.sign w : K) < aimer.leavingAngle

/-- Only a plate in the window is aimed at, and none if there is none. -/
def KeepsToWindow (aimer : Aimer K) (w : K) (delta : (K × K × K) × K → K) (armorXyzaList : List ((K × K × K) × K))
    (choice : Option (AimPoint K × Aimer K)) : Prop :=
  ∃ point aimer', choice = some (point, aimer') ∧
    (point.valid = true → point.xyza ∈ armorXyzaList ∧ aimer.InWindow w (delta point.xyza)) ∧
    ((∀ xyza ∈ armorXyzaList, ¬ aimer.InWindow w (delta xyza)) → point.valid = false)

def AimsInWindow (trig : Trig K) (aimer : Aimer K) (target : Target (TargetEstimate (StateVector K))) : Prop :=
  KeepsToWindow aimer (target.estimate.ekf 7) (deltaAngle trig target.estimate.ekf)
    (target.estimate.ekf.armorXyzaList trig target.estimate.armorNum) (aimer.chooseAimPoint trig target)

/-- Whether the rule for a target that does not spin happens to keep to the window. -/
def FacingInWindow (aimer : Aimer K) (w : K) (deltaAngleList : List K) : Prop :=
  match idList deltaAngleList with
  | [] => True
  | [id0] => aimer.InWindow w (deltaAngleList.getD id0 0)
  | id0 :: id1 :: _ =>
    if aimer.lockId = id0 then aimer.InWindow w (deltaAngleList.getD id0 0)
    else if aimer.lockId = id1 then aimer.InWindow w (deltaAngleList.getD id1 0)
    else if |deltaAngleList.getD id0 0| < |deltaAngleList.getD id1 0| then
      aimer.InWindow w (deltaAngleList.getD id0 0)
    else aimer.InWindow w (deltaAngleList.getD id1 0)

section Window

omit [IsStrictOrderedRing K] [FloorRing K]

variable {aimer : Aimer K} {w : K} {delta : (K × K × K) × K → K} {armorXyzaList : List ((K × K × K) × K)}

theorem meets_iff [IsStrictOrderedRing K] {delta : K} (hw : w ≠ 0) :
    meets aimer.commingAngle aimer.leavingAngle w delta = true ↔ aimer.InWindow w delta := by
  rw [meets, decide_eq_true_eq, InWindow, gt_iff_lt, not_lt]
  refine and_congr_right fun _ => ?_
  rcases lt_or_gt_of_ne hw with hneg | hpos
  · rw [sign_neg hneg]
    simp [hneg, hneg.not_gt, neg_lt]
  · rw [sign_pos hpos]
    simp [hpos, hpos.not_gt]

theorem lt_of_mem_idList {deltaAngleList : List K} {i : ℕ} (h : i ∈ idList deltaAngleList) :
    i < deltaAngleList.length := List.mem_range.mp (List.mem_of_mem_filter h)

omit [LinearOrder K] in
theorem getD_delta {i : ℕ} (hi : i < armorXyzaList.length) :
    (armorXyzaList.map delta).getD i 0 = delta armorXyzaList[i] := by
  rw [List.getD_eq_getElem?_getD, List.getElem?_map, List.getElem?_eq_getElem hi]
  rfl

theorem keepsToWindow_invalid (hplates : 0 < armorXyzaList.length) (aimer' : Aimer K) :
    KeepsToWindow aimer w delta armorXyzaList (armorXyzaList[0]?.map fun xyza => (⟨false, xyza⟩, aimer')) := by
  rw [List.getElem?_eq_getElem hplates]
  exact ⟨_, _, rfl, fun hvalid => absurd hvalid Bool.false_ne_true, fun _ => rfl⟩

theorem keepsToWindow_valid_iff {i : ℕ} (hi : i < armorXyzaList.length) (aimer' : Aimer K) :
    KeepsToWindow aimer w delta armorXyzaList (armorXyzaList[i]?.map fun xyza => (⟨true, xyza⟩, aimer')) ↔
      aimer.InWindow w ((armorXyzaList.map delta).getD i 0) := by
  rw [List.getElem?_eq_getElem hi, Option.map_some, getD_delta hi]
  constructor
  · rintro ⟨point, aimer'', hpoint, hvalid, -⟩
    obtain ⟨rfl, -⟩ := Prod.mk.inj (Option.some.inj hpoint)
    exact (hvalid rfl).2
  · intro hwindow
    refine ⟨_, _, rfl, fun _ => ⟨List.getElem_mem hi, hwindow⟩, fun hnone => ?_⟩
    exact absurd hwindow (hnone _ (List.getElem_mem hi))

theorem chooseSpinning_window [IsStrictOrderedRing K] (hplates : 0 < armorXyzaList.length) (hw : w ≠ 0) :
    KeepsToWindow aimer w delta armorXyzaList
      (chooseSpinning aimer aimer.commingAngle aimer.leavingAngle w armorXyzaList (armorXyzaList.map delta)) := by
  rw [chooseSpinning]
  split
  next i hfind =>
    have hi : i < armorXyzaList.length := List.mem_range.mp (List.mem_of_find?_eq_some hfind)
    rw [keepsToWindow_valid_iff hi, ← meets_iff hw]
    have hmeets := List.find?_some hfind
    exact hmeets
  next => exact keepsToWindow_invalid hplates aimer

theorem chooseFacing_window_iff (hplates : 0 < armorXyzaList.length) :
    KeepsToWindow aimer w delta armorXyzaList (chooseFacing aimer armorXyzaList (armorXyzaList.map delta)) ↔
      aimer.FacingInWindow w (armorXyzaList.map delta) := by
  have hbound : ∀ i ∈ idList (armorXyzaList.map delta), i < armorXyzaList.length := by
    intro i hi
    rw [← List.length_map delta]
    exact lt_of_mem_idList hi
  rw [chooseFacing, FacingInWindow]
  split
  next => exact iff_of_true (keepsToWindow_invalid hplates aimer) trivial
  next id0 hids => exact keepsToWindow_valid_iff (hbound id0 (hids ▸ List.mem_singleton_self id0)) _
  next id0 id1 rest hids =>
    have hid0 : id0 < armorXyzaList.length := hbound id0 (by simp [hids])
    have hid1 : id1 < armorXyzaList.length := hbound id1 (by simp [hids])
    dsimp only
    by_cases hlock0 : aimer.lockId = id0
    · rw [if_neg fun hfree => hfree.1 hlock0, if_pos hlock0, hlock0]
      exact keepsToWindow_valid_iff hid0 _
    · by_cases hlock1 : aimer.lockId = id1
      · rw [if_neg fun hfree => hfree.2 hlock1, if_neg hlock0, if_pos hlock1, hlock1]
        exact keepsToWindow_valid_iff hid1 _
      · rw [if_pos ⟨hlock0, hlock1⟩, if_neg hlock0, if_neg hlock1]
        split_ifs
        · exact keepsToWindow_valid_iff hid0 _
        · exact keepsToWindow_valid_iff hid1 _

end Window

section Target

variable (trig : Trig K) (aimer : Aimer K) {target : Target (TargetEstimate (StateVector K))}

theorem armorXyzaList_pos (hplates : 0 < target.estimate.armorNum) :
    0 < (target.estimate.ekf.armorXyzaList trig target.estimate.armorNum).length := by
  rwa [StateVector.armorXyzaList, List.length_map, List.length_range]

/-- The test of the radius decides for the branch without spinning. -/
theorem aimsInWindow_of_small (hplates : 0 < target.estimate.armorNum) (hname : target.name ≠ .outpost)
    (hjumped : target.estimate.jumped = true) (hsmall : |target.estimate.ekf 8| ≤ (2 : ℕ)) :
    AimsInWindow trig aimer target ↔ aimer.FacingInWindow (target.estimate.ekf 7)
      ((target.estimate.ekf.armorXyzaList trig target.estimate.armorNum).map
        (deltaAngle trig target.estimate.ekf)) := by
  rw [AimsInWindow, chooseAimPoint]
  dsimp only
  rw [if_neg (not_not.mpr hjumped), if_pos ⟨hsmall, hname⟩, chooseFacing_window_iff (armorXyzaList_pos trig hplates)]

theorem aimsInWindow_of_large (hplates : 0 < target.estimate.armorNum) (hname : target.name ≠ .outpost)
    (hjumped : target.estimate.jumped = true) (hturns : target.estimate.ekf 7 ≠ 0)
    (hlarge : (2 : ℕ) < |target.estimate.ekf 8|) : AimsInWindow trig aimer target := by
  rw [AimsInWindow, chooseAimPoint]
  dsimp only
  rw [if_neg (not_not.mpr hjumped), if_neg fun hfacing => not_lt.mpr hfacing.1 hlarge, if_neg hname]
  exact chooseSpinning_window (armorXyzaList_pos trig hplates) hturns

end Target

/-- A spinning target is aimed at in its window exactly if the test of its radius lets it through, or if the rule for
    a target that does not spin keeps to the window. -/
theorem chooseAimPoint_window_iff (trig : Trig K) (aimer : Aimer K)
    (target : Target (TargetEstimate (StateVector K))) (hplates : 0 < target.estimate.armorNum)
    (hname : target.name ≠ .outpost) (hjumped : target.estimate.jumped = true)
    (hspin : (2 : ℕ) < |target.estimate.ekf 7|) :
    AimsInWindow trig aimer target ↔ (2 : ℕ) < |target.estimate.ekf 8| ∨
      aimer.FacingInWindow (target.estimate.ekf 7)
        ((target.estimate.ekf.armorXyzaList trig target.estimate.armorNum).map
          (deltaAngle trig target.estimate.ekf)) := by
  have hturns : target.estimate.ekf 7 ≠ 0 := abs_pos.mp ((Nat.cast_nonneg _).trans_lt hspin)
  by_cases hlarge : (2 : ℕ) < |target.estimate.ekf 8|
  · exact iff_of_true (aimsInWindow_of_large trig aimer hplates hname hjumped hturns hlarge) (.inl hlarge)
  · rw [aimsInWindow_of_small trig aimer hplates hname hjumped (not_lt.mp hlarge), or_iff_right hlarge]

/-! ### A spinning target with two plates -/

noncomputable def realTrig : Trig ℝ where
  cos := Real.cos
  sin := Real.sin
  atan2 y x := Complex.arg ⟨x, y⟩

/-- A target straight ahead that turns at ten radians a second, with a plate at the angle `a`. -/
noncomputable def twoPlates (a : ℝ) : Target (TargetEstimate (StateVector ℝ)) where
  name := .three
  armorType := .big
  priority := .second
  estimate := { armorNum := 2, ekf := ![3.0, 0, 0, 0, 0, 0, a, 10.0, 0.2, 0, 0], t := 0, jumped := true }

noncomputable def twentyDegrees : Aimer ℝ where
  commingAngle := 60.0 / 57.3
  leavingAngle := 20.0 / 57.3

theorem cvPi_bounds : 3 < (cvPi ℝ).val ∧ (cvPi ℝ).val < 4 := by
  constructor <;> norm_num [cvPi]

theorem twoPlates_deltas {a : ℝ} (hlow : 0 < a) (hhigh : a < 1) :
    ((twoPlates a).estimate.ekf.armorXyzaList realTrig 2).map (deltaAngle realTrig (twoPlates a).estimate.ekf) =
      [a, a - (cvPi ℝ).val] := by
  obtain ⟨hpi, hpi'⟩ := cvPi_bounds
  have hcenter : Complex.arg ⟨3.0, 0⟩ = 0 := Complex.arg_ofReal_of_nonneg (by norm_num)
  have hnear : limitRad (cvPi ℝ) a = a := limitRad_of_mem _ ⟨by linarith, by linarith⟩
  have hfar : limitRad (cvPi ℝ) (a + (cvPi ℝ).val) = a - (cvPi ℝ).val :=
    limitRad_eq _ ⟨by linarith, by linarith⟩ ⟨1, by rw [one_smul]; ring⟩
  have hfar' : limitRad (cvPi ℝ) (a - (cvPi ℝ).val) = a - (cvPi ℝ).val :=
    limitRad_of_mem _ ⟨by linarith, by linarith⟩
  simp [StateVector.armorXyzaList, List.range_succ, deltaAngle, realTrig, twoPlates, hcenter, hnear, hfar, hfar']

theorem twoPlates_idList {a : ℝ} (hlow : 0 < a) (hhigh : a < 1) : idList [a, a - (cvPi ℝ).val] = [0] := by
  obtain ⟨hpi, -⟩ := cvPi_bounds
  have hnear : |a| ≤ 60 / 57.3 := by
    rw [abs_of_pos hlow]
    norm_num
    linarith
  have hfar : 60 / 57.3 < |a - (cvPi ℝ).val| := by
    rw [abs_of_neg (by linarith)]
    norm_num
    linarith
  simp [idList, List.range_succ, hnear, hfar]

theorem twoPlates_facing {a : ℝ} (hlow : 0 < a) (hhigh : a < 1) :
    twentyDegrees.FacingInWindow ((twoPlates a).estimate.ekf 7) [a, a - (cvPi ℝ).val] ↔ a < 20.0 / 57.3 := by
  have hnear : |a| ≤ 60.0 / 57.3 := by
    rw [abs_of_pos hlow]
    norm_num
    linarith
  have hsign : (SignType.sign (10.0 : ℝ) : ℝ) = 1 := by
    rw [sign_pos (by norm_num)]
    rfl
  rw [FacingInWindow, twoPlates_idList hlow hhigh]
  change InWindow twentyDegrees 10.0 a ↔ _
  rw [InWindow, hsign, mul_one, twentyDegrees]
  exact and_iff_right hnear

theorem twoPlates_spin (a : ℝ) : (2 : ℕ) < |(twoPlates a).estimate.ekf 7| := by
  have hspeed : (twoPlates a).estimate.ekf 7 = 10.0 := rfl
  rw [hspeed]
  norm_num

/-- A plate that has not begun to leave. -/
theorem chooseAimPoint_window_ahead : AimsInWindow realTrig twentyDegrees (twoPlates 0.1) := by
  have hwindow := chooseAimPoint_window_iff realTrig twentyDegrees (twoPlates 0.1) Nat.two_pos nofun rfl
    (twoPlates_spin _)
  have hfacing := twoPlates_facing (a := 0.1) (by norm_num) (by norm_num)
  rw [← twoPlates_deltas (by norm_num) (by norm_num)] at hfacing
  exact hwindow.mpr (.inr (hfacing.mpr (by norm_num)))

/-- A plate that leaves is aimed at all the same. -/
theorem chooseAimPoint_leaving : (2 : ℕ) < |(twoPlates 0.7).estimate.ekf 7| ∧
    ¬ AimsInWindow realTrig twentyDegrees (twoPlates 0.7) := by
  refine ⟨twoPlates_spin _, ?_⟩
  have hradius : (twoPlates 0.7).estimate.ekf 8 = 0.2 := rfl
  have hfacing := twoPlates_facing (a := 0.7) (by norm_num) (by norm_num)
  rw [← twoPlates_deltas (by norm_num) (by norm_num)] at hfacing
  have hsmall : |(twoPlates 0.7).estimate.ekf 8| ≤ (2 : ℕ) := by
    rw [hradius]
    norm_num
  intro hwindow
  have hname : (twoPlates 0.7).name ≠ .outpost := nofun
  have hless := hfacing.mp ((aimsInWindow_of_small realTrig twentyDegrees Nat.two_pos hname rfl hsmall).mp hwindow)
  norm_num at hless

end Aimer
end SpVision
