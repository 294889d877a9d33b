import SpVision.Library.Rotations
import SpVision.Tools.Eulers

set_option autoImplicit false

/-!
# Rotation matrices

The matrix of a yaw, a pitch and a roll. The quaternion of a matrix is a parameter.
-/
namespace SpVision

open Matrix Quaternion

section Model

variable {K : Type} [Field K] [LinearOrder K] [IsStrictOrderedRing K] [FloorRing K]

omit [LinearOrder K] [IsStrictOrderedRing K] [FloorRing K] in
/-- `tools::rotation_matrix` -/
def rotationMatrix (m : Trig K) (ypr : K × K × K) : Matrix (Fin 3) (Fin 3) K :=
  let roll := ypr.2.2
  let pitch := ypr.2.1
  let yaw := ypr.1
  let cosYaw := m.cos yaw
  let sinYaw := m.sin yaw
  let cosPitch := m.cos pitch
  let sinPitch := m.sin pitch
  let cosRoll := m.cos roll
  let sinRoll := m.sin roll
  !![cosYaw * cosPitch, cosYaw * sinPitch * sinRoll - sinYaw * cosRoll, cosYaw * sinPitch * cosRoll + sinYaw * sinRoll;
    sinYaw * cosPitch, sinYaw * sinPitch * sinRoll + cosYaw * cosRoll, sinYaw * sinPitch * cosRoll - cosYaw * sinRoll;
    -sinPitch, cosPitch * sinRoll, cosPitch * cosRoll]

/-- `tools::eulers` of a matrix, for a quaternion of it. -/
def eulersOfMatrix (half : HalfTurn K) (m : EulerMath K) (quaternion : Matrix (Fin 3) (Fin 3) K → ℍ[K])
    (R : Matrix (Fin 3) (Fin 3) K) (axes : EulerAxes) (extrinsic : Bool) : K × K × K :=
  eulers half m (quaternion R) axes extrinsic

end Model

/-- The axes of yaw, pitch and roll. -/
def EulerAxes.zyx : EulerAxes := ⟨2, 1, 0, by decide, by decide⟩

namespace Eulers

open AxisTurns Rotations Trajectory

/-! ### The turns about the axes -/

section Elementary

variable (t : ℝ)

theorem cos_eq_half : Real.cos t = Real.cos (t / 2) * Real.cos (t / 2) - Real.sin (t / 2) * Real.sin (t / 2) := by
  rw [← Real.cos_add, add_halves]

theorem sin_eq_half : Real.sin t = 2 * (Real.sin (t / 2) * Real.cos (t / 2)) := by
  rw [← mul_assoc, ← Real.sin_two_mul, mul_div_cancel₀ _ two_ne_zero]

theorem rotates_roll : Rotates !![1, 0, 0; 0, Real.cos t, -Real.sin t; 0, Real.sin t, Real.cos t] (turn (axis 0) t) := by
  refine ⟨norm_turn 0 t, fun v => ?_⟩
  have hone := Real.sin_sq_add_cos_sq (t / 2)
  ext <;> simp [turn_eq, cos_eq_half t, sin_eq_half t, dotProduct, Fin.sum_univ_succ]
  · ring
  · linear_combination -(v 0) * hone
  · ring
  · ring

theorem rotates_pitch : Rotates !![Real.cos t, 0, Real.sin t; 0, 1, 0; -Real.sin t, 0, Real.cos t] (turn (axis 1) t) := by
  refine ⟨norm_turn 1 t, fun v => ?_⟩
  have hone := Real.sin_sq_add_cos_sq (t / 2)
  ext <;> simp [turn_eq, cos_eq_half t, sin_eq_half t, dotProduct, Fin.sum_univ_succ]
  · ring
  · ring
  · linear_combination -(v 1) * hone
  · ring

theorem rotates_yaw : Rotates !![Real.cos t, -Real.sin t, 0; Real.sin t, Real.cos t, 0; 0, 0, 1] (turn (axis 2) t) := by
  refine ⟨norm_turn 2 t, fun v => ?_⟩
  have hone := Real.sin_sq_add_cos_sq (t / 2)
  ext <;> simp [turn_eq, cos_eq_half t, sin_eq_half t, dotProduct, Fin.sum_univ_succ]
  · ring
  · ring
  · ring
  · linear_combination -(v 2) * hone

end Elementary

theorem norm_turn_vector {u : Fin 3 → ℝ} (hu : u ⬝ᵥ u = 1) (t : ℝ) : ‖turn (vector u) t‖ = 1 := by
  have hone := Real.sin_sq_add_cos_sq (t / 2)
  have hsquare : ‖turn (vector u) t‖ * ‖turn (vector u) t‖ = 1 := by
    rw [← normSq_eq_norm_mul_self, normSq_def']
    simp [dotProduct, Fin.sum_univ_succ] at hu
    simp [turn_eq]
    linear_combination hone + Real.sin (t / 2) ^ 2 * hu
  nlinarith [norm_nonneg (turn (vector u) t)]

theorem rotates_rotationMatrix (ypr : ℝ × ℝ × ℝ) :
    Rotates (rotationMatrix realMath.toTrig ypr) (turnsOf .zyx false ypr) := by
  have hturns := ((rotates_yaw ypr.1).mul (rotates_pitch ypr.2.1)).mul (rotates_roll ypr.2.2)
  have hmatrix : rotationMatrix realMath.toTrig ypr =
      !![Real.cos ypr.1, -Real.sin ypr.1, 0; Real.sin ypr.1, Real.cos ypr.1, 0; 0, 0, 1] *
        !![Real.cos ypr.2.1, 0, Real.sin ypr.2.1; 0, 1, 0; -Real.sin ypr.2.1, 0, Real.cos ypr.2.1] *
          !![1, 0, 0; 0, Real.cos ypr.2.2, -Real.sin ypr.2.2; 0, Real.sin ypr.2.2, Real.cos ypr.2.2] := by
    ext i j
    fin_cases i <;> fin_cases j <;> simp [rotationMatrix, realMath, Matrix.mul_apply, Fin.sum_univ_succ] <;> ring
  rw [hmatrix]
  exact hturns

theorem shift_zyx : shift .zyx = Real.pi / 2 := rfl

theorem outer_zyx : outer (oriented .zyx false) = 1 := by
  have hsign : (oriented .zyx false).sign = 1 := by decide
  change ((oriented .zyx false).sign : ℝ) = 1
  rw [hsign, Int.cast_one]

/-- A yaw and a roll within a turn, and a pitch that is not upright. -/
def InRange (ypr : ℝ × ℝ × ℝ) : Prop :=
  ypr.1 ∈ Set.Ioc (-Real.pi) Real.pi ∧ ypr.2.1 ∈ Set.Icc (-(Real.pi / (2 : ℕ)) + 1e-7) (Real.pi / (2 : ℕ) - 1e-7) ∧
    ypr.2.2 ∈ Set.Ioc (-Real.pi) Real.pi

theorem clear_zyx {ypr : ℝ × ℝ × ℝ} :
    Clear .zyx ypr ↔ ypr.2.1 ∈ Set.Icc (-(Real.pi / 2) + 1e-7) (Real.pi / 2 - 1e-7) := by
  rw [Clear, shift_zyx, Set.mem_Icc, Set.mem_Icc]
  constructor <;> rintro ⟨hlow, hhigh⟩ <;> constructor <;> linarith

theorem principal_zyx {ypr : ℝ × ℝ × ℝ} : Principal .zyx false ypr ↔
    ypr.2.2 ∈ Set.Ioc (-Real.pi) Real.pi ∧ ypr.1 ∈ Set.Ioc (-Real.pi) Real.pi := by
  unfold Principal
  dsimp only
  rw [outer_zyx, mul_one]
  rfl

section Matrices

variable {quaternion : Matrix (Fin 3) (Fin 3) ℝ → ℍ[ℝ]} (hquaternion : ∀ {R q}, Rotates R q → Rotates R (quaternion R))
include hquaternion

/-- The angles of a rotation are a yaw and a roll within a turn, and make up the rotation unless it is upright. -/
theorem rotationMatrix_eulers {R : Matrix (Fin 3) (Fin 3) ℝ} {q : ℍ[ℝ]} (hR : Rotates R q) :
    let ypr := eulersOfMatrix piHalf realEulerMath quaternion R .zyx false
    ypr.1 ∈ Set.Ioc (-Real.pi) Real.pi ∧ ypr.2.2 ∈ Set.Ioc (-Real.pi) Real.pi ∧
      (ypr.2.1 ∈ Set.Icc (-(Real.pi / 2) + 1e-7) (Real.pi / 2 - 1e-7) → rotationMatrix realMath.toTrig ypr = R) := by
  intro ypr
  have hR' := hquaternion hR
  obtain ⟨hprincipal, -, s, hs, -, hturns⟩ := eulers_near .zyx false hR'.unit
  obtain ⟨hroll, hyaw⟩ := principal_zyx.mp hprincipal
  refine ⟨hyaw, hroll, fun hpitch => ?_⟩
  have hquat := hturns (clear_zyx.mpr hpitch)
  have hrotates := rotates_rotationMatrix ypr
  rcases hs with rfl | rfl
  · rw [one_smul] at hquat
    exact hrotates.matrix_eq (hquat ▸ hR')
  · rw [neg_one_smul] at hquat
    exact hrotates.neg.matrix_eq (hquat ▸ hR')

/-- Angles in range are those of their rotation. -/
theorem eulers_rotationMatrix {ypr : ℝ × ℝ × ℝ} (hrange : InRange ypr) :
    eulersOfMatrix piHalf realEulerMath quaternion (rotationMatrix realMath.toTrig ypr) .zyx false = ypr := by
  have hrotates := rotates_rotationMatrix ypr
  obtain ⟨hyaw, hpitch, hroll⟩ := hrange
  have hback (s : ℝ) (hs : s ≠ 0) :=
    eulers_turnsOf (principal_zyx.mpr ⟨hroll, hyaw⟩) (clear_zyx.mpr hpitch) hs
  unfold eulersOfMatrix
  rcases hrotates.eq_or_neg (hquaternion hrotates) with hsame | hneg
  · rw [hsame, ← one_smul ℝ (turnsOf _ _ _)]
    exact hback 1 one_ne_zero
  · rw [hneg, ← neg_one_smul ℝ (turnsOf _ _ _)]
    exact hback (-1) (by norm_num)

/-- Angles and rotations go into each other, off the upright pitch, for any quaternion of a rotation. -/
theorem eulersOfMatrix_inverse :
    (∀ R q, Rotates R q →
      let ypr := eulersOfMatrix piHalf realEulerMath quaternion R .zyx false
      ypr.1 ∈ Set.Ioc (-Real.pi) Real.pi ∧ ypr.2.2 ∈ Set.Ioc (-Real.pi) Real.pi ∧
        (ypr.2.1 ∈ Set.Icc (-(Real.pi / 2) + 1e-7) (Real.pi / 2 - 1e-7) → rotationMatrix realMath.toTrig ypr = R)) ∧
    ∀ ypr, InRange ypr →
      eulersOfMatrix piHalf realEulerMath quaternion (rotationMatrix realMath.toTrig ypr) .zyx false = ypr :=
  ⟨fun _ _ => rotationMatrix_eulers hquaternion, fun _ => eulers_rotationMatrix hquaternion⟩

end Matrices

theorem eulersOfMatrix_inverse_yaw : eulersOfMatrix piHalf realEulerMath quaternionOf
    (rotationMatrix realMath.toTrig (1, 0.5, -1)) .zyx false = (1, 0.5, -1) := by
  have hpi := Real.two_le_pi
  refine (eulersOfMatrix_inverse rotates_quaternionOf).2 (1, 0.5, -1) ⟨⟨?_, ?_⟩, ⟨?_, ?_⟩, ?_, ?_⟩ <;> norm_num <;> linarith

end Eulers

end SpVision
