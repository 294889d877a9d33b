import Mathlib.Analysis.Calculus.FDeriv.Pi
import Mathlib.Analysis.SpecialFunctions.Pow.Real
import Mathlib.Analysis.SpecialFunctions.Sqrt
import Mathlib.Analysis.SpecialFunctions.Trigonometric.Deriv
import Mathlib.LinearAlgebra.Matrix.Notation
import Mathlib.Topology.Algebra.Module.FiniteDimension
import SpVision.Library.Atan2
import SpVision.Tools.Trajectory

set_option autoImplicit false

/-!
# Yaw, pitch and distance

The changes of coordinates undo each other, and their Jacobians are their derivatives.
-/
namespace SpVision

instance neZeroThree : NeZero (3 : ℕ) := ⟨by decide⟩

/-- The further functions of `<cmath>` that an update of the filter uses. -/
structure FilterMath (K : Type) extends Cmath K where
  log : K → K
  pow : K → K → K

section Model

variable {K : Type} [Field K]

/-- `tools::xyz2ypd` -/
def xyz2ypd (m : Cmath K) (xyz : K × K × K) : K × K × K :=
  let (x, y, z) := xyz
  (m.atan2 y x, m.atan2 z (m.sqrt (x * x + y * y)), m.sqrt (x * x + y * y + z * z))

/-- `tools::xyz2ypd_jacobian` -/
def xyz2ypdJacobian (m : FilterMath K) (xyz : K × K × K) : Matrix (Fin 3) (Fin 3) K :=
  let (x, y, z) := xyz
  !![-y / (x * x + y * y), x / (x * x + y * y), 0;
    -(x * z) / ((z * z / (x * x + y * y) + 1) * m.pow (x * x + y * y) 1.5),
    -(y * z) / ((z * z / (x * x + y * y) + 1) * m.pow (x * x + y * y) 1.5),
    1 / ((z * z / (x * x + y * y) + 1) * m.pow (x * x + y * y) 0.5);
    x / m.pow (x * x + y * y + z * z) 0.5, y / m.pow (x * x + y * y + z * z) 0.5,
    z / m.pow (x * x + y * y + z * z) 0.5]

/-- `tools::ypd2xyz` -/
def ypd2xyz (trig : Trig K) (ypd : K × K × K) : K × K × K :=
  let (yaw, pitch, distance) := ypd
  (distance * trig.cos pitch * trig.cos yaw, distance * trig.cos pitch * trig.sin yaw, distance * trig.sin pitch)

/-- `tools::ypd2xyz_jacobian` -/
def ypd2xyzJacobian (trig : Trig K) (ypd : K × K × K) : Matrix (Fin 3) (Fin 3) K :=
  let (yaw, pitch, distance) := ypd
  !![distance * trig.cos pitch * -trig.sin yaw, distance * -trig.sin pitch * trig.cos yaw,
    trig.cos pitch * trig.cos yaw;
    distance * trig.cos pitch * trig.cos yaw, distance * -trig.sin pitch * trig.sin yaw,
    trig.cos pitch * trig.sin yaw;
    0, distance * trig.cos pitch, trig.sin pitch]

end Model

noncomputable def realFilterMath : FilterMath ℝ := { Trajectory.realMath with log := Real.log, pow := fun x y => x ^ y }

namespace Spherical

/-- Three coordinates as a vector. -/
def toVec (p : ℝ × ℝ × ℝ) : Fin 3 → ℝ := ![p.1, p.2.1, p.2.2]

def ofVec (v : Fin 3 → ℝ) : ℝ × ℝ × ℝ := (v 0, v 1, v 2)

theorem toVec_ofVec (v : Fin 3 → ℝ) : toVec (ofVec v) = v := by
  funext i
  fin_cases i <;> rfl

abbrev coord {n : ℕ} (j : Fin n) : (Fin n → ℝ) →L[ℝ] ℝ := ContinuousLinearMap.proj j

/-- The function has the matrix as its derivative. -/
def HasJacobian {n m : ℕ} (f : (Fin n → ℝ) → Fin m → ℝ) (J : Matrix (Fin m) (Fin n) ℝ) (v : Fin n → ℝ) : Prop :=
  HasFDerivAt f (LinearMap.toContinuousLinearMap (Matrix.toLin' J)) v

theorem hasJacobian_iff {n m : ℕ} {f : (Fin n → ℝ) → Fin m → ℝ} {J : Matrix (Fin m) (Fin n) ℝ} {v : Fin n → ℝ} :
    HasJacobian f J v ↔ ∀ i, HasFDerivAt (fun w => f w i) (∑ j, J i j • coord j) v := by
  rw [HasJacobian, hasFDerivAt_pi']
  refine forall_congr' fun i => ?_
  have hrow : (coord i).comp (LinearMap.toContinuousLinearMap (Matrix.toLin' J)) = ∑ j, J i j • coord j := by
    refine ContinuousLinearMap.ext fun w => ?_
    simp [Matrix.mulVec, dotProduct]
  rw [hrow]

theorem HasJacobian.comp {n m k : ℕ} {f : (Fin n → ℝ) → Fin m → ℝ} {g : (Fin m → ℝ) → Fin k → ℝ}
    {J : Matrix (Fin m) (Fin n) ℝ} {J' : Matrix (Fin k) (Fin m) ℝ} {v : Fin n → ℝ}
    (hg : HasJacobian g J' (f v)) (hf : HasJacobian f J v) : HasJacobian (fun w => g (f w)) (J' * J) v := by
  have hcomp := HasFDerivAt.comp v hg hf
  refine hcomp.congr_fderiv ?_
  refine ContinuousLinearMap.ext fun w => ?_
  simp [Matrix.mulVec_mulVec]

theorem HasJacobian.unique {n m : ℕ} {f : (Fin n → ℝ) → Fin m → ℝ} {J J' : Matrix (Fin m) (Fin n) ℝ}
    {v : Fin n → ℝ} (h : HasJacobian f J v) (h' : HasJacobian f J' v) : J = J' := by
  have heq := HasFDerivAt.unique h h'
  exact Matrix.toLin'.injective (LinearMap.toContinuousLinearMap.injective heq)

theorem hasFDerivAt_coord {n : ℕ} (v : Fin n → ℝ) (j : Fin n) :
    HasFDerivAt (fun w : Fin n → ℝ => w j) (coord j) v := hasFDerivAt_apply j v

theorem rpow_half (s : ℝ) : s ^ (0.5 : ℝ) = √s := by
  rw [Real.sqrt_eq_rpow]
  norm_num

theorem rpow_three_halves {s : ℝ} (hs : 0 < s) : s ^ (1.5 : ℝ) = s * √s := by
  have hsum : (1.5 : ℝ) = 1 + 0.5 := by norm_num
  rw [hsum, Real.rpow_add hs, Real.rpow_one, rpow_half]

theorem planar_pos {v : Fin 3 → ℝ} (hslit : (⟨v 0, v 1⟩ : ℂ) ∈ Complex.slitPlane) : 0 < v 0 * v 0 + v 1 * v 1 := by
  have hne := Complex.slitPlane_ne_zero hslit
  rw [← Complex.normSq_mk]
  exact Complex.normSq_pos.mpr hne

theorem hasFDerivAt_planar (v : Fin 3 → ℝ) : HasFDerivAt (fun w : Fin 3 → ℝ => w 0 * w 0 + w 1 * w 1)
    ((v 0 • coord 0 + v 0 • coord 0) + (v 1 • coord 1 + v 1 • coord 1)) v :=
  ((hasFDerivAt_coord v 0).mul (hasFDerivAt_coord v 0)).add ((hasFDerivAt_coord v 1).mul (hasFDerivAt_coord v 1))

theorem xyz2ypd_hasJacobian {v : Fin 3 → ℝ} (hslit : (⟨v 0, v 1⟩ : ℂ) ∈ Complex.slitPlane) :
    HasJacobian (fun w => toVec (xyz2ypd realFilterMath.toCmath (ofVec w))) (xyz2ypdJacobian realFilterMath (ofVec v))
      v := by
  have hpos := planar_pos hslit
  have hroot : 0 < √(v 0 * v 0 + v 1 * v 1) := Real.sqrt_pos.mpr hpos
  have hsq : √(v 0 * v 0 + v 1 * v 1) * √(v 0 * v 0 + v 1 * v 1) = v 0 * v 0 + v 1 * v 1 :=
    Real.mul_self_sqrt hpos.le
  have hall : 0 < v 0 * v 0 + v 1 * v 1 + v 2 * v 2 := add_pos_of_pos_of_nonneg hpos (mul_self_nonneg _)
  have hdist : 0 < √(v 0 * v 0 + v 1 * v 1 + v 2 * v 2) := Real.sqrt_pos.mpr hall
  rw [hasJacobian_iff]
  intro i
  fin_cases i
  · refine (Atan2.hasFDerivAt_arg (hasFDerivAt_coord v 1) (hasFDerivAt_coord v 0) hslit).congr_fderiv ?_
    refine ContinuousLinearMap.ext fun w => ?_
    simp [Fin.sum_univ_three, xyz2ypdJacobian, ofVec]
    field_simp
    ring
  · have hright : (⟨√(v 0 * v 0 + v 1 * v 1), v 2⟩ : ℂ) ∈ Complex.slitPlane := .inl hroot
    refine (Atan2.hasFDerivAt_arg (hasFDerivAt_coord v 2) ((hasFDerivAt_planar v).sqrt hpos.ne') hright).congr_fderiv ?_
    refine ContinuousLinearMap.ext fun w => ?_
    simp [Fin.sum_univ_three, xyz2ypdJacobian, ofVec, realFilterMath, rpow_three_halves hpos, rpow_half]
    generalize √(v 0 * v 0 + v 1 * v 1) = rho at hroot hsq ⊢
    rw [← hsq]
    field_simp
    ring
  · refine (((hasFDerivAt_planar v).add ((hasFDerivAt_coord v 2).mul (hasFDerivAt_coord v 2))).sqrt
      hall.ne').congr_fderiv ?_
    refine ContinuousLinearMap.ext fun w => ?_
    simp [Fin.sum_univ_three, xyz2ypdJacobian, ofVec, realFilterMath, rpow_half]
    field_simp
    ring

theorem ypd2xyz_hasJacobian (v : Fin 3 → ℝ) :
    HasJacobian (fun w => toVec (ypd2xyz realFilterMath.toTrig (ofVec w)))
      (ypd2xyzJacobian realFilterMath.toTrig (ofVec v)) v := by
  have hyaw := hasFDerivAt_coord v 0
  have hpitch := hasFDerivAt_coord v 1
  have hdistance := hasFDerivAt_coord v 2
  rw [hasJacobian_iff]
  intro i
  fin_cases i
  · refine ((hdistance.mul hpitch.cos).mul hyaw.cos).congr_fderiv (ContinuousLinearMap.ext fun w => ?_)
    simp [Fin.sum_univ_three, ypd2xyzJacobian, ofVec, realFilterMath, Trajectory.realMath]
    ring
  · refine ((hdistance.mul hpitch.cos).mul hyaw.sin).congr_fderiv (ContinuousLinearMap.ext fun w => ?_)
    simp [Fin.sum_univ_three, ypd2xyzJacobian, ofVec, realFilterMath, Trajectory.realMath]
    ring
  · refine (hdistance.mul hpitch.sin).congr_fderiv (ContinuousLinearMap.ext fun w => ?_)
    simp [Fin.sum_univ_three, ypd2xyzJacobian, ofVec, realFilterMath, Trajectory.realMath]
    ring

/-! ### There and back -/

theorem norm_mk (x y : ℝ) : ‖(⟨x, y⟩ : ℂ)‖ = √(x * x + y * y) := by
  rw [Complex.norm_def, Complex.normSq_mk]

theorem ypd2xyz_xyz2ypd (xyz : ℝ × ℝ × ℝ) :
    ypd2xyz realFilterMath.toTrig (xyz2ypd realFilterMath.toCmath xyz) = xyz := by
  obtain ⟨x, y, z⟩ := xyz
  have hrho : √(x * x + y * y) * √(x * x + y * y) = x * x + y * y :=
    Real.mul_self_sqrt (add_nonneg (mul_self_nonneg x) (mul_self_nonneg y))
  have hdistance : √(x * x + y * y + z * z) = ‖(⟨√(x * x + y * y), z⟩ : ℂ)‖ := by
    rw [norm_mk, hrho]
  have hcos : √(x * x + y * y + z * z) * Real.cos (Complex.arg ⟨√(x * x + y * y), z⟩) = √(x * x + y * y) := by
    rw [hdistance, Complex.norm_mul_cos_arg]
  have hsin : √(x * x + y * y + z * z) * Real.sin (Complex.arg ⟨√(x * x + y * y), z⟩) = z := by
    rw [hdistance, Complex.norm_mul_sin_arg]
  have hx : √(x * x + y * y) * Real.cos (Complex.arg ⟨x, y⟩) = x := by
    rw [← norm_mk, Complex.norm_mul_cos_arg]
  have hy : √(x * x + y * y) * Real.sin (Complex.arg ⟨x, y⟩) = y := by
    rw [← norm_mk, Complex.norm_mul_sin_arg]
  change (√(x * x + y * y + z * z) * Real.cos (Complex.arg ⟨√(x * x + y * y), z⟩) * Real.cos (Complex.arg ⟨x, y⟩),
    √(x * x + y * y + z * z) * Real.cos (Complex.arg ⟨√(x * x + y * y), z⟩) * Real.sin (Complex.arg ⟨x, y⟩),
    √(x * x + y * y + z * z) * Real.sin (Complex.arg ⟨√(x * x + y * y), z⟩)) = (x, y, z)
  rw [hcos, hsin, hx, hy]

theorem arg_mk {r θ : ℝ} (hr : 0 < r) (hθ : θ ∈ Set.Ioc (-Real.pi) Real.pi) :
    Complex.arg ⟨r * Real.cos θ, r * Real.sin θ⟩ = θ := by
  have hpolar : (⟨r * Real.cos θ, r * Real.sin θ⟩ : ℂ) = r * (Complex.cos θ + Complex.sin θ * Complex.I) := by
    apply Complex.ext <;> simp [← Complex.ofReal_cos, ← Complex.ofReal_sin]
  rw [hpolar, Complex.arg_mul_cos_add_sin_mul_I hr hθ]

theorem xyz2ypd_ypd2xyz {yaw pitch distance : ℝ} (hyaw : yaw ∈ Set.Ioc (-Real.pi) Real.pi)
    (hpitch : pitch ∈ Set.Ioo (-(Real.pi / 2)) (Real.pi / 2)) (hdistance : 0 < distance) :
    xyz2ypd realFilterMath.toCmath (ypd2xyz realFilterMath.toTrig (yaw, pitch, distance)) = (yaw, pitch, distance) := by
  have hrho : 0 < distance * Real.cos pitch := mul_pos hdistance (Real.cos_pos_of_mem_Ioo hpitch)
  have hplane : distance * Real.cos pitch * Real.cos yaw * (distance * Real.cos pitch * Real.cos yaw) +
      distance * Real.cos pitch * Real.sin yaw * (distance * Real.cos pitch * Real.sin yaw) =
        distance * Real.cos pitch * (distance * Real.cos pitch) := by
    linear_combination (distance * Real.cos pitch) ^ 2 * Real.cos_sq_add_sin_sq yaw
  have hspace : distance * Real.cos pitch * (distance * Real.cos pitch) +
      distance * Real.sin pitch * (distance * Real.sin pitch) = distance * distance := by
    linear_combination distance ^ 2 * Real.cos_sq_add_sin_sq pitch
  have hrange : pitch ∈ Set.Ioc (-Real.pi) Real.pi :=
    ⟨by linarith [hpitch.1, Real.pi_pos], by linarith [hpitch.2, Real.pi_pos]⟩
  change (Complex.arg ⟨distance * Real.cos pitch * Real.cos yaw, distance * Real.cos pitch * Real.sin yaw⟩,
    Complex.arg ⟨√(distance * Real.cos pitch * Real.cos yaw * (distance * Real.cos pitch * Real.cos yaw) +
      distance * Real.cos pitch * Real.sin yaw * (distance * Real.cos pitch * Real.sin yaw)),
        distance * Real.sin pitch⟩,
    √(distance * Real.cos pitch * Real.cos yaw * (distance * Real.cos pitch * Real.cos yaw) +
      distance * Real.cos pitch * Real.sin yaw * (distance * Real.cos pitch * Real.sin yaw) +
        distance * Real.sin pitch * (distance * Real.sin pitch))) = _
  rw [hplane, hspace, Real.sqrt_mul_self hrho.le, Real.sqrt_mul_self hdistance.le, arg_mk hrho hyaw,
    arg_mk hdistance hrange]

/-- The Jacobians of the two changes of coordinates undo each other. -/
theorem jacobian_mul_jacobian {v : Fin 3 → ℝ} (hslit : (⟨v 0, v 1⟩ : ℂ) ∈ Complex.slitPlane) :
    ypd2xyzJacobian realFilterMath.toTrig (xyz2ypd realFilterMath.toCmath (ofVec v)) *
      xyz2ypdJacobian realFilterMath (ofVec v) = 1 := by
  have hback := ypd2xyz_hasJacobian (toVec (xyz2ypd realFilterMath.toCmath (ofVec v)))
  have hcomp := HasJacobian.comp (f := fun w => toVec (xyz2ypd realFilterMath.toCmath (ofVec w))) hback
    (xyz2ypd_hasJacobian hslit)
  have hsame : (fun w => toVec (ypd2xyz realFilterMath.toTrig (ofVec (toVec (xyz2ypd realFilterMath.toCmath
      (ofVec w)))))) = fun w => w := by
    funext w
    change toVec (ypd2xyz realFilterMath.toTrig (xyz2ypd realFilterMath.toCmath (ofVec w))) = w
    rw [ypd2xyz_xyz2ypd]
    exact toVec_ofVec w
  rw [hsame] at hcomp
  refine hcomp.unique ?_
  exact (hasFDerivAt_id v).congr_fderiv (ContinuousLinearMap.ext fun w => by simp)

/-- The changes of coordinates undo each other, and off the cut of the angle so do their derivatives, which the
    Jacobians are. -/
theorem spherical_coordinates :
    (∀ xyz, ypd2xyz realFilterMath.toTrig (xyz2ypd realFilterMath.toCmath xyz) = xyz) ∧
    (∀ yaw pitch distance, yaw ∈ Set.Ioc (-Real.pi) Real.pi → pitch ∈ Set.Ioo (-(Real.pi / 2)) (Real.pi / 2) →
      0 < distance → xyz2ypd realFilterMath.toCmath (ypd2xyz realFilterMath.toTrig (yaw, pitch, distance)) =
        (yaw, pitch, distance)) ∧
    (∀ v, HasJacobian (fun w => toVec (ypd2xyz realFilterMath.toTrig (ofVec w)))
      (ypd2xyzJacobian realFilterMath.toTrig (ofVec v)) v) ∧
    ∀ v, (⟨v 0, v 1⟩ : ℂ) ∈ Complex.slitPlane →
      HasJacobian (fun w => toVec (xyz2ypd realFilterMath.toCmath (ofVec w)))
        (xyz2ypdJacobian realFilterMath (ofVec v)) v ∧
      ypd2xyzJacobian realFilterMath.toTrig (xyz2ypd realFilterMath.toCmath (ofVec v)) *
        xyz2ypdJacobian realFilterMath (ofVec v) = 1 :=
  ⟨ypd2xyz_xyz2ypd, fun _ _ _ => xyz2ypd_ypd2xyz, ypd2xyz_hasJacobian,
    fun _ hslit => ⟨xyz2ypd_hasJacobian hslit, jacobian_mul_jacobian hslit⟩⟩

end Spherical

end SpVision
