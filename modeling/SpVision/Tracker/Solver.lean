import Mathlib.LinearAlgebra.Matrix.DotProduct
import SpVision.Library.Loops
import SpVision.Tools.RotationMatrix
import SpVision.Tracker.Track

set_option autoImplicit false

/-!
# The solver

A plate in the image becomes a plate in the world. What the libraries for images and for matrices do is a parameter.
-/
namespace SpVision

open Matrix Quaternion

/-- The functions of the libraries that the solver uses; a pose is a turn and a place. -/
structure VisionLibrary (K : Type) [Field K] where
  toRotationMatrix : ℍ[K] → Matrix (Fin 3) (Fin 3) K
  quaternion : Matrix (Fin 3) (Fin 3) K → ℍ[K]
  rodrigues : (Fin 3 → K) → Matrix (Fin 3) (Fin 3) K
  rodriguesVector : Matrix (Fin 3) (Fin 3) K → Fin 3 → K
  solvePnP : (Fin 4 → Fin 3 → K) → (Fin 4 → K × K) → Matrix (Fin 3) (Fin 3) K → (Fin 5 → K) → (Fin 3 → K) × (Fin 3 → K)
  projectPoints : (Fin 4 → Fin 3 → K) → (Fin 3 → K) → (Fin 3 → K) → Matrix (Fin 3) (Fin 3) K → (Fin 5 → K) →
    Fin 4 → K × K

/-- What the solver reads and sets of an armor. -/
structure ArmorView (K : Type) where
  points : Fin 4 → K × K
  xyzInGimbal : Fin 3 → K
  xyzInWorld : Fin 3 → K
  yprInGimbal : K × K × K
  yprInWorld : K × K × K
  ypdInWorld : K × K × K
  yawRaw : K

structure Solver (K : Type) where
  cameraMatrix : Matrix (Fin 3) (Fin 3) K
  distortCoeffs : Fin 5 → K
  rGimbal2imubody : Matrix (Fin 3) (Fin 3) K
  rCamera2gimbal : Matrix (Fin 3) (Fin 3) K
  tCamera2gimbal : Fin 3 → K
  rGimbal2world : Matrix (Fin 3) (Fin 3) K

namespace Solver

variable {K : Type} [Field K] [LinearOrder K] [IsStrictOrderedRing K] [FloorRing K]

section Plate

omit [LinearOrder K] [IsStrictOrderedRing K] [FloorRing K]

/-- `BIG_ARMOR_POINTS` and `SMALL_ARMOR_POINTS` -/
def objectPoints (K : Type) [Field K] (type : ArmorType) : Fin 4 → Fin 3 → K :=
  let width : K := if type = .big then 230e-3 else 135e-3
  let length : K := 56e-3
  ![![0, width / (2 : ℕ), length / (2 : ℕ)], ![0, -width / (2 : ℕ), length / (2 : ℕ)],
    ![0, -width / (2 : ℕ), -length / (2 : ℕ)], ![0, width / (2 : ℕ), -length / (2 : ℕ)]]

def isBalance {β : Type} (armor : Armor β) : Bool :=
  armor.type = .big ∧ (armor.name = .three ∨ armor.name = .four ∨ armor.name = .five)

/-- The constructor of `Solver`. -/
def init (cameraMatrix : Matrix (Fin 3) (Fin 3) K) (distortCoeffs : Fin 5 → K)
    (rGimbal2imubody rCamera2gimbal : Matrix (Fin 3) (Fin 3) K) (tCamera2gimbal : Fin 3 → K) : Solver K :=
  { cameraMatrix, distortCoeffs, rGimbal2imubody, rCamera2gimbal, tCamera2gimbal, rGimbal2world := 1 }

/-- `Solver::set_R_gimbal2world` -/
def setRGimbal2world (lib : VisionLibrary K) (solver : Solver K) (q : ℍ[K]) : Solver K :=
  { solver with rGimbal2world := solver.rGimbal2imubodyᵀ * lib.toRotationMatrix q * solver.rGimbal2imubody }

/-- `t_armor2camera` -/
def toCamera (solver : Solver K) (xyzInWorld : Fin 3 → K) : Fin 3 → K :=
  solver.rCamera2gimbalᵀ *ᵥ (solver.rGimbal2worldᵀ *ᵥ xyzInWorld - solver.tCamera2gimbal)

end Plate

variable (half : HalfTurn K) (m : EulerMath K) (lib : VisionLibrary K) (solver : Solver K)

omit [LinearOrder K] [IsStrictOrderedRing K] [FloorRing K] in
/-- The matrix of a plate of a yaw and a pitch. -/
def armorMatrix (trig : Trig K) (yaw pitch : K) : Matrix (Fin 3) (Fin 3) K :=
  let sinYaw := trig.sin yaw
  let cosYaw := trig.cos yaw
  let sinPitch := trig.sin pitch
  let cosPitch := trig.cos pitch
  !![cosYaw * cosPitch, -sinYaw, cosYaw * sinPitch;
    sinYaw * cosPitch, cosYaw, sinYaw * sinPitch;
    -sinPitch, 0, cosPitch]

omit [IsStrictOrderedRing K] [FloorRing K] in
/-- The pitch that a plate is taken to have. -/
def assumedPitch (name : ArmorName) : K :=
  if name = .outpost then -15.0 * half.val / 180.0 else 15.0 * half.val / 180.0

omit [IsStrictOrderedRing K] [FloorRing K] in
/-- `Solver::reproject_armor` -/
def reprojectArmor (xyzInWorld : Fin 3 → K) (yaw : K) (type : ArmorType) (name : ArmorName) : Fin 4 → K × K :=
  let rArmor2world := armorMatrix m.toTrig yaw (assumedPitch half name)
  let rArmor2camera := solver.rCamera2gimbalᵀ * solver.rGimbal2worldᵀ * rArmor2world
  lib.projectPoints (objectPoints K type) (lib.rodriguesVector rArmor2camera) (solver.toCamera xyzInWorld)
    solver.cameraMatrix solver.distortCoeffs

omit [IsStrictOrderedRing K] [FloorRing K] in
/-- `Solver::armor_reprojection_error` -/
def armorReprojectionError (armor : Armor (ArmorView K)) (yaw : K) : K :=
  let imagePoints := solver.reprojectArmor half m lib armor.view.xyzInWorld yaw armor.type armor.name
  ∑ i, m.sqrt (((armor.view.points i).1 - (imagePoints i).1) * ((armor.view.points i).1 - (imagePoints i).1) +
    ((armor.view.points i).2 - (imagePoints i).2) * ((armor.view.points i).2 - (imagePoints i).2))

/-- `yaw0` of `Solver::optimize_yaw` -/
def yaw0 : K :=
  let gimbalYpr := eulersOfMatrix half m lib.quaternion solver.rGimbal2world .zyx false
  limitRad half (gimbalYpr.1 - 140.0 / (2 : ℕ) * half.val / 180.0)

/-- The yaw that a turn of the loop tries. -/
def candidate (i : Fin 140) : K := limitRad half (solver.yaw0 half m lib + i.val * half.val / 180.0)

/-- `Solver::optimize_yaw` -/
def optimizeYaw (armor : Armor (ArmorView K)) : Armor (ArmorView K) :=
  let cost (i : Fin 140) := solver.armorReprojectionError half m lib armor (solver.candidate half m lib i)
  let best := (List.finRange 140).foldl
    (fun s i => if cost i < s.1 then (cost i, solver.candidate half m lib i) else s) (1e10, armor.view.yprInWorld.1)
  { armor with view := { armor.view with
    yawRaw := armor.view.yprInWorld.1
    yprInWorld := (best.2, armor.view.yprInWorld.2) } }

omit [LinearOrder K] [IsStrictOrderedRing K] [FloorRing K] in
/-- `rvec` and `tvec` of an armor. -/
def pose (armor : Armor (ArmorView K)) : (Fin 3 → K) × (Fin 3 → K) :=
  lib.solvePnP (objectPoints K armor.type) armor.view.points solver.cameraMatrix solver.distortCoeffs

/-- The first part of `Solver::solve`: the plate as the picture has it. -/
def place (armor : Armor (ArmorView K)) : Armor (ArmorView K) :=
  let (rvec, tvec) := solver.pose lib armor
  let xyzInGimbal := solver.rCamera2gimbal *ᵥ tvec + solver.tCamera2gimbal
  let xyzInWorld := solver.rGimbal2world *ᵥ xyzInGimbal
  let rArmor2gimbal := solver.rCamera2gimbal * lib.rodrigues rvec
  let rArmor2world := solver.rGimbal2world * rArmor2gimbal
  { armor with view := { armor.view with
    xyzInGimbal, xyzInWorld
    yprInGimbal := eulersOfMatrix half m lib.quaternion rArmor2gimbal .zyx false
    yprInWorld := eulersOfMatrix half m lib.quaternion rArmor2world .zyx false
    ypdInWorld := xyz2ypd m.toCmath (xyzInWorld 0, xyzInWorld 1, xyzInWorld 2) } }

/-- `Solver::solve` -/
def solve (armor : Armor (ArmorView K)) : Armor (ArmorView K) :=
  let armor := solver.place half m lib armor
  if isBalance armor then armor else solver.optimizeYaw half m lib armor

end Solver

open Eulers Rotations Trajectory

/-- What the libraries do: the conversions agree on which turn they mean. -/
structure VisionLibrary.Faithful (lib : VisionLibrary ℝ) : Prop where
  matrix : ∀ {q : ℍ[ℝ]}, ‖q‖ = 1 → Rotates (lib.toRotationMatrix q) q
  quaternion : ∀ {R : Matrix (Fin 3) (Fin 3) ℝ} {q : ℍ[ℝ]}, Rotates R q → Rotates R (lib.quaternion R)
  rodrigues : ∀ r, ∃ q, Rotates (lib.rodrigues r) q

namespace Solver

variable {lib : VisionLibrary ℝ} {start solver : Solver ℝ}

/-- The mounting and the attitude of the gimbal are rotations. -/
structure Oriented (solver : Solver ℝ) : Prop where
  body : ∃ q, Rotates solver.rGimbal2imubody q
  camera : ∃ q, Rotates solver.rCamera2gimbal q
  world : ∃ q, Rotates solver.rGimbal2world q

theorem Oriented.set (hlib : lib.Faithful) (h : solver.Oriented) {q : ℍ[ℝ]} (hq : ‖q‖ = 1) :
    (solver.setRGimbal2world lib q).Oriented := by
  obtain ⟨b, hb⟩ := h.body
  exact ⟨h.body, h.camera, _, (hb.transpose.mul (hlib.matrix hq)).mul hb⟩

theorem Oriented.run (hlib : lib.Faithful) (h : start.Oriented) {qs : List ℍ[ℝ]} (hqs : ∀ q ∈ qs, ‖q‖ = 1) :
    (qs.foldl (setRGimbal2world lib) start).Oriented := by
  induction qs generalizing start with
  | nil => exact h
  | cons q qs ih =>
    exact ih (h.set hlib (hqs q List.mem_cons_self)) fun q' hq' => hqs q' (List.mem_cons_of_mem q hq')

/-- The place of a plate goes back to where the camera has it. -/
theorem toCamera_place (h : solver.Oriented) (t : Fin 3 → ℝ) :
    solver.toCamera (solver.rGimbal2world *ᵥ (solver.rCamera2gimbal *ᵥ t + solver.tCamera2gimbal)) = t := by
  obtain ⟨c, hcamera⟩ := h.camera
  obtain ⟨w, hworld⟩ := h.world
  unfold toCamera
  rw [mulVec_mulVec, hworld.transpose_mul, one_mulVec, add_sub_cancel_right, mulVec_mulVec, hcamera.transpose_mul,
    one_mulVec]

/-- A plate without roll is what is reprojected. -/
theorem armorMatrix_eq (yaw pitch : ℝ) :
    armorMatrix realMath.toTrig yaw pitch = rotationMatrix realMath.toTrig (yaw, pitch, 0) := by
  unfold armorMatrix rotationMatrix
  simp [realMath]

theorem assumedPitch_clear (name : ArmorName) :
    assumedPitch piHalf name ∈ Set.Icc (-(Real.pi / 2) + 1e-7) (Real.pi / 2 - 1e-7) := by
  have hpi := Real.two_le_pi
  unfold assumedPitch
  change (if name = .outpost then -15.0 * Real.pi / 180.0 else 15.0 * Real.pi / 180.0) ∈ _
  split_ifs <;> constructor <;> norm_num <;> linarith

variable {armor : Armor (ArmorView ℝ)}

variable (armor) in
/-- The turn of a plate is made up of its angles, unless it stands upright. -/
theorem place_ypr (hlib : lib.Faithful) (h : solver.Oriented) :
    let ypr := (solver.place piHalf realEulerMath lib armor).view.yprInWorld
    ypr.2.1 ∈ Set.Icc (-(Real.pi / 2) + 1e-7) (Real.pi / 2 - 1e-7) → rotationMatrix realMath.toTrig ypr =
      solver.rGimbal2world * (solver.rCamera2gimbal * lib.rodrigues (solver.pose lib armor).1) := by
  obtain ⟨c, hcamera⟩ := h.camera
  obtain ⟨w, hworld⟩ := h.world
  obtain ⟨r, hr⟩ := hlib.rodrigues (solver.pose lib armor).1
  exact (rotationMatrix_eulers hlib.quaternion (hworld.mul (hcamera.mul hr))).2.2

/-- A plate that stands as it is assumed to is reprojected with the pose that it was given. -/
theorem reproject_place (hlib : lib.Faithful) (h : solver.Oriented) {yaw : ℝ}
    (hstands : (solver.place piHalf realEulerMath lib armor).view.yprInWorld = (yaw, assumedPitch piHalf armor.name, 0)) :
    solver.reprojectArmor piHalf realEulerMath lib (solver.place piHalf realEulerMath lib armor).view.xyzInWorld yaw
        armor.type armor.name =
      lib.projectPoints (objectPoints ℝ armor.type) (lib.rodriguesVector (lib.rodrigues (solver.pose lib armor).1))
        (solver.pose lib armor).2 solver.cameraMatrix solver.distortCoeffs := by
  obtain ⟨c, hcamera⟩ := h.camera
  obtain ⟨w, hworld⟩ := h.world
  have hypr := place_ypr armor hlib h
  rw [hstands] at hypr
  have hturn : solver.rCamera2gimbalᵀ * solver.rGimbal2worldᵀ *
      armorMatrix realMath.toTrig yaw (assumedPitch piHalf armor.name) = lib.rodrigues (solver.pose lib armor).1 := by
    rw [armorMatrix_eq, hypr (assumedPitch_clear armor.name), Matrix.mul_assoc, ← Matrix.mul_assoc solver.rGimbal2worldᵀ,
      hworld.transpose_mul, Matrix.one_mul, ← Matrix.mul_assoc, hcamera.transpose_mul, Matrix.one_mul]
  have hplace : solver.toCamera (solver.place piHalf realEulerMath lib armor).view.xyzInWorld =
      (solver.pose lib armor).2 := toCamera_place h _
  unfold reprojectArmor
  dsimp only
  rw [hplace]
  congr 2

/-- The yaws that are tried are the degrees about that of the gimbal. -/
theorem candidate_eq (i : Fin 140) : solver.candidate piHalf realEulerMath lib i =
    limitRad piHalf ((eulersOfMatrix piHalf realEulerMath lib.quaternion solver.rGimbal2world .zyx false).1 +
      ((i.val : ℝ) - 70) * Real.pi / 180) := by
  unfold candidate yaw0
  dsimp only
  rw [StateVector.limitRad_limitRad_add]
  have hhalf : piHalf.val = Real.pi := rfl
  rw [hhalf, Nat.cast_ofNat]
  congr 1
  norm_num
  ring

/-- The yaw that is left has the least error of those tried, or no error was in bounds. -/
theorem optimizeYaw_least :
    let cost (i : Fin 140) := solver.armorReprojectionError piHalf realEulerMath lib armor
      (solver.candidate piHalf realEulerMath lib i)
    let solved := solver.optimizeYaw piHalf realEulerMath lib armor
    solved.view = { armor.view with
      yawRaw := armor.view.yprInWorld.1, yprInWorld := (solved.view.yprInWorld.1, armor.view.yprInWorld.2) } ∧
    ((∃ i, solved.view.yprInWorld.1 = solver.candidate piHalf realEulerMath lib i ∧ ∀ j, cost i ≤ cost j) ∨
      solved.view.yprInWorld.1 = armor.view.yprInWorld.1 ∧ ∀ j, 1e10 ≤ cost j) := by
  intro cost solved
  refine ⟨rfl, ?_⟩
  rcases foldl_finRange_least cost (solver.candidate piHalf realEulerMath lib) 1e10 armor.view.yprInWorld.1 with
    ⟨hfound, hnone⟩ | ⟨i, hfound, -, hleast, -⟩
  · exact .inr ⟨congrArg Prod.snd hfound, hnone⟩
  · exact .inl ⟨i, congrArg Prod.snd hfound, hleast⟩

theorem place_sphere :
    let placed := solver.place piHalf realEulerMath lib armor
    ypd2xyz realMath.toTrig placed.view.ypdInWorld =
      (placed.view.xyzInWorld 0, placed.view.xyzInWorld 1, placed.view.xyzInWorld 2) := by
  intro placed
  exact Spherical.ypd2xyz_xyz2ypd (placed.view.xyzInWorld 0, placed.view.xyzInWorld 1, placed.view.xyzInWorld 2)

/-- For every attitude that the gimbal takes: a solved plate is where the camera has it, in the world and about the gun;
    its angles are its turn unless it stands upright; and unless it is a balance infantry's, its yaw is the one with
    the least error of those about the gimbal's, its own one is kept beside it, and that one is reprojected with the
    plate's own pose if the plate stands as assumed. -/
theorem solve_places (hlib : lib.Faithful) (hstart : start.Oriented) {qs : List ℍ[ℝ]} (hqs : ∀ q ∈ qs, ‖q‖ = 1)
    (armor : Armor (ArmorView ℝ)) :
    let solver := qs.foldl (setRGimbal2world lib) start
    let (rvec, tvec) := solver.pose lib armor
    let placed := solver.place piHalf realEulerMath lib armor
    let solved := solver.solve piHalf realEulerMath lib armor
    let gimbalYaw := (eulersOfMatrix piHalf realEulerMath lib.quaternion solver.rGimbal2world .zyx false).1
    let tried (i : Fin 140) := limitRad piHalf (gimbalYaw + ((i.val : ℝ) - 70) * Real.pi / 180)
    let cost := solver.armorReprojectionError piHalf realEulerMath lib placed
    solver.toCamera solved.view.xyzInWorld = tvec ∧
    ypd2xyz realMath.toTrig solved.view.ypdInWorld =
      (solved.view.xyzInWorld 0, solved.view.xyzInWorld 1, solved.view.xyzInWorld 2) ∧
    (placed.view.yprInWorld.2.1 ∈ Set.Icc (-(Real.pi / 2) + 1e-7) (Real.pi / 2 - 1e-7) →
      rotationMatrix realMath.toTrig placed.view.yprInWorld =
        solver.rGimbal2world * (solver.rCamera2gimbal * lib.rodrigues rvec)) ∧
    (isBalance armor = true → solved = placed) ∧
    (isBalance armor = false → solved.view.yawRaw = placed.view.yprInWorld.1 ∧
      solved.view.yprInWorld.2 = placed.view.yprInWorld.2 ∧
      ((∃ i, solved.view.yprInWorld.1 = tried i ∧ ∀ j, cost (tried i) ≤ cost (tried j)) ∨
        solved.view.yprInWorld.1 = solved.view.yawRaw ∧ ∀ j, 1e10 ≤ cost (tried j)) ∧
      (solved.view.yprInWorld.2 = (assumedPitch piHalf armor.name, 0) →
        solver.reprojectArmor piHalf realEulerMath lib solved.view.xyzInWorld solved.view.yawRaw armor.type armor.name =
          lib.projectPoints (objectPoints ℝ armor.type) (lib.rodriguesVector (lib.rodrigues rvec)) tvec
            solver.cameraMatrix solver.distortCoeffs)) := by
  intro solver
  have horiented : solver.Oriented := hstart.run hlib hqs
  dsimp only
  simp only [← candidate_eq]
  cases hbalance : isBalance armor with
  | true =>
    have hsolved : solver.solve piHalf realEulerMath lib armor = solver.place piHalf realEulerMath lib armor :=
      if_pos hbalance
    rw [hsolved]
    exact ⟨toCamera_place horiented _, place_sphere, place_ypr armor hlib horiented, fun _ => rfl,
      fun hother => absurd hother (by simp)⟩
  | false =>
    have hsolved : solver.solve piHalf realEulerMath lib armor =
        solver.optimizeYaw piHalf realEulerMath lib (solver.place piHalf realEulerMath lib armor) :=
      if_neg (Bool.eq_false_iff.mp hbalance)
    rw [hsolved]
    refine ⟨toCamera_place horiented _, place_sphere, place_ypr armor hlib horiented,
      fun hother => absurd hother (by simp), fun _ => ⟨rfl, rfl, ?_, ?_⟩⟩
    · exact optimizeYaw_least.2
    · intro hstands
      exact reproject_place hlib horiented (Prod.ext rfl hstands)

/-- The unit quaternion of a turn about a vector by its length. -/
noncomputable def turnVector (r : Fin 3 → ℝ) : ℍ[ℝ] :=
  if r = 0 then 1 else AxisTurns.turn (vector ((√(r ⬝ᵥ r))⁻¹ • r)) √(r ⬝ᵥ r)

theorem norm_turnVector (r : Fin 3 → ℝ) : ‖turnVector r‖ = 1 := by
  unfold turnVector
  split_ifs with hzero
  · exact norm_one
  · have hpos : 0 < r ⬝ᵥ r :=
      (Finset.sum_nonneg fun i _ => mul_self_nonneg (r i)).lt_of_ne fun h => hzero (dotProduct_self_eq_zero.mp h.symm)
    refine norm_turn_vector ?_ _
    rw [smul_dotProduct, dotProduct_smul, smul_eq_mul, smul_eq_mul, ← mul_assoc, ← mul_inv, Real.mul_self_sqrt hpos.le,
      inv_mul_cancel₀ hpos.ne']

/-- The vector of a turn: its axis by twice the angle of the quaternion. -/
noncomputable def vectorOf (q : ℍ[ℝ]) : Fin 3 → ℝ :=
  let sine := √(q.imI * q.imI + q.imJ * q.imJ + q.imK * q.imK)
  ((2 : ℕ) * Complex.arg ⟨q.re, sine⟩ / sine) • ![q.imI, q.imJ, q.imK]

theorem arg_of_unit {cosine sine : ℝ} (hunit : cosine ^ 2 + sine ^ 2 = 1) :
    Real.cos (Complex.arg ⟨cosine, sine⟩) = cosine ∧ Real.sin (Complex.arg ⟨cosine, sine⟩) = sine := by
  have hnorm : ‖(⟨cosine, sine⟩ : ℂ)‖ = 1 := by
    rw [Complex.norm_def, Complex.normSq_mk]
    exact Real.sqrt_eq_one.mpr (by linarith)
  have hne : (⟨cosine, sine⟩ : ℂ) ≠ 0 := norm_ne_zero_iff.mp (by rw [hnorm]; exact one_ne_zero)
  rw [Complex.cos_arg hne, Complex.sin_arg, hnorm, div_one, div_one]
  exact ⟨rfl, rfl⟩

theorem arg_pos {cosine sine : ℝ} (hunit : cosine ^ 2 + sine ^ 2 = 1) (hpos : 0 < sine) :
    0 < Complex.arg ⟨cosine, sine⟩ := by
  by_contra hnot
  have hdown := Real.sin_nonpos_of_nonpos_of_neg_pi_le (not_lt.mp hnot) (Complex.neg_pi_lt_arg _).le
  rw [(arg_of_unit hunit).2] at hdown
  exact hdown.not_gt hpos

theorem turnVector_of_axis {v : Fin 3 → ℝ} {angle sine : ℝ} (hangle : 0 < angle) (hpos : 0 < sine)
    (hlength : v ⬝ᵥ v = sine * sine) :
    turnVector (((2 : ℕ) * angle / sine) • v) = Real.cos angle • 1 + (Real.sin angle / sine) • vector v := by
  rw [Nat.cast_ofNat]
  have hsquare : ((2 * angle / sine) • v) ⬝ᵥ ((2 * angle / sine) • v) = (2 * angle) ^ 2 := by
    rw [smul_dotProduct, dotProduct_smul, hlength, smul_eq_mul, smul_eq_mul]
    field_simp
  have hvector : (2 * angle / sine) • v ≠ 0 := by
    intro hzero
    rw [hzero, zero_dotProduct] at hsquare
    nlinarith
  rw [turnVector, if_neg hvector, hsquare, Real.sqrt_sq (by positivity), AxisTurns.turn_eq,
    mul_div_cancel_left₀ angle two_ne_zero]
  ext <;> simp <;> field_simp

theorem turnVector_vectorOf {q : ℍ[ℝ]} (hq : ‖q‖ = 1) :
    turnVector (vectorOf q) = q ∨ turnVector (vectorOf q) = -q := by
  have hnorm : q.re ^ 2 + q.imI ^ 2 + q.imJ ^ 2 + q.imK ^ 2 = 1 := by
    rw [← normSq_def', normSq_eq_norm_mul_self, hq, mul_one]
  have hsine := Real.mul_self_sqrt (add_nonneg (add_nonneg (mul_self_nonneg q.imI) (mul_self_nonneg q.imJ))
    (mul_self_nonneg q.imK))
  have hlength : ![q.imI, q.imJ, q.imK] ⬝ᵥ ![q.imI, q.imJ, q.imK] =
      q.imI * q.imI + q.imJ * q.imJ + q.imK * q.imK := by
    simp [dotProduct, Fin.sum_univ_succ, add_assoc]
  have hnonneg := Real.sqrt_nonneg (q.imI * q.imI + q.imJ * q.imJ + q.imK * q.imK)
  rw [← hsine] at hlength
  unfold vectorOf
  dsimp only
  generalize √(q.imI * q.imI + q.imJ * q.imJ + q.imK * q.imK) = sine at hsine hlength hnonneg ⊢
  rcases hnonneg.eq_or_lt with hzero | hpos
  · rw [← hzero, mul_zero] at hsine
    have hI : q.imI = 0 := by nlinarith
    have hJ : q.imJ = 0 := by nlinarith
    have hK : q.imK = 0 := by nlinarith
    have hre : q.re * q.re = 1 := by
      rw [hI, hJ, hK] at hnorm
      linarith
    rw [← hzero, div_zero, zero_smul, turnVector, if_pos rfl]
    rcases mul_self_eq_one_iff.mp hre with hone | hone
    · left
      ext <;> simp [hone, hI, hJ, hK]
    · right
      ext <;> simp [hone, hI, hJ, hK]
  · left
    have hunit : q.re ^ 2 + sine ^ 2 = 1 := by nlinarith
    obtain ⟨hcos, hsin⟩ := arg_of_unit hunit
    rw [turnVector_of_axis (arg_pos hunit hpos) hpos hlength, hcos, hsin, div_self hpos.ne']
    ext <;> simp

/-- The vector of a rotation turns as it does. -/
theorem matrixOf_vectorOf {R : Matrix (Fin 3) (Fin 3) ℝ} {q : ℍ[ℝ]} (h : Rotates R q) :
    matrixOf (turnVector (vectorOf q)) = R := by
  have hmatrix := rotates_matrixOf (norm_turnVector (vectorOf q))
  rcases turnVector_vectorOf h.unit with hsame | hneg
  · rw [hsame] at hmatrix ⊢
    exact hmatrix.matrix_eq h
  · rw [hneg] at hmatrix ⊢
    exact hmatrix.matrix_eq h.neg

/-- The gyroscope looks back. -/
def gyroMount : Matrix (Fin 3) (Fin 3) ℝ := !![-1, 0, 0; 0, -1, 0; 0, 0, 1]

/-- The camera looks ahead; its axes are right, down and ahead. -/
def cameraMount : Matrix (Fin 3) (Fin 3) ℝ := !![0, 0, 1; -1, 0, 0; 0, -1, 0]

theorem rotates_gyroMount : ∃ q, Rotates gyroMount q := by
  have hmatrix : gyroMount = rotationMatrix realMath.toTrig (Real.pi, 0, 0) := by
    simp [gyroMount, rotationMatrix, realMath]
  rw [hmatrix]
  exact ⟨_, rotates_rotationMatrix _⟩

theorem rotates_cameraMount : ∃ q, Rotates cameraMount q := by
  have hmatrix : cameraMount = rotationMatrix realMath.toTrig (-(Real.pi / 2), 0, -(Real.pi / 2)) := by
    simp [cameraMount, rotationMatrix, realMath]
  rw [hmatrix]
  exact ⟨_, rotates_rotationMatrix _⟩

/-- The turn of a plate that faces the camera and leans back as plates do. -/
noncomputable def frontalTurn : Matrix (Fin 3) (Fin 3) ℝ :=
  cameraMountᵀ * rotationMatrix realMath.toTrig (0, assumedPitch piHalf .three, 0)

/-- A pinhole camera, and the plate that it sees five metres ahead. -/
noncomputable def pinhole : VisionLibrary ℝ where
  toRotationMatrix := matrixOf
  quaternion := quaternionOf
  rodrigues r := matrixOf (turnVector r)
  rodriguesVector R := vectorOf (quaternionOf R)
  solvePnP _ _ _ _ := (vectorOf (quaternionOf frontalTurn), ![0, 0, 5.0])
  projectPoints object r t camera _ i :=
    let p := matrixOf (turnVector r) *ᵥ object i + t
    (camera 0 0 * p 0 / p 2 + camera 0 2, camera 1 1 * p 1 / p 2 + camera 1 2)

theorem pinhole_faithful : pinhole.Faithful where
  matrix hq := rotates_matrixOf hq
  quaternion hR := rotates_quaternionOf hR
  rodrigues r := ⟨turnVector r, rotates_matrixOf (norm_turnVector r)⟩

noncomputable def mounted : Solver ℝ :=
  .init !![1600.0, 0, 640.0; 0, 1600.0, 384.0; 0, 0, 1] 0 gyroMount cameraMount ![0.14, 0.07, 0.03]

noncomputable def frontal : Armor (ArmorView ℝ) where
  color := .blue
  type := .small
  name := .three
  priority := .first
  view :=
    { points := pinhole.projectPoints (objectPoints ℝ .small) (vectorOf (quaternionOf frontalTurn)) ![0, 0, 5.0]
        mounted.cameraMatrix mounted.distortCoeffs
      xyzInGimbal := 0, xyzInWorld := 0, yprInGimbal := (0, 0, 0), yprInWorld := (0, 0, 0), ypdInWorld := (0, 0, 0)
      yawRaw := 0 }

theorem rotates_frontalTurn : ∃ q, Rotates frontalTurn q := by
  obtain ⟨c, hcamera⟩ := rotates_cameraMount
  exact ⟨_, hcamera.transpose.mul (rotates_rotationMatrix _)⟩

theorem rodrigues_frontal : pinhole.rodrigues (vectorOf (quaternionOf frontalTurn)) = frontalTurn := by
  obtain ⟨q, hq⟩ := rotates_frontalTurn
  exact matrixOf_vectorOf (rotates_quaternionOf hq)

/-- The attitude of the gimbal, turned left by one radian. -/
theorem mounted_turned : (mounted.setRGimbal2world pinhole (AxisTurns.turn (axis 2) 1)).rGimbal2world =
    rotationMatrix realMath.toTrig (1, 0, 0) := by
  have hyaw : matrixOf (AxisTurns.turn (axis 2) 1) = _ := ((rotates_yaw 1).matrix_eq (rotates_matrixOf (norm_turn 2 1))).symm
  change gyroMountᵀ * matrixOf (AxisTurns.turn (axis 2) 1) * gyroMount = _
  rw [hyaw]
  ext i j
  fin_cases i <;> fin_cases j <;>
    simp [gyroMount, rotationMatrix, realMath, Matrix.mul_apply, Fin.sum_univ_succ]

theorem frontal_placed : ((mounted.setRGimbal2world pinhole (AxisTurns.turn (axis 2) 1)).place piHalf realEulerMath
    pinhole frontal).view.yprInWorld = (1, assumedPitch piHalf .three, 0) := by
  obtain ⟨c, hcamera⟩ := rotates_cameraMount
  have hturn : (mounted.setRGimbal2world pinhole (AxisTurns.turn (axis 2) 1)).rGimbal2world *
      (cameraMount * pinhole.rodrigues (vectorOf (quaternionOf frontalTurn))) =
        rotationMatrix realMath.toTrig (1, assumedPitch piHalf .three, 0) := by
    rw [mounted_turned, rodrigues_frontal, frontalTurn, ← Matrix.mul_assoc cameraMount, hcamera.mul_transpose,
      Matrix.one_mul]
    ext i j
    fin_cases i <;> fin_cases j <;> simp [rotationMatrix, realMath, Matrix.mul_apply, Fin.sum_univ_succ]
  have hpi := Real.two_le_pi
  have hrange : InRange (1, assumedPitch piHalf .three, 0) := by
    refine ⟨⟨?_, ?_⟩, by simpa using assumedPitch_clear .three, ?_, ?_⟩ <;> dsimp only <;> linarith
  rw [← eulers_rotationMatrix rotates_quaternionOf hrange, ← hturn]
  rfl

theorem solve_places_frontal :
    let solver := [AxisTurns.turn (axis 2) 1].foldl (setRGimbal2world pinhole) mounted
    let solved := solver.solve piHalf realEulerMath pinhole frontal
    solver.toCamera solved.view.xyzInWorld = ![0, 0, 5.0] ∧
      ypd2xyz realMath.toTrig solved.view.ypdInWorld =
        (solved.view.xyzInWorld 0, solved.view.xyzInWorld 1, solved.view.xyzInWorld 2) ∧
      solved.view.yawRaw = 1 ∧ solved.view.yprInWorld.2 = (assumedPitch piHalf .three, 0) ∧
      solver.reprojectArmor piHalf realEulerMath pinhole solved.view.xyzInWorld solved.view.yawRaw .small .three =
        frontal.view.points := by
  intro solver solved
  have horiented : mounted.Oriented := ⟨rotates_gyroMount, rotates_cameraMount, 1, .one⟩
  have hunit : ∀ q ∈ [AxisTurns.turn (axis 2) 1], ‖q‖ = 1 := fun q hq => by rw [List.mem_singleton.mp hq, norm_turn]
  obtain ⟨hplace, hangles, -, -, hother⟩ := solve_places pinhole_faithful horiented hunit frontal
  obtain ⟨hraw, hstands, -, hseen⟩ := hother rfl
  have hyaw : solved.view.yawRaw = 1 := hraw.trans (congrArg Prod.fst frontal_placed)
  have hlean : solved.view.yprInWorld.2 = (assumedPitch piHalf .three, 0) :=
    hstands.trans (congrArg Prod.snd frontal_placed)
  refine ⟨hplace, hangles, hyaw, hlean, (hseen hlean).trans ?_⟩
  have hvector : pinhole.rodriguesVector (pinhole.rodrigues (vectorOf (quaternionOf frontalTurn))) =
      vectorOf (quaternionOf frontalTurn) := by
    rw [rodrigues_frontal]
    rfl
  change pinhole.projectPoints _ (pinhole.rodriguesVector (pinhole.rodrigues (vectorOf (quaternionOf frontalTurn))))
    _ _ _ = _
  rw [hvector]
  rfl

end Solver
end SpVision
