import SpVision.Tools.ExtendedKalmanFilter
import SpVision.Tools.Spherical
import SpVision.Tracker.Kept
import SpVision.Tracker.Plates

set_option autoImplicit false

/-!
# The filter of a target

Here the parameters of the tracker are what `Target` really does. An update of a target whose list of
plates it leaves is a parameter still.
-/
namespace SpVision

/-- What the detector and the solver say of an armor. -/
structure SolvedArmor (K : Type) where
  centerDistance : ℚ
  xyzInWorld : K × K × K
  yprInWorld : K × K × K
  ypdInWorld : K × K × K

/-- `ekf_` and `is_converged_` -/
structure TargetState (K : Type) where
  filter : ExtendedKalmanFilter 11 K
  isConverged : Bool := false

section Model

variable {K : Type} [Field K] [LinearOrder K] [IsStrictOrderedRing K] [FloorRing K]

/-! ### The state -/

namespace StateVector

omit [IsStrictOrderedRing K] [FloorRing K] in
/-- `Target::diverged` -/
def diverged (x : StateVector K) : Bool :=
  ¬ ((x 8 > 0.05 ∧ x 8 < 0.5) ∧ x 8 + x 9 > 0.05 ∧ x 8 + x 9 < 0.5)

/-- `x_add` of the constructor. -/
def xAdd (a b : StateVector K) : StateVector K := Function.update (a + b) 6 (limitRad (cvPi K) ((a + b) 6))

omit [LinearOrder K] [IsStrictOrderedRing K] [FloorRing K] in
/-- `F` of `Target::predict` -/
def transition (dt : K) : Matrix (Fin 11) (Fin 11) K :=
  !![1, dt, 0, 0, 0, 0, 0, 0, 0, 0, 0;
    0, 1, 0, 0, 0, 0, 0, 0, 0, 0, 0;
    0, 0, 1, dt, 0, 0, 0, 0, 0, 0, 0;
    0, 0, 0, 1, 0, 0, 0, 0, 0, 0, 0;
    0, 0, 0, 0, 1, dt, 0, 0, 0, 0, 0;
    0, 0, 0, 0, 0, 1, 0, 0, 0, 0, 0;
    0, 0, 0, 0, 0, 0, 1, dt, 0, 0, 0;
    0, 0, 0, 0, 0, 0, 0, 1, 0, 0, 0;
    0, 0, 0, 0, 0, 0, 0, 0, 1, 0, 0;
    0, 0, 0, 0, 0, 0, 0, 0, 0, 1, 0;
    0, 0, 0, 0, 0, 0, 0, 0, 0, 0, 1]

/-- `Q` of `Target::predict` for the variances of the accelerations. -/
def processNoise (v1 v2 dt : K) : Matrix (Fin 11) (Fin 11) K :=
  let a := dt * dt * dt * dt / (4 : ℕ)
  let b := dt * dt * dt / (2 : ℕ)
  let c := dt * dt
  !![a * v1, b * v1, 0, 0, 0, 0, 0, 0, 0, 0, 0;
    b * v1, c * v1, 0, 0, 0, 0, 0, 0, 0, 0, 0;
    0, 0, a * v1, b * v1, 0, 0, 0, 0, 0, 0, 0;
    0, 0, b * v1, c * v1, 0, 0, 0, 0, 0, 0, 0;
    0, 0, 0, 0, a * v1, b * v1, 0, 0, 0, 0, 0;
    0, 0, 0, 0, b * v1, c * v1, 0, 0, 0, 0, 0;
    0, 0, 0, 0, 0, 0, a * v2, b * v2, 0, 0, 0;
    0, 0, 0, 0, 0, 0, b * v2, c * v2, 0, 0, 0;
    0, 0, 0, 0, 0, 0, 0, 0, 0, 0, 0;
    0, 0, 0, 0, 0, 0, 0, 0, 0, 0, 0;
    0, 0, 0, 0, 0, 0, 0, 0, 0, 0, 0]

/-- `f` of `Target::predict` as it is written. -/
def propagateBy (dt : K) (x : StateVector K) : StateVector K :=
  let xPrior := Matrix.mulVec (transition dt) x
  Function.update xPrior 6 (limitRad (cvPi K) (xPrior 6))

/-- The prediction of the mean is the product with the transition. -/
theorem propagateBy_eq (dt : K) (x : StateVector K) : propagateBy dt x = x.propagate dt := by
  funext j
  unfold propagateBy
  fin_cases j <;> simp [transition, propagate, Matrix.mulVec, dotProduct, Fin.sum_univ_succ]

/-! ### The measurement -/

/-- `Target::h_jacobian` -/
def hJacobian (m : FilterMath K) (x : StateVector K) (armorNum id : ℕ) : Matrix (Fin 4) (Fin 11) K :=
  let angle := limitRad (cvPi K) (x 6 + (id * 2 : ℕ) * (cvPi K).val / armorNum)
  let useLH : Bool := armorNum = 4 ∧ (id = 1 ∨ id = 3)
  let r := if useLH then x 8 + x 9 else x 8
  let dxDa := r * m.sin angle
  let dyDa := -r * m.cos angle
  let dxDr := -m.cos angle
  let dyDr := -m.sin angle
  let dxDl := if useLH then -m.cos angle else 0
  let dyDl := if useLH then -m.sin angle else 0
  let dzDh := if useLH then 1 else 0
  let hArmorXyza : Matrix (Fin 4) (Fin 11) K :=
    !![1, 0, 0, 0, 0, 0, dxDa, 0, dxDr, dxDl, 0;
      0, 0, 1, 0, 0, 0, dyDa, 0, dyDr, dyDl, 0;
      0, 0, 0, 0, 1, 0, 0, 0, 0, 0, dzDh;
      0, 0, 0, 0, 0, 0, 1, 0, 0, 0, 0]
  let hArmorYpd := xyz2ypdJacobian m (x.hArmorXyz m.toTrig armorNum id)
  let hArmorYpda : Matrix (Fin 4) (Fin 4) K :=
    !![hArmorYpd 0 0, hArmorYpd 0 1, hArmorYpd 0 2, 0;
      hArmorYpd 1 0, hArmorYpd 1 1, hArmorYpd 1 2, 0;
      hArmorYpd 2 0, hArmorYpd 2 1, hArmorYpd 2 2, 0;
      0, 0, 0, 1]
  hArmorYpda * hArmorXyza

/-- `h` of `Target::update_ypda` -/
def measure (m : Cmath K) (armorNum id : ℕ) (x : StateVector K) : Fin 4 → K :=
  let ypd := xyz2ypd m (x.hArmorXyz m.toTrig armorNum id)
  let angle := limitRad (cvPi K) (x 6 + (id * 2 : ℕ) * (cvPi K).val / armorNum)
  ![ypd.1, ypd.2.1, ypd.2.2, angle]

end StateVector

/-- `z_subtract` of `Target::update_ypda` -/
def zSubtract (a b : Fin 4 → K) : Fin 4 → K :=
  ![limitRad (cvPi K) (a 0 - b 0), limitRad (cvPi K) (a 1 - b 1), a 2 - b 2, limitRad (cvPi K) (a 3 - b 3)]

namespace SolvedArmor

/-- `R` of `Target::update_ypda` -/
def measurementNoise (m : FilterMath K) (armor : SolvedArmor K) : Matrix (Fin 4) (Fin 4) K :=
  let centerYaw := m.atan2 armor.xyzInWorld.2.1 armor.xyzInWorld.1
  let deltaAngle := limitRad (cvPi K) (armor.yprInWorld.1 - centerYaw)
  Matrix.diagonal ![4e-3, 4e-3, m.log (|deltaAngle| + 1) + 1, m.log (|armor.ypdInWorld.2.2| + 1) / (200 : ℕ) + 9e-2]

/-- `z` of `Target::update_ypda` -/
def measured (armor : SolvedArmor K) : Fin 4 → K :=
  ![armor.ypdInWorld.1, armor.ypdInWorld.2.1, armor.ypdInWorld.2.2, armor.yprInWorld.1]

end SolvedArmor

/-! ### The target -/

namespace TargetState

/-- `Target::ekf_x` -/
def ekfX (state : TargetState K) : StateVector K := state.filter.x

/-- The constructor of `Target`. -/
def init (trig : Trig K) (armor : Armor (SolvedArmor K)) (radius : ℚ) (p0Dig : List ℚ) : TargetState K :=
  let r : K := radius
  let xyz := armor.view.xyzInWorld
  let ypr := armor.view.yprInWorld
  let centerX := xyz.1 + r * trig.cos ypr.1
  let centerY := xyz.2.1 + r * trig.sin ypr.1
  let centerZ := xyz.2.2
  { filter := .init ![centerX, 0, centerY, 0, centerZ, 0, ypr.1, 0, r, 0, 0]
      (Matrix.diagonal fun i => ((p0Dig.getD i 0 : ℚ) : K)) StateVector.xAdd }

/-- `Target::convergened`, which also stores its result. -/
def convergened (name : ArmorName) (est : TargetEstimate (TargetState K)) : Bool :=
  est.ekf.isConverged ∨
    (name ≠ .outpost ∧ est.updateCount > 3 ∧ ¬ est.ekf.ekfX.diverged) ∨
    name = .outpost ∧ est.updateCount > 10 ∧ ¬ est.ekf.ekfX.diverged

/-- The variances `v1` and `v2` of `Target::predict`. -/
def variances (name : ArmorName) : K × K :=
  if name = .outpost then ((10 : ℕ), 0.1) else ((100 : ℕ), (400 : ℕ))

/-- `Target::predict` -/
def predict (name : ArmorName) (est : TargetEstimate (TargetState K)) (t : ℤ) : TargetState K :=
  let dt : K := (deltaTime t est.t : ℤ) / (10 ^ 9 : ℕ)
  let isConverged := convergened name est
  let x := est.ekf.ekfX.clampSpin (isConverged && name = .outpost)
  { isConverged
    filter := { est.ekf.filter with x }.predict (StateVector.transition dt)
      (StateVector.processNoise (variances name).1 (variances name).2 dt) (StateVector.propagateBy dt) }

variable (m : FilterMath K) (inverse : {n : ℕ} → Matrix (Fin n) (Fin n) K → Matrix (Fin n) (Fin n) K)

/-- `Target::update_ypda` -/
def updateYpda (state : TargetState K) (armorNum : ℕ) (armor : Armor (SolvedArmor K)) (id : ℕ) : TargetState K :=
  { state with
    filter := state.filter.update inverse armor.view.measured (state.ekfX.hJacobian m armorNum id)
      (armor.view.measurementNoise m) (StateVector.measure m.toCmath armorNum id) zSubtract }

/-- The filter of the tracker's targets. -/
def targetFilter : TargetFilter (SolvedArmor K) (TargetState K) K :=
  { init := init m.toTrig
    predict := predict
    ekfX := fun state i => some (state.ekfX i)
    math := m.toCmath
    updateYpda := updateYpda m inverse
    armorYaw := fun armor => some armor.view.yprInWorld.1
    armorAzimuth := fun armor => some armor.view.ypdInWorld.1 }

/-- Its numbers are exact, so every update of three or four plates finds one. -/
theorem targetFilter_readable (est : TargetEstimate (TargetState K)) (armor : Armor (SolvedArmor K)) :
    (targetFilter m inverse).Readable est armor :=
  (targetFilter m inverse).readable_of_numbers (fun _ => rfl) rfl rfl

/-- The targets of the tracker; `astray` is what becomes of one whose list of plates an update leaves. -/
def targetModel (sort : ComparisonSort)
    (astray : Target (TargetEstimate (TargetState K)) → Armor (SolvedArmor K) → TargetEstimate (TargetState K)) :
    TargetModel (SolvedArmor K) (TargetEstimate (TargetState K)) :=
  { centerDistance := SolvedArmor.centerDistance
    init := (targetFilter m inverse).construct
    predict := fun target t =>
      { target.estimate with ekf := (targetFilter m inverse).predict target.name target.estimate t, t := t }
    update := fun target armor => ((targetFilter m inverse).update? sort target.estimate armor).getD (astray target armor)
    diverged := fun target => target.estimate.ekf.ekfX.diverged
    convergened := fun target =>
      (convergened target.name target.estimate,
        { target.estimate with ekf :=
          { target.estimate.ekf with isConverged := convergened target.name target.estimate } })
    badConverge := fun target =>
      (target.estimate.ekf.filter.recentNisFailures.sum : K) ≥ 0.4 * (target.estimate.ekf.filter.windowSize : K) }

/-- A target that was just set has not failed any test. -/
theorem targetModel_fresh (sort : ComparisonSort)
    (astray : Target (TargetEstimate (TargetState K)) → Armor (SolvedArmor K) → TargetEstimate (TargetState K))
    (armor : Armor (SolvedArmor K)) (t : ℤ) (setup : TargetSetup) :
    (targetModel m inverse sort astray).badConverge (.ofArmor (targetModel m inverse sort astray) armor t setup) =
      false := by
  refine decide_eq_false (not_le.mpr ?_)
  change ((0 : ℕ) : K) < 0.4 * ((100 : ℕ) : K)
  norm_num

end TargetState

end Model

end SpVision
