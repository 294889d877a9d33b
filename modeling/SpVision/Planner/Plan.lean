import SpVision.Link.Send
import SpVision.Planner.TinyOptimum
import SpVision.Planner.Trajectory
import SpVision.Tracker.Estimate

set_option autoImplicit false

/-!
# The plan

The target is predicted to when the bullet arrives, aimed at over the horizon, and the reference is
handed to a solver for each axis. A plan is none where the flight time is read without having been set.
-/
namespace SpVision

instance neZeroTwo : NeZero (2 : ℕ) := ⟨by decide⟩
instance neZeroSteps : NeZero (99 : ℕ) := ⟨by decide⟩
instance neZeroHorizon : NeZero (100 : ℕ) := ⟨by decide⟩

/-- What the planner uses of `Target`. -/
structure PlannerTarget (K : Type) where
  name : ArmorName
  estimate : TargetEstimate (StateVector K)
  isConverged : Bool

structure Plan (K : Type) where
  control : Bool := false
  fire : Bool := false
  targetYaw : K
  targetPitch : K
  yaw : K
  yawVel : K
  yawAcc : K
  pitch : K
  pitchVel : K
  pitchAcc : K

/-- The values of the configuration, angles in degrees. -/
structure PlannerConfig (K : Type) where
  yawOffset : K
  pitchOffset : K
  fireThresh : K
  decisionSpeed : K
  highSpeedDelayTime : K
  lowSpeedDelayTime : K
  maxYawAcc : K
  qYaw : Fin 2 → K
  rYaw : Fin 1 → K
  maxPitchAcc : K
  qPitch : Fin 2 → K
  rPitch : Fin 1 → K

structure Planner (K : Type) where
  yawOffset : K
  pitchOffset : K
  fireThresh : K
  lowSpeedDelayTime : K
  highSpeedDelayTime : K
  decisionSpeed : K
  yawSolver : TinySolver 99 (Fin 2) (Fin 1) K
  pitchSolver : TinySolver 99 (Fin 2) (Fin 1) K

section Model

variable {K : Type} [Field K] [LinearOrder K] [IsStrictOrderedRing K] [FloorRing K]

/-! ### The target -/

namespace PlannerTarget

/-- `Target::convergened`, which also stores its result. -/
def convergened (target : PlannerTarget K) : Bool :=
  target.isConverged ∨
    (target.name ≠ .outpost ∧ target.estimate.updateCount > 3 ∧ ¬ target.estimate.ekf.diverged) ∨
    target.name = .outpost ∧ target.estimate.updateCount > 10 ∧ ¬ target.estimate.ekf.diverged

/-- `Target::predict` for a time span. -/
def predict (target : PlannerTarget K) (dt : K) : PlannerTarget K :=
  { target with
    isConverged := target.convergened
    estimate := { target.estimate with
      ekf := target.estimate.ekf.predict (target.convergened && target.name = .outpost) dt } }

/-- `Target::predict` for a point of time. -/
def predictTo (target : PlannerTarget K) (t : ℤ) : PlannerTarget K :=
  let target' := target.predict ((deltaTime t target.estimate.t : ℤ) / (10 ^ 9 : ℕ))
  { target' with estimate := { target'.estimate with t := t } }

/-- `Target::armor_xyza_list` -/
def armorXyzaList (trig : Trig K) (target : PlannerTarget K) : List ((K × K × K) × K) :=
  target.estimate.ekf.armorXyzaList trig target.estimate.armorNum

end PlannerTarget

namespace Planner

/-! ### The aim -/

omit [LinearOrder K] [IsStrictOrderedRing K] [FloorRing K] in
/-- `xyza.head<2>().norm()` -/
def plateDistance (m : Cmath K) (xyza : (K × K × K) × K) : K :=
  m.sqrt (xyza.1.1 * xyza.1.1 + xyza.1.2.1 * xyza.1.2.1)

omit [IsStrictOrderedRing K] [FloorRing K] in
/-- The loop over the plates in `plan` and `aim`: `min_dist`, and the plate it belongs to; `unset` is what the
    variables hold before. -/
def nearestPlate (m : Cmath K) (unset : (K × K × K) × K) (armorXyzaList : List ((K × K × K) × K)) :
    K × ((K × K × K) × K) :=
  armorXyzaList.foldl
    (fun best xyza => if plateDistance m xyza < best.1 then (plateDistance m xyza, xyza) else best) (1e10, unset)

variable (m : Cmath K) (unset : (K × K × K) × K)

/-- `Planner::aim`; an exception is none. -/
def aim (planner : Planner K) (target : PlannerTarget K) (bulletSpeed : K) : Option (K × K) :=
  let nearest := nearestPlate m unset (target.armorXyzaList m.toTrig)
  let azim := m.atan2 nearest.2.1.2.1 nearest.2.1.1
  (Trajectory.init m bulletSpeed nearest.1 nearest.2.1.2.2).pitch.map fun pitch =>
    (limitRad (cvPi K) (azim + planner.yawOffset), -pitch - planner.pitchOffset)

/-! ### The plan -/

/-- `tiny_setup` and the bounds, for one axis. -/
def setupSolver (maxAcc : K) (q : Fin 2 → K) (r : Fin 1 → K) : TinySolver 99 (Fin 2) (Fin 1) K :=
  let solver := tinySetup 99 TinySolver.inverseOne ⟨!![1, dt K; 0, 1], !![0; dt K], ![0, 0]⟩ q r 1
  let solver := tinySetBoundConstraints solver (fun _ _ => -1e17) (fun _ _ => 1e17) (fun _ _ => -maxAcc)
    fun _ _ => maxAcc
  { solver with settings := { solver.settings with maxIter := 10 } }

/-- `Planner::setup_yaw_solver` -/
def setupYawSolver (config : PlannerConfig K) : TinySolver 99 (Fin 2) (Fin 1) K :=
  setupSolver config.maxYawAcc config.qYaw config.rYaw

/-- `Planner::setup_pitch_solver` -/
def setupPitchSolver (config : PlannerConfig K) : TinySolver 99 (Fin 2) (Fin 1) K :=
  setupSolver config.maxPitchAcc config.qPitch config.rPitch

/-- The constructor of `Planner`. -/
def init (config : PlannerConfig K) : Planner K :=
  { yawOffset := config.yawOffset / 57.3
    pitchOffset := config.pitchOffset / 57.3
    fireThresh := config.fireThresh
    lowSpeedDelayTime := config.lowSpeedDelayTime
    highSpeedDelayTime := config.highSpeedDelayTime
    decisionSpeed := config.decisionSpeed
    yawSolver := setupYawSolver config
    pitchSolver := setupPitchSolver config }

omit [LinearOrder K] [IsStrictOrderedRing K] [FloorRing K] in
/-- `traj(row, i)` for the two rows of an axis. -/
def reference (rows : Column K → Fin 2 → K) (traj : List (Column K)) : Columns (99 + 1) (Fin 2) K := fun i =>
  rows (traj.getD i ⟨0, 0, 0, 0⟩)

omit [Field K] [LinearOrder K] [IsStrictOrderedRing K] [FloorRing K] in
def yawRows (c : Column K) : Fin 2 → K := ![c.yaw, c.yawVel]

omit [Field K] [LinearOrder K] [IsStrictOrderedRing K] [FloorRing K] in
def pitchRows (c : Column K) : Fin 2 → K := ![c.pitch, c.pitchVel]

omit [FloorRing K] [IsStrictOrderedRing K] in
/-- Steps 3 and 4 of `plan`: the solver starts at the first sample and tracks them all. -/
def solveAxis (solver : TinySolver 99 (Fin 2) (Fin 1) K) (xref : Columns (99 + 1) (Fin 2) K) :
    TinySolver 99 (Fin 2) (Fin 1) K :=
  (tinySolve (tinySetXRef (tinySetX0 solver (xref 0)) xref)).2

/-- The plan that returns `{false}`. -/
def noPlan (K : Type) [Field K] : Plan K := ⟨false, false, 0, 0, 0, 0, 0, 0, 0, 0⟩

/-- The check of the bullet speed. -/
def checkSpeed (bulletSpeed : K) : K := if bulletSpeed < (10 : ℕ) ∨ bulletSpeed > (25 : ℕ) then (22 : ℕ) else bulletSpeed

/-- Steps 3 and 4 and the plan, for the reference. -/
def planAlong (planner : Planner K) (yaw0 : K) (traj : List (Column K)) : Plan K × Planner K :=
  let yawRef := reference yawRows traj
  let pitchRef := reference pitchRows traj
  let yawSolver := solveAxis planner.yawSolver yawRef
  let pitchSolver := solveAxis planner.pitchSolver pitchRef
  let yawError := yawRef 52 0 - yawSolver.work.x 52 0
  let pitchError := pitchRef 52 0 - pitchSolver.work.x 52 0
  ({ control := true
     fire := m.sqrt (yawError * yawError + pitchError * pitchError) < planner.fireThresh
     targetYaw := limitRad (cvPi K) (yawRef 50 0 + yaw0)
     targetPitch := pitchRef 50 0
     yaw := limitRad (cvPi K) (yawSolver.work.x 50 0 + yaw0)
     yawVel := yawSolver.work.x 50 1
     yawAcc := yawSolver.work.u 50 0
     pitch := pitchSolver.work.x 50 0
     pitchVel := pitchSolver.work.x 50 1
     pitchAcc := pitchSolver.work.u 50 0 },
    { planner with yawSolver := yawSolver, pitchSolver := pitchSolver })

/-- Step 2 of `plan`. -/
def aimed (planner : Planner K) (target : PlannerTarget K) (bulletSpeed : K) : Option (K × List (Column K)) := do
  let yaw0 ← aim m unset planner target bulletSpeed
  let traj ← getTrajectory PlannerTarget.predict (aim m unset planner) yaw0.1 bulletSpeed target
  some (yaw0.1, traj.1)

/-- `Planner::plan` for a target. -/
def plan (planner : Planner K) (target : PlannerTarget K) (bulletSpeed : K) : Option (Plan K × Planner K) :=
  let bulletSpeed := checkSpeed bulletSpeed
  let nearest := nearestPlate m unset (target.armorXyzaList m.toTrig)
  (Trajectory.init m bulletSpeed nearest.1 nearest.2.1.2.2).flyTime.map fun flyTime =>
    match aimed m unset planner (target.predict flyTime) bulletSpeed with
    | none => (noPlan K, planner)
    | some (yaw0, traj) => planAlong m planner yaw0 traj

/-- The choice of the delay in `Planner::plan`. -/
def delayTime (planner : Planner K) (x : StateVector K) : K :=
  if |x 7| > planner.decisionSpeed then planner.highSpeedDelayTime else planner.lowSpeedDelayTime

/-- `Planner::plan` for an optional target; `now` is the steady clock in nanoseconds. -/
def planOptional (planner : Planner K) (now : ℤ) (target : Option (PlannerTarget K)) (bulletSpeed : K) :
    Option (Plan K × Planner K) :=
  match target with
  | none => some (noPlan K, planner)
  | some target =>
    let delay := truncate (planner.delayTime target.estimate.ekf * (10 ^ 6 : ℕ)) * 1000
    plan m unset planner (target.predictTo (now + delay)) bulletSpeed

end Planner

end Model

end SpVision
