import SpVision.Planner.Plan

set_option autoImplicit false

/-!
# Where a plan aims

A plan aims at the nearest plate of the target as it is when the bullet arrives. The solver of each axis
tracks the aim at every sample, and the plan is the middle of its run.
-/
namespace SpVision

section Target

variable {K : Type} [Field K] [LinearOrder K] [IsStrictOrderedRing K] [FloorRing K]

namespace StateVector

omit [IsStrictOrderedRing K] [FloorRing K] in
theorem clampSpin_of_ne (convergedOutpost : Bool) (x : StateVector K) {i : Fin 11} (hi : i ≠ 7) :
    clampSpin convergedOutpost x i = x i := by
  by_cases hfast : convergedOutpost ∧ |x 7| > (2 : ℕ)
  · rw [clampSpin, if_pos hfast]
    exact Function.update_of_ne hi _ _
  · exact congrFun (if_neg hfast) i

theorem predict_diverged (convergedOutpost : Bool) (x : StateVector K) (dt : K) :
    (x.predict convergedOutpost dt).diverged = x.diverged := by
  have hradius : x.predict convergedOutpost dt 8 = x 8 := clampSpin_of_ne convergedOutpost x (by decide)
  have hlong : x.predict convergedOutpost dt 9 = x 9 := clampSpin_of_ne convergedOutpost x (by decide)
  rw [diverged, diverged, hradius, hlong]

end StateVector

namespace PlannerTarget

theorem predict_convergened (target : PlannerTarget K) (dt : K) :
    (target.predict dt).convergened = target.convergened := by
  have hdiverged : (target.predict dt).estimate.ekf.diverged = target.estimate.ekf.diverged :=
    StateVector.predict_diverged _ _ _
  have hconverged : (target.predict dt).isConverged = target.convergened := rfl
  have hcount : (target.predict dt).estimate.updateCount = target.estimate.updateCount := rfl
  have hname : (target.predict dt).name = target.name := rfl
  rw [convergened, hconverged, hdiverged, hcount, hname]
  simp only [convergened, Bool.decide_or, decide_eq_true_eq, or_self_right, Bool.or_eq_true]

theorem predict_predict (target : PlannerTarget K) (a b : K) :
    (target.predict a).predict b = target.predict (a + b) := by
  have hconverged := target.predict_convergened a
  have hekf := StateVector.predict_predict (target.convergened && target.name = .outpost) target.estimate.ekf a b
  rw [predict, hconverged]
  simp only [predict]
  rw [← hekf]
  rfl

theorem predict_predict_zero (target : PlannerTarget K) (a : K) : (target.predict a).predict 0 = target.predict a := by
  rw [predict_predict, add_zero]

end PlannerTarget

namespace Planner

variable {m : Cmath K} {unset : (K × K × K) × K}

/-! ### The aim -/

omit [IsStrictOrderedRing K] [FloorRing K] in
theorem foldl_nearest (l : List ((K × K × K) × K)) (best : K × ((K × K × K) × K)) :
    let r := l.foldl
      (fun best xyza => if plateDistance m xyza < best.1 then (plateDistance m xyza, xyza) else best) best
    (r = best ∨ r.2 ∈ l ∧ r.1 = plateDistance m r.2) ∧ r.1 ≤ best.1 ∧ ∀ q ∈ l, r.1 ≤ plateDistance m q := by
  induction l generalizing best with
  | nil => exact ⟨.inl rfl, le_refl _, fun q hq => absurd hq List.not_mem_nil⟩
  | cons xyza l ih =>
    rw [List.foldl_cons]
    by_cases hless : plateDistance m xyza < best.1
    · rw [if_pos hless]
      obtain ⟨hcase, hle, hall⟩ := ih (plateDistance m xyza, xyza)
      refine ⟨.inr ?_, hle.trans hless.le, ?_⟩
      · rcases hcase with heq | ⟨hmem, hdist⟩
        · rw [heq]
          exact ⟨List.mem_cons_self, rfl⟩
        · exact ⟨List.mem_cons_of_mem _ hmem, hdist⟩
      · intro q hq
        rcases List.mem_cons.mp hq with rfl | hq
        · exact hle
        · exact hall q hq
    · rw [if_neg hless]
      obtain ⟨hcase, hle, hall⟩ := ih best
      refine ⟨hcase.imp_right fun h => ⟨List.mem_cons_of_mem _ h.1, h.2⟩, hle, fun q hq => ?_⟩
      rcases List.mem_cons.mp hq with rfl | hq
      · exact hle.trans (not_lt.mp hless)
      · exact hall q hq

omit [IsStrictOrderedRing K] [FloorRing K] in
theorem nearestPlate_spec {l : List ((K × K × K) × K)} (h : ∃ q ∈ l, plateDistance m q < 1e10) :
    (nearestPlate m unset l).2 ∈ l ∧ (nearestPlate m unset l).1 = plateDistance m (nearestPlate m unset l).2 ∧
      ∀ q ∈ l, plateDistance m (nearestPlate m unset l).2 ≤ plateDistance m q := by
  obtain ⟨q, hq, hnear⟩ := h
  obtain ⟨hcase, -, hall⟩ := foldl_nearest (m := m) l (1e10, unset)
  rcases hcase with heq | ⟨hmem, hdist⟩
  · have hle := hall q hq
    rw [heq] at hle
    exact absurd hnear (not_lt.mpr hle)
  · exact ⟨hmem, hdist, fun q hq => hdist.symm.le.trans (hall q hq)⟩

/-- The samples of a plan: each is the aim at its step, half a horizon before the entry first. -/
structure Samples (aim : PlannerTarget K → K → Option (K × K)) (yaw0 bulletSpeed : K) (target : PlannerTarget K)
    (traj : List (Column K)) : Prop where
  length : traj.length = horizon
  aligned : ∀ (i : ℕ) (c : Column K), traj[i]? = some c →
    Aligned PlannerTarget.predict aim yaw0 bulletSpeed target (i - halfHorizon) c

/-- The reference of a plan has the aim on entry in its middle. It is missing exactly if a sample cannot be aimed at. -/
theorem aimed_cases (planner : Planner K) {target : PlannerTarget K} (hstill : target.predict 0 = target)
    (bulletSpeed : K) :
    (aimed m unset planner target bulletSpeed = none ∧ ∃ k : ℤ, -halfHorizon - 1 ≤ k ∧ k ≤ halfHorizon ∧
      aim m unset planner (target.predict (k * dt K)) bulletSpeed = none) ∨
    ∃ yaw0 pitch0 traj, aimed m unset planner target bulletSpeed = some (yaw0, traj) ∧
      aim m unset planner target bulletSpeed = some (yaw0, pitch0) ∧
      (∃ c, traj[halfHorizon]? = some c ∧ c.yaw = 0 ∧ c.pitch = pitch0) ∧
      Samples (aim m unset planner) yaw0 bulletSpeed target traj := by
  cases haim : aim m unset planner target bulletSpeed with
  | none =>
    left
    refine ⟨by rw [aimed, haim]; rfl, 0, by decide, by decide, ?_⟩
    rw [Int.cast_zero, zero_mul, hstill]
    exact haim
  | some now =>
    have hstart : aimed m unset planner target bulletSpeed =
        (getTrajectory PlannerTarget.predict (aim m unset planner) now.1 bulletSpeed target).map
          fun traj => (now.1, traj.1) := by
      rw [aimed, haim]
      exact Option.map_eq_bind.symm
    rcases getTrajectory_cases PlannerTarget.predict (aim m unset planner) now.1 bulletSpeed
      PlannerTarget.predict_predict target with ⟨hnone, hfail⟩ | ⟨s, hsome, hs⟩
    · left
      rw [hstart, hnone]
      exact ⟨rfl, hfail⟩
    · right
      obtain ⟨now', c, hnow', hc, hyaw, hpitch⟩ := hs.entry hstill
      rw [haim] at hnow'
      obtain rfl := Option.some.inj hnow'
      refine ⟨now.1, now.2, s.traj, by rw [hstart, hsome]; rfl, rfl, ⟨c, hc, ?_, hpitch⟩, hs.length, hs.aligned⟩
      rw [hyaw, sub_self]
      exact limitRad_of_mem _ ⟨neg_lt_zero.mpr (cvPi K).pos, (cvPi K).pos.le⟩

/-! ### The axes -/

/-- A solver of the planner: set up, given its bounds, and whatever it has solved since. -/
structure Ready (maxAcc : K) (q : Fin 2 → K) (r : Fin 1 → K) (solver : TinySolver 99 (Fin 2) (Fin 1) K) : Prop where
  setup : TinySolver.FromSetup TinySolver.inverseOne ⟨!![1, dt K; 0, 1], !![0; dt K], ![0, 0]⟩ q r 1 solver
  settings : solver.settings.maxIter = 10 ∧ solver.settings.absPriTol = 1e-3
  bounds : solver.work.uMin = (fun _ _ => -maxAcc) ∧ solver.work.uMax = fun _ _ => maxAcc

/-- What the solver of an axis ends with when it is given the samples: its run starts at the first of them and moves a step
    at a time, and its solution keeps to the acceleration, within the tolerance of the run where it stops by itself. -/
structure Tracks (maxAcc : K) (samples : Columns (99 + 1) (Fin 2) K) (solver solver' : TinySolver 99 (Fin 2) (Fin 1) K) :
    Prop where
  solves : solver' = solveAxis solver samples
  reference : solver'.work.xref = samples
  start : solver'.work.x 0 = samples 0
  moves : ∀ i : Fin 99, solver'.work.x i.succ 0 = solver'.work.x i.castSucc 0 + dt K * solver'.work.x i.castSucc 1 ∧
    solver'.work.x i.succ 1 = solver'.work.x i.castSucc 1 + dt K * solver'.work.u i 0
  bounded : ∀ i, |solver'.solution.u i 0| ≤ maxAcc
  close : solver'.solution.solved = true → ∀ i, |solver'.work.u i 0 - solver'.solution.u i 0| < 1e-3

omit [IsStrictOrderedRing K] [FloorRing K] in
theorem setupSolver_ready (maxAcc : K) (q : Fin 2 → K) (r : Fin 1 → K) : Ready maxAcc q r (setupSolver maxAcc q r) :=
  ⟨⟨rfl, rfl, ⟨rfl, rfl⟩, rfl, rfl⟩, ⟨rfl, rfl⟩, rfl, rfl⟩

omit [FloorRing K] in
theorem solveAxis_tracks {maxAcc : K} {q : Fin 2 → K} {r : Fin 1 → K} {solver : TinySolver 99 (Fin 2) (Fin 1) K}
    (h : Ready maxAcc q r solver) (hacc : 0 ≤ maxAcc) (xref : Columns (99 + 1) (Fin 2) K) :
    Ready maxAcc q r (solveAxis solver xref) ∧ Tracks maxAcc xref solver (solveAxis solver xref) := by
  set start := tinySetXRef (tinySetX0 solver (xref 0)) xref with hstart
  have hiter : start.settings.maxIter = 10 := h.settings.1
  have hsetup : TinySolver.FromSetup TinySolver.inverseOne ⟨!![1, dt K; 0, 1], !![0; dt K], ![0, 0]⟩ q r 1 start :=
    ⟨h.setup.cache, h.setup.plant, h.setup.weights, h.setup.enabled⟩
  have hlow : start.work.uMin = fun _ _ => -maxAcc := h.bounds.1
  have hhigh : start.work.uMax = fun _ _ => maxAcc := h.bounds.2
  have htol : start.settings.absPriTol = 1e-3 := h.settings.2
  have hzero : start.work.x 0 = xref 0 := tinySetX0_x solver (xref 0)
  have hsolved := (TinySolver.tinySolve_solved start (hiter ▸ by decide)).1
  change TinySolver.Solved start (solveAxis solver xref) _ at hsolved
  obtain ⟨hx, hfollows⟩ := hsolved.follows
  rw [hzero] at hx
  rw [hsetup.plant] at hfollows
  have hsame := hsolved.same
  refine ⟨⟨hsetup.same hsame, ?_, ?_⟩, rfl, hsame.reference.1, hx, fun i => ?_, fun i => ?_, fun hstop i => ?_⟩
  · rw [hsame.settings]
    exact ⟨hiter, htol⟩
  · rw [hsame.inputBounds.1, hsame.inputBounds.2]
    exact ⟨hlow, hhigh⟩
  · have hstep := hfollows i
    constructor <;> rw [hstep] <;> simp [Matrix.vecHead, Matrix.vecTail]
  · have hwithin := hsolved.inputs_within hsetup.enabled.2
      (by rw [hlow, hhigh]; exact fun _ _ => neg_le_self hacc) i 0
    rw [hlow, hhigh] at hwithin
    exact abs_le.mpr hwithin
  · rw [hsolved.solved] at hstop
    have hnear := (hsolved.close hstop).2 i 0
    rwa [htol] at hnear

/-! ### Runs of the planner -/

/-- A planner with the values of its configuration, whatever it has planned since. -/
structure Sound (config : PlannerConfig K) (planner : Planner K) : Prop where
  yawOffset : planner.yawOffset = config.yawOffset / 57.3
  pitchOffset : planner.pitchOffset = config.pitchOffset / 57.3
  yaw : Ready config.maxYawAcc config.qYaw config.rYaw planner.yawSolver
  pitch : Ready config.maxPitchAcc config.qPitch config.rPitch planner.pitchSolver

/-- The planners that calls of `plan` lead to. -/
inductive Reached (m : Cmath K) (config : PlannerConfig K) : Planner K → Prop
  | init : Reached m config (init config)
  | plan (unset : (K × K × K) × K) (target : PlannerTarget K) (bulletSpeed : K) {planner planner' : Planner K}
      {p : Plan K} : Reached m config planner → plan m unset planner target bulletSpeed = some (p, planner') →
      Reached m config planner'

omit [FloorRing K] [IsStrictOrderedRing K] in
theorem init_sound (config : PlannerConfig K) : Sound config (init config) :=
  ⟨rfl, rfl, setupSolver_ready _ _ _, setupSolver_ready _ _ _⟩

variable {config : PlannerConfig K} {planner planner' : Planner K} {p : Plan K}

theorem Sound.planAlong (h : Sound config planner) (hyaw : 0 ≤ config.maxYawAcc) (hpitch : 0 ≤ config.maxPitchAcc)
    (yaw0 : K) (traj : List (Column K)) : Sound config (planAlong m planner yaw0 traj).2 :=
  ⟨h.yawOffset, h.pitchOffset, (solveAxis_tracks h.yaw hyaw _).1, (solveAxis_tracks h.pitch hpitch _).1⟩

theorem plan_cases (unset : (K × K × K) × K) (planner : Planner K) (target : PlannerTarget K) (bulletSpeed : K)
    (hplan : plan m unset planner target bulletSpeed = some (p, planner')) : ∃ flyTime,
      (Trajectory.init m (checkSpeed bulletSpeed) (nearestPlate m unset (target.armorXyzaList m.toTrig)).1
        (nearestPlate m unset (target.armorXyzaList m.toTrig)).2.1.2.2).flyTime = some flyTime ∧
      ((p = noPlan K ∧ planner' = planner ∧ ∃ k : ℤ, -halfHorizon - 1 ≤ k ∧ k ≤ halfHorizon ∧
        aim m unset planner (target.predict (flyTime + k * dt K)) (checkSpeed bulletSpeed) = none) ∨
      ∃ yaw0 pitch0 traj, (p, planner') = planAlong m planner yaw0 traj ∧
        aim m unset planner (target.predict flyTime) (checkSpeed bulletSpeed) = some (yaw0, pitch0) ∧
        (∃ c, traj[halfHorizon]? = some c ∧ c.yaw = 0 ∧ c.pitch = pitch0) ∧
        Samples (aim m unset planner) yaw0 (checkSpeed bulletSpeed) (target.predict flyTime) traj) := by
  unfold plan at hplan
  obtain ⟨flyTime, htime, hplan⟩ := Option.map_eq_some_iff.mp hplan
  refine ⟨flyTime, htime, ?_⟩
  rcases aimed_cases (m := m) planner (target.predict_predict_zero flyTime)
    (checkSpeed bulletSpeed) with ⟨hnone, k, hlow, hhigh, hfail⟩ | ⟨yaw0, pitch0, traj, hsome, haim, hmiddle⟩
  · left
    rw [hnone] at hplan
    obtain ⟨rfl, rfl⟩ := Prod.mk.inj hplan
    rw [PlannerTarget.predict_predict] at hfail
    exact ⟨rfl, rfl, k, hlow, hhigh, hfail⟩
  · right
    rw [hsome] at hplan
    exact ⟨yaw0, pitch0, traj, hplan.symm, haim, hmiddle⟩

theorem Sound.of_reached (hyaw : 0 ≤ config.maxYawAcc) (hpitch : 0 ≤ config.maxPitchAcc)
    (h : Reached m config planner) : Sound config planner := by
  induction h with
  | init => exact init_sound config
  | plan unset target bulletSpeed _ hplan ih =>
    obtain ⟨flyTime, -, ⟨-, heq, -⟩ | ⟨yaw0, pitch0, traj, heq, -⟩⟩ := plan_cases unset _ target bulletSpeed hplan
    · rw [heq]
      exact ih
    · have hnext := congrArg Prod.snd heq
      dsimp only at hnext
      rw [hnext]
      exact ih.planAlong hyaw hpitch yaw0 traj

end Planner

end Target

/-! ### Over the real numbers -/

namespace Planner

open Ballistics Trajectory

/-- Plates that a shot can be computed for. -/
def InRange (plates : List ((ℝ × ℝ × ℝ) × ℝ)) : Prop :=
  plates ≠ [] ∧ ∀ q ∈ plates, 0 < plateDistance realMath q ∧ plateDistance realMath q < 1e10

def Nearest (plates : List ((ℝ × ℝ × ℝ) × ℝ)) (q : (ℝ × ℝ × ℝ) × ℝ) : Prop :=
  q ∈ plates ∧ ∀ q' ∈ plates, plateDistance realMath q ≤ plateDistance realMath q'

/-- A shot of the speed `v` hits the plate. -/
def Shot (v : ℝ) (q : (ℝ × ℝ × ℝ) × ℝ) (θ t : ℝ) : Prop :=
  0 ≤ t ∧ Hits (g ℝ) v (plateDistance realMath q) q.1.2.2 θ t

/-- The direction, less the offsets, is that of the fastest shot that hits the nearest plate. -/
def AimsAt (planner : Planner ℝ) (v : ℝ) (plates : List ((ℝ × ℝ × ℝ) × ℝ)) (yaw pitch : ℝ) : Prop :=
  ∃ q t, Nearest plates q ∧ yaw = limitRad (cvPi ℝ) (Complex.arg ⟨q.1.1, q.1.2.1⟩ + planner.yawOffset) ∧
    Shot v q (-pitch - planner.pitchOffset) t ∧ ∀ θ t', Shot v q θ t' → t ≤ t'

theorem checkSpeed_mem (bulletSpeed : ℝ) : checkSpeed bulletSpeed ∈ Set.Icc (10 : ℝ) 25 := by
  unfold checkSpeed
  push_cast
  split_ifs with hout
  · constructor <;> norm_num
  · push Not at hout
    exact hout

theorem nearestPlate_real (unset : (ℝ × ℝ × ℝ) × ℝ) {plates : List ((ℝ × ℝ × ℝ) × ℝ)} (h : InRange plates) :
    Nearest plates (nearestPlate realMath unset plates).2 ∧
      (nearestPlate realMath unset plates).1 = plateDistance realMath (nearestPlate realMath unset plates).2 ∧
      0 < plateDistance realMath (nearestPlate realMath unset plates).2 := by
  obtain ⟨q, hq⟩ := List.exists_mem_of_ne_nil plates h.1
  obtain ⟨hmem, hdist, hleast⟩ := nearestPlate_spec (m := realMath) ⟨q, hq, (h.2 q hq).2⟩
  exact ⟨⟨hmem, hleast⟩, hdist, (h.2 _ hmem).1⟩

/-- The trajectory of `plan` and `aim`, for plates in range. -/
theorem nearestPlate_shot (unset : (ℝ × ℝ × ℝ) × ℝ) {plates : List ((ℝ × ℝ × ℝ) × ℝ)} (h : InRange plates) {v : ℝ}
    (hv : 0 < v) :
    let q := (nearestPlate realMath unset plates).2
    let trajectory := Trajectory.init realMath v (nearestPlate realMath unset plates).1 q.1.2.2
    (trajectory.flyTime = none ∧ trajectory.pitch = none ∧ ∀ θ t, ¬ Shot v q θ t) ∨
    ∃ pitch t, trajectory.pitch = some pitch ∧ trajectory.flyTime = some t ∧ Shot v q pitch t ∧
      ∀ θ t', Shot v q θ t' → t ≤ t' := by
  intro q trajectory
  obtain ⟨-, hdist, hpos⟩ := nearestPlate_real unset h
  have htrajectory : trajectory = Trajectory.init realMath v (plateDistance realMath q) q.1.2.2 := by
    rw [← hdist]
  obtain ⟨hnone, hsome⟩ := trajectory_fastest v (plateDistance realMath q) q.1.2.2 hv hpos
  rw [← htrajectory] at hnone hsome
  rcases Trajectory.init_cases realMath v (nearestPlate realMath unset plates).1 q.1.2.2 with
    ⟨hunsolvable, htime, hpitch⟩ | ⟨hsolvable, -⟩
  · exact .inl ⟨htime, hpitch, fun θ t hshot => hnone.mp hunsolvable θ t hshot.1 hshot.2⟩
  · obtain ⟨pitch, t, hpitch, htime, -, hpos, hhit, hfastest⟩ := hsome hsolvable
    exact .inr ⟨pitch, t, hpitch, htime, ⟨hpos.le, hhit⟩, fun θ t' hshot => (hfastest θ t' hshot.1 hshot.2).1⟩

theorem aim_real (unset : (ℝ × ℝ × ℝ) × ℝ) (planner : Planner ℝ) (target : PlannerTarget ℝ) {v : ℝ} (hv : 0 < v)
    (h : InRange (target.armorXyzaList realMath.toTrig)) {yaw pitch : ℝ}
    (haim : aim realMath unset planner target v = some (yaw, pitch)) :
    AimsAt planner v (target.armorXyzaList realMath.toTrig) yaw pitch := by
  unfold aim at haim
  obtain ⟨elevation, helevation, heq⟩ := Option.map_eq_some_iff.mp haim
  obtain ⟨rfl, rfl⟩ := Prod.mk.inj heq
  obtain ⟨hnearest, -⟩ := nearestPlate_real unset h
  rcases nearestPlate_shot unset h hv with ⟨-, hnone, -⟩ | ⟨pitch, t, hpitch, -, hshot, hfastest⟩
  · rw [hnone] at helevation
    cases helevation
  · rw [helevation] at hpitch
    obtain rfl := Option.some.inj hpitch
    refine ⟨_, t, hnearest, rfl, ?_, hfastest⟩
    rw [neg_sub, sub_neg_eq_add, add_sub_cancel_left]
    exact hshot

/-- The time of the target does not matter to its plates. -/
theorem armorXyzaList_predictTo (trig : Trig ℝ) (target : PlannerTarget ℝ) (t : ℤ) (dt : ℝ) :
    ((target.predictTo t).predict dt).armorXyzaList trig =
      (target.predict ((deltaTime t target.estimate.t : ℤ) / (10 ^ 9 : ℕ) + dt)).armorXyzaList trig := by
  rw [← PlannerTarget.predict_predict]
  rfl

theorem aim_predictTo (unset : (ℝ × ℝ × ℝ) × ℝ) (planner : Planner ℝ) (target : PlannerTarget ℝ) (t : ℤ) (dt v : ℝ) :
    aim realMath unset planner ((target.predictTo t).predict dt) v =
      aim realMath unset planner (target.predict ((deltaTime t target.estimate.t : ℤ) / (10 ^ 9 : ℕ) + dt)) v := by
  unfold aim
  rw [armorXyzaList_predictTo]

/-- How far ahead of the target's time the planner looks before the bullet flies, in seconds. -/
noncomputable def delaySpan (planner : Planner ℝ) (now : ℤ) (target : PlannerTarget ℝ) : ℝ :=
  (deltaTime (now + truncate (planner.delayTime target.estimate.ekf * (10 ^ 6 : ℕ)) * 1000) target.estimate.t : ℤ) /
    (10 ^ 9 : ℕ)

/-- The time that the fastest shot of the speed `v` takes to hit the plate. -/
def Flight (v : ℝ) (q : (ℝ × ℝ × ℝ) × ℝ) (flight : ℝ) : Prop :=
  (∃ θ, Shot v q θ flight) ∧ ∀ θ t, Shot v q θ t → flight ≤ t

/-- What a plan with control promises for the target `dt` after its own time. -/
structure Leads (config : PlannerConfig ℝ) (unset : (ℝ × ℝ × ℝ) × ℝ) (planner planner' : Planner ℝ)
    (target : PlannerTarget ℝ) (v dt : ℝ) (p : Plan ℝ) : Prop where
  aims : InRange ((target.predict dt).armorXyzaList realMath.toTrig) →
    AimsAt planner v ((target.predict dt).armorXyzaList realMath.toTrig) p.targetYaw p.targetPitch
  runs : ∃ traj, Samples (aim realMath unset planner) p.targetYaw v (target.predict dt) traj ∧
    Tracks config.maxYawAcc (reference yawRows traj) planner.yawSolver planner'.yawSolver ∧
    Tracks config.maxPitchAcc (reference pitchRows traj) planner.pitchSolver planner'.pitchSolver
  yaw : p.yaw = limitRad (cvPi ℝ) (planner'.yawSolver.work.x 50 0 + p.targetYaw) ∧
    p.yawVel = planner'.yawSolver.work.x 50 1 ∧ p.yawAcc = planner'.yawSolver.work.u 50 0
  pitch : p.pitch = planner'.pitchSolver.work.x 50 0 ∧ p.pitchVel = planner'.pitchSolver.work.x 50 1 ∧
    p.pitchAcc = planner'.pitchSolver.work.u 50 0

theorem plan_real {config : PlannerConfig ℝ} (hyaw : 0 ≤ config.maxYawAcc) (hpitch : 0 ≤ config.maxPitchAcc)
    {planner planner' : Planner ℝ} (h : Sound config planner) (unset : (ℝ × ℝ × ℝ) × ℝ) (target : PlannerTarget ℝ)
    (bulletSpeed : ℝ) {p : Plan ℝ} (hplan : plan realMath unset planner target bulletSpeed = some (p, planner'))
    (hcontrol : p.control = true) : ∃ flight,
      (Trajectory.init realMath (checkSpeed bulletSpeed)
        (nearestPlate realMath unset (target.armorXyzaList realMath.toTrig)).1
        (nearestPlate realMath unset (target.armorXyzaList realMath.toTrig)).2.1.2.2).flyTime = some flight ∧
      Leads config unset planner planner' target (checkSpeed bulletSpeed) flight p := by
  have hspeed : 0 < checkSpeed bulletSpeed := lt_of_lt_of_le (by norm_num) (checkSpeed_mem bulletSpeed).1
  obtain ⟨flight, htime, ⟨rfl, -, -⟩ | ⟨yaw0, pitch0, traj, heq, haim, ⟨c, hc, hcyaw, hcpitch⟩, hsamples⟩⟩ :=
    plan_cases unset planner target bulletSpeed hplan
  · exact absurd hcontrol Bool.false_ne_true
  refine ⟨flight, htime, ?_⟩
  obtain ⟨hp, hplanner'⟩ := Prod.mk.inj heq
  have hmiddle : reference yawRows traj 50 0 = 0 ∧ reference pitchRows traj 50 0 = pitch0 := by
    have hget : traj.getD 50 ⟨0, 0, 0, 0⟩ = c := by
      rw [List.getD_eq_getElem?_getD, show traj[50]? = some c from hc]
      rfl
    exact ⟨(congrArg Column.yaw hget).trans hcyaw, (congrArg Column.pitch hget).trans hcpitch⟩
  have hdirection : limitRad (cvPi ℝ) yaw0 = yaw0 := by
    obtain ⟨elevation, -, hvalues⟩ := Option.map_eq_some_iff.mp haim
    rw [← (Prod.mk.inj hvalues).1]
    exact limitRad_of_mem _ (limitRad_mem _ _)
  have htargetYaw : p.targetYaw = yaw0 := by
    rw [hp]
    change limitRad (cvPi ℝ) (reference yawRows traj 50 0 + yaw0) = yaw0
    rw [hmiddle.1, zero_add, hdirection]
  have htargetPitch : p.targetPitch = pitch0 := by
    rw [hp]
    exact hmiddle.2
  constructor
  · intro hrange
    rw [htargetYaw, htargetPitch]
    exact aim_real unset planner _ hspeed hrange haim
  · rw [htargetYaw, hplanner']
    exact ⟨traj, hsamples, (solveAxis_tracks h.yaw hyaw (reference yawRows traj)).2,
      (solveAxis_tracks h.pitch hpitch (reference pitchRows traj)).2⟩
  · rw [htargetYaw, hp, hplanner']
    exact ⟨rfl, rfl, rfl⟩
  · rw [hp, hplanner']
    exact ⟨rfl, rfl, rfl⟩

theorem Samples.congr {aim' : PlannerTarget ℝ → ℝ → Option (ℝ × ℝ)} {yaw0 v : ℝ} {target target' : PlannerTarget ℝ}
    (haim : ∀ dt, aim' (target.predict dt) v = aim' (target'.predict dt) v) {traj : List (Column ℝ)}
    (h : Samples aim' yaw0 v target traj) : Samples aim' yaw0 v target' traj where
  length := h.length
  aligned i c hc := by
    have hsame : aimAt PlannerTarget.predict aim' v target = aimAt PlannerTarget.predict aim' v target' :=
      funext fun k => haim _
    have haligned := h.aligned i c hc
    unfold Aligned at haligned ⊢
    rwa [hsame] at haligned

theorem Leads.of_predictTo {config : PlannerConfig ℝ} {unset : (ℝ × ℝ × ℝ) × ℝ} {planner planner' : Planner ℝ}
    {target : PlannerTarget ℝ} {v flight : ℝ} {p : Plan ℝ} {t : ℤ}
    (h : Leads config unset planner planner' (target.predictTo t) v flight p) :
    Leads config unset planner planner' target v
      ((deltaTime t target.estimate.t : ℤ) / (10 ^ 9 : ℕ) + flight) p where
  aims := by
    rw [← armorXyzaList_predictTo]
    exact h.aims
  runs := by
    obtain ⟨traj, hsamples, hruns⟩ := h.runs
    refine ⟨traj, hsamples.congr fun s => ?_, hruns⟩
    rw [PlannerTarget.predict_predict, PlannerTarget.predict_predict, aim_predictTo, add_assoc]
  yaw := h.yaw
  pitch := h.pitch

/-- In every run of the planner. Where no shot hits the nearest plate after the delay, an unset flight time is read,
    and only there. A plan with control aims at where the target is after the delay and the flight. It is the middle of
    the runs of its solvers, which track the aim at every sample, from the first on, and keep to their accelerations
    where they stop by themselves. -/
theorem plan_leads (config : PlannerConfig ℝ) (hyaw : 0 ≤ config.maxYawAcc) (hpitch : 0 ≤ config.maxPitchAcc)
    (planner : Planner ℝ) (hplanner : Reached realMath config planner) (unset : (ℝ × ℝ × ℝ) × ℝ) (now : ℤ)
    (target : PlannerTarget ℝ) (bulletSpeed : ℝ)
    (hrange : InRange ((target.predict (delaySpan planner now target)).armorXyzaList realMath.toTrig)) :
    ∃ q, Nearest ((target.predict (delaySpan planner now target)).armorXyzaList realMath.toTrig) q ∧
      (planOptional realMath unset planner now (some target) bulletSpeed = none ↔
        ∀ θ t, ¬ Shot (checkSpeed bulletSpeed) q θ t) ∧
      ∀ p planner', planOptional realMath unset planner now (some target) bulletSpeed = some (p, planner') →
        p.control = true → ∃ flight, Flight (checkSpeed bulletSpeed) q flight ∧
          Leads config unset planner planner' target (checkSpeed bulletSpeed)
            (delaySpan planner now target + flight) p := by
  have hsound := Sound.of_reached hyaw hpitch hplanner
  have hspeed : 0 < checkSpeed bulletSpeed := lt_of_lt_of_le (by norm_num) (checkSpeed_mem bulletSpeed).1
  have hshot := nearestPlate_shot unset hrange hspeed
  refine ⟨(nearestPlate realMath unset ((target.predict (delaySpan planner now target)).armorXyzaList
    realMath.toTrig)).2, (nearestPlate_real unset hrange).1, ?_, ?_⟩
  · change Option.map _ _ = none ↔ _
    rw [Option.map_eq_none_iff]
    rcases hshot with ⟨htime, -, hnone⟩ | ⟨pitch, t, -, htime, hhit, -⟩
    · exact iff_of_true htime hnone
    · refine iff_of_false (fun hunset => ?_) fun hnone => hnone _ _ hhit
      have hset := htime.symm.trans hunset
      cases hset
  · intro p planner' hplan hcontrol
    obtain ⟨flight, htime, hleads⟩ := plan_real hyaw hpitch hsound unset _ bulletSpeed hplan hcontrol
    refine ⟨flight, ?_, hleads.of_predictTo⟩
    rcases hshot with ⟨hunset, -, -⟩ | ⟨pitch, t, -, hset, hhit, hfastest⟩
    · have hnone := htime.symm.trans hunset
      cases hnone
    · obtain rfl := Option.some.inj (htime.symm.trans hset)
      exact ⟨⟨pitch, hhit⟩, hfastest⟩

/-- A configuration as they come, and a target that stands five metres ahead. -/
noncomputable def standardConfig : PlannerConfig ℝ :=
  { yawOffset := 2.0, pitchOffset := 6.5, fireThresh := 0.0035, decisionSpeed := 7.0, highSpeedDelayTime := 0,
    lowSpeedDelayTime := 0, maxYawAcc := 50.0, qYaw := ![9e6, 0], rYaw := ![1], maxPitchAcc := 100.0,
    qPitch := ![9e6, 0], rPitch := ![1] }

noncomputable def standingTarget : PlannerTarget ℝ :=
  { name := .three, estimate := { armorNum := 4, ekf := ![5.0, 0, 0, 0, 0.3, 0, 0, 0, 0.2, 0, 0], t := 0 },
    isConverged := true }

theorem standingTarget_predict (dt : ℝ) :
    (standingTarget.predict dt).estimate.ekf = standingTarget.estimate.ekf.propagate dt := by
  have hname : decide (standingTarget.name = .outpost) = false := rfl
  change standingTarget.estimate.ekf.predict (standingTarget.convergened && standingTarget.name = .outpost) dt = _
  rw [hname, Bool.and_false, StateVector.predict, StateVector.clampSpin, if_neg (by simp)]

/-- A plate of the target is on a circle of 0.2 m about its centre. -/
theorem standingTarget_plate (dt : ℝ) (i : ℕ) :
    ∃ a : ℝ, ((standingTarget.predict dt).estimate.ekf.hArmorXyz realMath.toTrig 4 i).1 = 5 - 0.2 * Real.cos a ∧
      ((standingTarget.predict dt).estimate.ekf.hArmorXyz realMath.toTrig 4 i).2.1 = -(0.2 * Real.sin a) := by
  rw [standingTarget_predict]
  refine ⟨limitRad (cvPi ℝ) ((standingTarget.estimate.ekf.propagate dt) 6 +
    (i * 2 : ℕ) * (cvPi ℝ).val / (4 : ℕ)), ?_, ?_⟩
  · simp [StateVector.hArmorXyz, StateVector.propagate, standingTarget, realMath]
    norm_num
  · simp [StateVector.hArmorXyz, StateVector.propagate, standingTarget, realMath]

theorem standingTarget_inRange (dt : ℝ) :
    InRange ((standingTarget.predict dt).armorXyzaList realMath.toTrig) := by
  refine ⟨List.cons_ne_nil _ _, fun q hq => ?_⟩
  obtain ⟨i, -, rfl⟩ := List.mem_map.mp hq
  obtain ⟨a, hx, hy⟩ := standingTarget_plate dt i
  change 0 < plateDistance realMath (StateVector.hArmorXyz realMath.toTrig
    (standingTarget.predict dt).estimate.ekf 4 i, _) ∧ plateDistance realMath (StateVector.hArmorXyz realMath.toTrig
      (standingTarget.predict dt).estimate.ekf 4 i, _) < 1e10
  unfold plateDistance
  dsimp only
  rw [hx, hy]
  have hcos := Real.neg_one_le_cos a
  have hcos' := Real.cos_le_one a
  have hsin := Real.neg_one_le_sin a
  have hsin' := Real.sin_le_one a
  constructor
  · refine Real.sqrt_pos.mpr ?_
    nlinarith
  · refine (Real.sqrt_lt' (by norm_num)).mpr ?_
    nlinarith

end Planner

end SpVision
