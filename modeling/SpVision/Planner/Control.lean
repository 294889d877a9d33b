import SpVision.Planner.Lead

set_option autoImplicit false

/-!
# When the planner takes control

`plan` gives up wherever `aim` throws. So a plan has control exactly if there is a shot at each of its samples.
-/
namespace SpVision.Planner

section Model

variable {K : Type} [Field K] [LinearOrder K] [IsStrictOrderedRing K] [FloorRing K] {m : Cmath K}
  {unset : (K × K × K) × K}

theorem aimed_ne_none_iff (planner : Planner K) {target : PlannerTarget K} (hstill : target.predict 0 = target)
    (bulletSpeed : K) : aimed m unset planner target bulletSpeed ≠ none ↔
      ∀ k : ℤ, -halfHorizon - 1 ≤ k → k ≤ halfHorizon →
        aim m unset planner (target.predict (k * dt K)) bulletSpeed ≠ none := by
  constructor
  · intro haimed k hlow hhigh
    obtain ⟨a, ha⟩ := Option.ne_none_iff_exists'.mp haimed
    unfold aimed at ha
    obtain ⟨now, -, hrest⟩ := Option.bind_eq_some_iff.mp ha
    obtain ⟨traj, htraj, -⟩ := Option.bind_eq_some_iff.mp hrest
    rcases getTrajectory_cases PlannerTarget.predict (aim m unset planner) now.1 bulletSpeed
      PlannerTarget.predict_predict target with ⟨hnone, -⟩ | ⟨s, -, hs⟩
    · rw [hnone] at htraj
      cases htraj
    · exact hs.aimAt_ne_none hlow hhigh
  · intro hall hnone
    rcases aimed_cases (m := m) planner hstill bulletSpeed with
      ⟨-, k, hlow, hhigh, hfail⟩ | ⟨yaw0, pitch0, traj, hsome, -⟩
    · exact hall k hlow hhigh hfail
    · rw [hsome] at hnone
      cases hnone

theorem plan_of_aimed (planner : Planner K) (target : PlannerTarget K) (bulletSpeed : K) {flyTime yaw0 : K}
    {traj : List (Column K)}
    (htime : (Trajectory.init m (checkSpeed bulletSpeed) (nearestPlate m unset (target.armorXyzaList m.toTrig)).1
      (nearestPlate m unset (target.armorXyzaList m.toTrig)).2.1.2.2).flyTime = some flyTime)
    (haimed : aimed m unset planner (target.predict flyTime) (checkSpeed bulletSpeed) = some (yaw0, traj)) :
    plan m unset planner target bulletSpeed = some (planAlong m planner yaw0 traj) := by
  unfold plan
  dsimp only
  rw [htime, Option.map_some, haimed]

theorem plan_control_iff (planner : Planner K) (target : PlannerTarget K) (bulletSpeed : K) :
    (∃ p planner', plan m unset planner target bulletSpeed = some (p, planner') ∧ p.control = true) ↔
      ∃ flyTime, (Trajectory.init m (checkSpeed bulletSpeed) (nearestPlate m unset (target.armorXyzaList m.toTrig)).1
          (nearestPlate m unset (target.armorXyzaList m.toTrig)).2.1.2.2).flyTime = some flyTime ∧
        aimed m unset planner (target.predict flyTime) (checkSpeed bulletSpeed) ≠ none := by
  constructor
  · rintro ⟨p, planner', hplan, hcontrol⟩
    unfold plan at hplan
    obtain ⟨flyTime, htime, hplan⟩ := Option.map_eq_some_iff.mp hplan
    refine ⟨flyTime, htime, fun hnone => ?_⟩
    rw [hnone] at hplan
    obtain ⟨rfl, -⟩ := Prod.mk.inj hplan
    cases hcontrol
  · rintro ⟨flyTime, htime, haimed⟩
    obtain ⟨⟨yaw0, traj⟩, ha⟩ := Option.ne_none_iff_exists'.mp haimed
    exact ⟨(planAlong m planner yaw0 traj).1, (planAlong m planner yaw0 traj).2,
      plan_of_aimed planner target bulletSpeed htime ha, rfl⟩

end Model

open Ballistics Trajectory

/-- A shot of the speed `v` hits the nearest plate. -/
def Reachable (unset : (ℝ × ℝ × ℝ) × ℝ) (v : ℝ) (target : PlannerTarget ℝ) : Prop :=
  ∃ θ t, Shot v (nearestPlate realMath unset (target.armorXyzaList realMath.toTrig)).2 θ t

theorem aim_ne_none_iff (unset : (ℝ × ℝ × ℝ) × ℝ) (planner : Planner ℝ) (target : PlannerTarget ℝ) {v : ℝ} (hv : 0 < v)
    (h : InRange (target.armorXyzaList realMath.toTrig)) :
    aim realMath unset planner target v ≠ none ↔ Reachable unset v target := by
  have haim : aim realMath unset planner target v ≠ none ↔
      (Trajectory.init realMath v (nearestPlate realMath unset (target.armorXyzaList realMath.toTrig)).1
        (nearestPlate realMath unset (target.armorXyzaList realMath.toTrig)).2.1.2.2).pitch ≠ none :=
    not_congr Option.map_eq_none_iff
  rw [haim]
  rcases nearestPlate_shot unset h hv with ⟨-, hnone, hmiss⟩ | ⟨pitch, t, hpitch, -, hshot, -⟩
  · exact iff_of_false (not_not.mpr hnone) fun ⟨θ, t, hshot⟩ => hmiss θ t hshot
  · exact iff_of_true (Option.ne_none_iff_exists'.mpr ⟨pitch, hpitch⟩) ⟨pitch, t, hshot⟩

theorem flyTime_eq_some_iff (unset : (ℝ × ℝ × ℝ) × ℝ) {plates : List ((ℝ × ℝ × ℝ) × ℝ)} (h : InRange plates) {v : ℝ}
    (hv : 0 < v) (flight : ℝ) :
    (Trajectory.init realMath v (nearestPlate realMath unset plates).1
      (nearestPlate realMath unset plates).2.1.2.2).flyTime = some flight ↔
    Flight v (nearestPlate realMath unset plates).2 flight := by
  rcases nearestPlate_shot unset h hv with ⟨hnone, -, hmiss⟩ | ⟨pitch, t, -, htime, hshot, hfastest⟩
  · rw [hnone]
    exact iff_of_false (Option.some_ne_none flight).symm fun ⟨⟨θ, hshot⟩, _⟩ => hmiss θ flight hshot
  · rw [htime]
    constructor
    · intro heq
      obtain rfl := Option.some.inj heq
      exact ⟨⟨pitch, hshot⟩, hfastest⟩
    · rintro ⟨⟨θ, hhit⟩, hleast⟩
      exact congrArg some (le_antisymm (hfastest θ flight hhit) (hleast pitch t hshot))

/-- It has control of a target that can be hit whenever. -/
theorem exists_control (planner : Planner ℝ) (unset : (ℝ × ℝ × ℝ) × ℝ) (now : ℤ) (target : PlannerTarget ℝ)
    (bulletSpeed : ℝ) (hrange : ∀ dt, InRange ((target.predict dt).armorXyzaList realMath.toTrig))
    (hreach : ∀ dt, Reachable unset (checkSpeed bulletSpeed) (target.predict dt)) :
    ∃ p planner', planOptional realMath unset planner now (some target) bulletSpeed = some (p, planner') ∧
      p.control = true := by
  have hspeed : 0 < checkSpeed bulletSpeed := lt_of_lt_of_le (by norm_num) (checkSpeed_mem bulletSpeed).1
  refine (plan_control_iff planner _ bulletSpeed).mpr ?_
  obtain ⟨θ, t, hshot⟩ := hreach (delaySpan planner now target)
  rcases nearestPlate_shot unset (hrange (delaySpan planner now target)) hspeed with
    ⟨-, -, hmiss⟩ | ⟨pitch, flight, -, htime, -⟩
  · exact absurd hshot (hmiss θ t)
  refine ⟨flight, htime, (aimed_ne_none_iff planner (PlannerTarget.predict_predict_zero _ flight) _).mpr fun k _ _ => ?_⟩
  rw [PlannerTarget.predict_predict, aim_predictTo, ← add_assoc]
  exact (aim_ne_none_iff unset planner _ hspeed (hrange _)).mpr (hreach _)

/-- For a target whose plates stay in range. The planner takes control exactly if a shot hits the nearest plate after the
    delay, and one does at every sample about the time when that shot arrives. -/
theorem plan_controls (planner : Planner ℝ) (unset : (ℝ × ℝ × ℝ) × ℝ) (now : ℤ) (target : PlannerTarget ℝ)
    (bulletSpeed : ℝ) (hrange : ∀ dt, InRange ((target.predict dt).armorXyzaList realMath.toTrig)) :
    (∃ p planner', planOptional realMath unset planner now (some target) bulletSpeed = some (p, planner') ∧
      p.control = true) ↔
    ∃ flight, Flight (checkSpeed bulletSpeed) (nearestPlate realMath unset
        ((target.predict (delaySpan planner now target)).armorXyzaList realMath.toTrig)).2 flight ∧
      ∀ k : ℤ, -halfHorizon - 1 ≤ k → k ≤ halfHorizon → Reachable unset (checkSpeed bulletSpeed)
        (target.predict (delaySpan planner now target + flight + k * dt ℝ)) := by
  have hspeed : 0 < checkSpeed bulletSpeed := lt_of_lt_of_le (by norm_num) (checkSpeed_mem bulletSpeed).1
  refine (plan_control_iff planner _ bulletSpeed).trans (exists_congr fun flight => and_congr ?_ ?_)
  · exact flyTime_eq_some_iff unset (hrange (delaySpan planner now target)) hspeed flight
  · refine (aimed_ne_none_iff planner (PlannerTarget.predict_predict_zero _ flight) _).trans ?_
    refine forall_congr' fun k => imp_congr_right fun _ => imp_congr_right fun _ => ?_
    rw [PlannerTarget.predict_predict, aim_predictTo, ← add_assoc]
    exact aim_ne_none_iff unset planner _ hspeed (hrange _)

theorem standingTarget_height (dt : ℝ) (i : ℕ) :
    ((standingTarget.predict dt).estimate.ekf.hArmorXyz realMath.toTrig 4 i).2.2 = 0.3 := by
  rw [standingTarget_predict]
  simp [StateVector.hArmorXyz, StateVector.propagate, standingTarget]

theorem standingTarget_distance (dt : ℝ) {q : (ℝ × ℝ × ℝ) × ℝ}
    (hq : q ∈ (standingTarget.predict dt).armorXyzaList realMath.toTrig) :
    plateDistance realMath q ^ 2 ∈ Set.Icc (23 : ℝ) 28 ∧ q.1.2.2 = 0.3 := by
  obtain ⟨i, -, rfl⟩ := List.mem_map.mp hq
  obtain ⟨a, hx, hy⟩ := standingTarget_plate dt i
  have hcos := Real.neg_one_le_cos a
  have hcos' := Real.cos_le_one a
  have hone := Real.sin_sq_add_cos_sq a
  refine ⟨?_, standingTarget_height dt i⟩
  have hdistance : plateDistance realMath (StateVector.hArmorXyz realMath.toTrig
      (standingTarget.predict dt).estimate.ekf 4 i, 0) =
        Real.sqrt ((5 - 0.2 * Real.cos a) * (5 - 0.2 * Real.cos a) + -(0.2 * Real.sin a) * -(0.2 * Real.sin a)) := by
    rw [← hx, ← hy]
    rfl
  change plateDistance realMath (StateVector.hArmorXyz realMath.toTrig
    (standingTarget.predict dt).estimate.ekf 4 i, 0) ^ 2 ∈ _
  rw [hdistance, Real.sq_sqrt (by nlinarith)]
  constructor <;> nlinarith

/-- The target that stands five metres ahead can be hit whenever. -/
theorem standingTarget_reachable (unset : (ℝ × ℝ × ℝ) × ℝ) (dt : ℝ) :
    Reachable unset (checkSpeed 23) (standingTarget.predict dt) := by
  have hspeed : checkSpeed (23 : ℝ) = 23 := by norm_num [checkSpeed]
  obtain ⟨⟨hmem, -⟩, -, hpos⟩ := nearestPlate_real unset (standingTarget_inRange dt)
  obtain ⟨hsq, hheight⟩ := standingTarget_distance dt hmem
  unfold Reachable Shot
  generalize (nearestPlate realMath unset ((standingTarget.predict dt).armorXyzaList realMath.toTrig)).2 = q at *
  rw [hspeed, hheight]
  refine exists_hits g_pos (by norm_num) hpos ?_
  have hdrop : drop (g ℝ) 23 (plateDistance realMath q) ≤ 0.3 := by
    unfold drop g
    linarith [hsq.2]
  have hdrop' := drop_pos g_pos (by norm_num : (0 : ℝ) < 23) hpos
  nlinarith [hsq.1]

theorem plan_controls_standing : ∃ p planner', planOptional realMath ((0, 0, 0), 0) (init standardConfig) 1000
    (some standingTarget) 23 = some (p, planner') ∧ p.control = true := by
  obtain ⟨θ, t, hshot⟩ := standingTarget_reachable ((0, 0, 0), 0) (delaySpan (init standardConfig) 1000 standingTarget)
  have hspeed : 0 < checkSpeed (23 : ℝ) := by norm_num [checkSpeed]
  rcases nearestPlate_shot ((0, 0, 0), 0) (standingTarget_inRange (delaySpan (init standardConfig) 1000 standingTarget))
    hspeed with ⟨-, -, hmiss⟩ | ⟨pitch, flight, -, -, hhit, hfastest⟩
  · exact absurd hshot (hmiss θ t)
  · exact (plan_controls (init standardConfig) ((0, 0, 0), 0) 1000 standingTarget 23 standingTarget_inRange).mpr
      ⟨flight, ⟨⟨pitch, hhit⟩, hfastest⟩, fun k _ _ => standingTarget_reachable _ _⟩

/-- What the plan for it promises. -/
theorem plan_leads_standing : ∃ q flight p planner',
    planOptional realMath ((0, 0, 0), 0) (init standardConfig) 1000 (some standingTarget) 23 = some (p, planner') ∧
    p.control = true ∧ Flight (checkSpeed 23) q flight ∧
    Leads standardConfig ((0, 0, 0), 0) (init standardConfig) planner' standingTarget (checkSpeed 23)
      (delaySpan (init standardConfig) 1000 standingTarget + flight) p := by
  obtain ⟨p, planner', hplan, hcontrol⟩ := exists_control (init standardConfig) ((0, 0, 0), 0) 1000 standingTarget 23
    standingTarget_inRange (standingTarget_reachable _)
  obtain ⟨q, -, -, hleads⟩ := plan_leads standardConfig (by norm_num [standardConfig]) (by norm_num [standardConfig])
    (init standardConfig) .init ((0, 0, 0), 0) 1000 standingTarget 23 (standingTarget_inRange _)
  obtain ⟨flight, hflight, hlead⟩ := hleads p planner' hplan hcontrol
  exact ⟨q, flight, p, planner', hplan, hcontrol, hflight, hlead⟩

end SpVision.Planner
