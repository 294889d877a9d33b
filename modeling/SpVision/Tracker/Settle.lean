import SpVision.Tracker.Aim

set_option autoImplicit false

/-!
# The settled aim

A command with control is the fastest shot at where the plate is about when the bullet arrives.
-/
namespace SpVision

open Ballistics Trajectory

/-- The point is hit after the time, and no shot of the speed hits it sooner. -/
def FastestShot (v : ℝ) (xyz : ℝ × ℝ × ℝ) (pitch flyTime : ℝ) : Prop :=
  0 ≤ flyTime ∧ Hits (g ℝ) v (√(xyz.1 * xyz.1 + xyz.2.1 * xyz.2.1)) xyz.2.2 pitch flyTime ∧
    ∀ θ t, 0 ≤ t → Hits (g ℝ) v (√(xyz.1 * xyz.1 + xyz.2.1 * xyz.2.1)) xyz.2.2 θ t → flyTime ≤ t

/-- No plate of the target ever comes over the gun. -/
def TrackedTarget.Apart (target : TrackedTarget ℝ) : Prop :=
  ∀ times : List ℤ, ∀ q ∈ (times.foldl TrackedTarget.predict target).armorXyzaList realMath.toTrig,
    0 < q.1.1 * q.1.1 + q.1.2.1 * q.1.2.1

namespace Aimer

variable {K : Type} [Field K] [LinearOrder K] [IsStrictOrderedRing K] [FloorRing K]

omit [Field K] [LinearOrder K] [IsStrictOrderedRing K] [FloorRing K] in
theorem mem_of_map_getElem? {l : List ((K × K × K) × K)} {i : ℕ} {valid : Bool} {after : Aimer K} {p : AimPoint K}
    {aimer' : Aimer K} (h : l[i]?.map (fun xyza => ((⟨valid, xyza⟩ : AimPoint K), after)) = some (p, aimer')) :
    p.xyza ∈ l := by
  obtain ⟨xyza, hget, heq⟩ := Option.map_eq_some_iff.mp h
  obtain ⟨rfl, -⟩ := Prod.mk.inj heq
  exact List.mem_of_getElem? hget

variable {trig : Trig K} {aimer aimer' : Aimer K} {p : AimPoint K} {l : List ((K × K × K) × K)} {deltas : List K}

omit [IsStrictOrderedRing K] [FloorRing K] in
theorem chooseFacing_mem (h : chooseFacing aimer l deltas = some (p, aimer')) : p.xyza ∈ l := by
  unfold chooseFacing at h
  split at h <;> exact mem_of_map_getElem? h

omit [IsStrictOrderedRing K] [FloorRing K] in
theorem chooseSpinning_mem {coming leaving w : K} (h : chooseSpinning aimer coming leaving w l deltas = some (p, aimer')) :
    p.xyza ∈ l := by
  unfold chooseSpinning at h
  split at h <;> exact mem_of_map_getElem? h

/-- An aim point is one of the plates. -/
theorem chooseAimPoint_mem {target : Target (TargetEstimate (StateVector K))}
    (h : aimer.chooseAimPoint trig target = some (p, aimer')) :
    p.xyza ∈ target.estimate.ekf.armorXyzaList trig target.estimate.armorNum := by
  unfold chooseAimPoint at h
  dsimp only at h
  split_ifs at h
  · exact chooseFacing_mem h
  · exact chooseSpinning_mem h
  · exact chooseSpinning_mem h
  · exact mem_of_map_getElem? h

end Aimer

namespace AimerUnit

/-- The choice of a plate and the fastest shot at it. -/
structure TakesShot (v : ℝ) (target : TrackedTarget ℝ) (before after : Aimer ℝ) (shot : AimedShot ℝ) : Prop where
  chosen : before.chooseAimPoint realMath.toTrig target.mean = some (shot.aimPoint, after)
  valid : shot.aimPoint.valid = true
  fastest : FastestShot v shot.aimPoint.xyza.1 shot.pitch shot.flyTime

/-- The choice is not valid, or no shot hits it. -/
def NoShot (v : ℝ) (target : TrackedTarget ℝ) (before : Aimer ℝ) : Prop :=
  ∃ p after, before.chooseAimPoint realMath.toTrig target.mean = some (p, after) ∧
    (p.valid = false ∨ ∀ θ t, 0 ≤ t →
      ¬ Hits (g ℝ) v (√(p.xyza.1.1 * p.xyza.1.1 + p.xyza.1.2.1 * p.xyza.1.2.1)) p.xyza.1.2.2 θ t)

variable {v : ℝ} {aimer aimer' : AimerUnit ℝ} {target : TrackedTarget ℝ}

theorem shootAt_cases (hv : 0 < v)
    (hapart : ∀ q ∈ target.armorXyzaList realMath.toTrig, 0 < q.1.1 * q.1.1 + q.1.2.1 * q.1.2.1)
    {shot? : Option (AimedShot ℝ)} (h : aimer.shootAt realMath target v = some (shot?, aimer')) :
    (shot? = none ∧ NoShot v target aimer.choice) ∨
    ∃ shot, shot? = some shot ∧ TakesShot v target aimer.choice aimer'.choice shot ∧
      aimer' = { aimer with choice := aimer'.choice, debugAimPoint := some shot.aimPoint } := by
  obtain ⟨⟨p, choice⟩, hchosen, hrest⟩ := Option.bind_eq_some_iff.mp h
  have hpos := hapart p.xyza (Aimer.chooseAimPoint_mem hchosen)
  have hdistance : 0 < √(p.xyza.1.1 * p.xyza.1.1 + p.xyza.1.2.1 * p.xyza.1.2.1) := Real.sqrt_pos.mpr hpos
  obtain ⟨hnone, hsome⟩ := trajectory_fastest v _ p.xyza.1.2.2 hv hdistance
  dsimp only at hrest
  by_cases hvalid : p.valid = true
  · rw [if_neg (not_not.mpr hvalid)] at hrest
    change (if (Trajectory.init realMath v (√(p.xyza.1.1 * p.xyza.1.1 + p.xyza.1.2.1 * p.xyza.1.2.1))
      p.xyza.1.2.2).unsolvable = true then _ else _) = _ at hrest
    split_ifs at hrest with hunsolvable
    · obtain ⟨rfl, rfl⟩ := Prod.mk.inj (Option.some.inj hrest)
      exact .inl ⟨rfl, p, choice, hchosen, .inr (hnone.mp hunsolvable)⟩
    · obtain ⟨pitch, t, hpitch, htime, -, htpos, hhit, hfastest⟩ := hsome (Bool.not_eq_true _ ▸ hunsolvable)
      have hshot : some (some ⟨p, pitch, t⟩, { aimer with choice, debugAimPoint := some p }) = some (shot?, aimer') := by
        rw [← hrest, show realMath.sqrt _ = √_ from rfl, hpitch, htime, Option.bind_some, Option.map_some]
      obtain ⟨rfl, rfl⟩ := Prod.mk.inj (Option.some.inj hshot)
      exact .inr ⟨_, rfl, ⟨hchosen, hvalid, htpos.le, hhit, fun θ t' ht hhit' => (hfastest θ t' ht hhit').1⟩, rfl⟩
  · rw [if_pos hvalid] at hrest
    obtain ⟨rfl, rfl⟩ := Prod.mk.inj (Option.some.inj hrest)
    exact .inl ⟨rfl, p, choice, hchosen, .inl (Bool.not_eq_true _ ▸ hvalid)⟩

/-- The turns of the loop that have not settled: each shot is at where the target is when the one before arrives. -/
inductive Chases (v : ℝ) (target : TrackedTarget ℝ) (future : ℤ) (before : Aimer ℝ) :
    ℕ → AimedShot ℝ → Aimer ℝ → Prop
  | first {shot : AimedShot ℝ} {after : Aimer ℝ} (h : TakesShot v target before after shot) :
    Chases v target future before 0 shot after
  | turn {n : ℕ} {previous shot : AimedShot ℝ} {middle after : Aimer ℝ}
    (hbefore : Chases v target future before n previous middle)
    (h : TakesShot v (target.predict (arrival future previous.flyTime)) middle after shot)
    (hunsettled : 0.001 ≤ |shot.flyTime - previous.flyTime|) : Chases v target future before (n + 1) shot after

variable {future : ℤ} {before : Aimer ℝ}

/-- How the loop ends: with a shot that has settled or ends the tenth turn, or without one. -/
theorem iterate_cases (hv : 0 < v) (hapart : target.Apart) {turns n : ℕ} (hturns : n + turns = 10)
    {previous : AimedShot ℝ} (hchases : Chases v target future before n previous aimer.choice)
    (hpoint : aimer.debugAimPoint = some previous.aimPoint) {shot? : Option (AimedShot ℝ)}
    (h : iterate realMath target future v turns previous aimer = some (shot?, aimer')) :
    (shot? = none ∧ ∃ n previous middle, n < 10 ∧ Chases v target future before n previous middle ∧
      NoShot v (target.predict (arrival future previous.flyTime)) middle) ∨
    ∃ shot, shot? = some shot ∧ aimer' = { aimer with choice := aimer'.choice, debugAimPoint := some shot.aimPoint } ∧
      (Chases v target future before 10 shot aimer'.choice ∨
        ∃ n previous middle, n < 10 ∧ Chases v target future before n previous middle ∧
          TakesShot v (target.predict (arrival future previous.flyTime)) middle aimer'.choice shot ∧
          |shot.flyTime - previous.flyTime| < 0.001) := by
  induction turns generalizing n previous aimer with
  | zero =>
    obtain ⟨rfl, rfl⟩ := Prod.mk.inj (Option.some.inj h)
    obtain rfl : n = 10 := hturns
    refine .inr ⟨previous, rfl, ?_, .inl hchases⟩
    rw [← hpoint]
  | succ turns ih =>
    obtain ⟨⟨next?, aimer₁⟩, hnext, hrest⟩ := Option.bind_eq_some_iff.mp h
    rcases shootAt_cases hv (hapart [arrival future previous.flyTime]) hnext with
      ⟨rfl, hnone⟩ | ⟨next, rfl, htakes, haimer₁⟩
    · obtain ⟨rfl, rfl⟩ := Prod.mk.inj (Option.some.inj hrest)
      exact .inl ⟨rfl, n, previous, aimer.choice, by omega, hchases, hnone⟩
    · dsimp only at hrest
      split_ifs at hrest with hsettled
      · obtain ⟨rfl, rfl⟩ := Prod.mk.inj (Option.some.inj hrest)
        exact .inr ⟨next, rfl, haimer₁, .inr ⟨n, previous, aimer.choice, by omega, hchases, htakes, hsettled⟩⟩
      · have hpoint₁ : aimer₁.debugAimPoint = some next.aimPoint := by
          rw [haimer₁]
        rcases ih (n := n + 1) (by omega) (hchases.turn htakes (not_lt.mp hsettled)) hpoint₁ hrest with
          hnone | ⟨shot, hshot, haimer', hends⟩
        · exact .inl hnone
        · refine .inr ⟨shot, hshot, ?_, hends⟩
          rw [haimer', haimer₁]

/-- A shot at where the target is within about a millisecond of when the bullet arrives. -/
def Settled (v : ℝ) (target : TrackedTarget ℝ) (future : ℤ) (shot : AimedShot ℝ) : Prop :=
  ∃ (t : ℤ) (before after : Aimer ℝ), TakesShot v (target.predict t) before after shot ∧
    |((t - future : ℤ) : ℝ) / (10 ^ 9 : ℕ) - shot.flyTime| < 0.001001

/-- The time of arrival is rounded to microseconds. -/
theorem abs_arrival_sub_lt (future : ℤ) (flyTime : ℝ) :
    |((arrival future flyTime - future : ℤ) : ℝ) / 10 ^ 9 - flyTime| < 0.000001 := by
  have hround := abs_truncate_sub_lt (flyTime * (10 ^ 6 : ℕ))
  have hsplit : ((arrival future flyTime - future : ℤ) : ℝ) / 10 ^ 9 - flyTime =
      ((truncate (flyTime * (10 ^ 6 : ℕ)) : ℤ) - flyTime * (10 ^ 6 : ℕ)) / 10 ^ 6 := by
    rw [arrival, add_sub_cancel_left]
    push_cast
    ring
  rw [hsplit, abs_div, abs_of_pos (by norm_num : (0 : ℝ) < 10 ^ 6), div_lt_iff₀ (by norm_num)]
  exact hround.trans_eq (by norm_num)

theorem settled_of_near {previous shot : AimedShot ℝ} {middle after : Aimer ℝ}
    (h : TakesShot v (target.predict (arrival future previous.flyTime)) middle after shot)
    (hnear : |shot.flyTime - previous.flyTime| < 0.001) : Settled v target future shot := by
  refine ⟨arrival future previous.flyTime, middle, after, h, ?_⟩
  have harrival := abs_lt.mp (abs_arrival_sub_lt future previous.flyTime)
  have hnear' := abs_lt.mp hnear
  rw [abs_lt]
  constructor <;> linarith

theorem checkSpeed_pos (bulletSpeed : ℝ) : 0 < checkSpeed bulletSpeed := by
  unfold checkSpeed
  split_ifs with hslow
  · norm_num
  · rw [not_lt] at hslow
    exact lt_of_lt_of_le (by norm_num) hslow

section Results

variable {rest : List (TrackedTarget ℝ)} {now timestamp : ℤ} {bulletSpeed : ℝ} {toNow : Bool}
  {command : GimbalCommand ℝ}

/-- The two ways in which `aim` ends. -/
theorem aim_cases (hapart : target.Apart)
    (h : aimer.aim realMath (target :: rest) now timestamp bulletSpeed toNow = some (command, aimer')) :
    let v := checkSpeed bulletSpeed
    let future := aimer.future target.estimate.ekf.ekfX now timestamp toNow
    let awaited := target.predict future
    (command = noCommand ℝ ∧ (NoShot v awaited aimer.choice ∨ ∃ n previous middle, n < 10 ∧
      Chases v awaited future aimer.choice n previous middle ∧
      NoShot v (awaited.predict (arrival future previous.flyTime)) middle)) ∨
    ∃ shot, command = aimer.commandOf realMath shot ∧
      aimer' = { aimer with choice := aimer'.choice, debugAimPoint := some shot.aimPoint } ∧
      (Settled v awaited future shot ∨ Chases v awaited future aimer.choice 10 shot aimer'.choice) := by
  intro v future awaited
  have hv : 0 < v := checkSpeed_pos bulletSpeed
  obtain ⟨⟨first?, aimer₀⟩, hfirst, hrest⟩ := Option.bind_eq_some_iff.mp h
  rcases shootAt_cases hv (hapart [future]) hfirst with ⟨rfl, hnone⟩ | ⟨first, rfl, htakes, haimer₀⟩
  · obtain ⟨rfl, rfl⟩ := Prod.mk.inj (Option.some.inj hrest)
    exact .inl ⟨rfl, .inl hnone⟩
  · obtain ⟨⟨last?, aimer₁⟩, hlast, hcommand⟩ := Option.map_eq_some_iff.mp hrest
    have hpoint : aimer₀.debugAimPoint = some first.aimPoint := by
      rw [haimer₀]
    have hawaited : awaited.Apart := fun times => hapart (future :: times)
    rcases iterate_cases hv hawaited (zero_add 10) (.first htakes) hpoint hlast with
      ⟨rfl, hnone⟩ | ⟨shot, rfl, haimer₁, hends⟩
    · obtain ⟨rfl, rfl⟩ := Prod.mk.inj hcommand
      exact .inl ⟨rfl, .inr hnone⟩
    · obtain ⟨rfl, rfl⟩ := Prod.mk.inj hcommand
      have hkept : aimer₁ = { aimer with choice := aimer₁.choice, debugAimPoint := some shot.aimPoint } := by
        rw [haimer₁, haimer₀]
      refine .inr ⟨shot, ?_, hkept, ?_⟩
      · rw [hkept]
        rfl
      · rcases hends with hten | ⟨n, previous, middle, -, -, hshot, hnear⟩
        · exact .inr hten
        · exact .inl (settled_of_near hshot hnear)

/-- A shot that is taken is at a valid plate. -/
theorem valid_of_ends {shot : AimedShot ℝ} {after : Aimer ℝ}
    (h : Settled v target future shot ∨ Chases v target future before 10 shot after) : shot.aimPoint.valid = true := by
  rcases h with ⟨t, before, after, hshot, -⟩ | hten
  · exact hshot.valid
  · cases hten with
    | turn _ hshot _ => exact hshot.valid

/-- Control is taken for the shot that has settled or ends the tenth turn, and left when a turn of the chase finds no
    shot. -/
theorem aim_settles (hapart : target.Apart)
    (h : aimer.aim realMath (target :: rest) now timestamp bulletSpeed toNow = some (command, aimer')) :
    let v := checkSpeed bulletSpeed
    let future := aimer.future target.estimate.ekf.ekfX now timestamp toNow
    let awaited := target.predict future
    (command.control = false → command = noCommand ℝ ∧ (NoShot v awaited aimer.choice ∨ ∃ n previous middle, n < 10 ∧
      Chases v awaited future aimer.choice n previous middle ∧
      NoShot v (awaited.predict (arrival future previous.flyTime)) middle)) ∧
    (command.control = true → ∃ shot, command = aimer.commandOf realMath shot ∧
      aimer'.debugAimPoint = some shot.aimPoint ∧ shot.aimPoint.valid = true ∧
      (Settled v awaited future shot ∨ Chases v awaited future aimer.choice 10 shot aimer'.choice)) := by
  intro v future awaited
  rcases aim_cases hapart h with ⟨rfl, hnone⟩ | ⟨shot, rfl, haimer', hends⟩
  · exact ⟨fun _ => ⟨rfl, hnone⟩, nofun⟩
  · refine ⟨nofun, fun _ => ⟨shot, rfl, ?_, valid_of_ends hends, hends⟩⟩
    rw [haimer']

end Results

/-- A target that stands five metres ahead, of which one plate is known. -/
noncomputable def aheadTarget : TrackedTarget ℝ :=
  { name := .three, armorType := .small, priority := .first
    estimate := { armorNum := 4, t := 0
                  ekf := ⟨.init ![5.0, 0, 0, 0, 0.3, 0, 0, 0, 0.2, 0, 0] 0 StateVector.xAdd, false⟩ } }

noncomputable def restingAimer : AimerUnit ℝ :=
  { yawOffset := 0, leftYawOffset := none, rightYawOffset := none, pitchOffset := 0, highSpeedDelayTime := 0
    lowSpeedDelayTime := 0, decisionSpeed := 7.0, choice := { commingAngle := 1, leavingAngle := 0 } }

/-- What of the target stays as it is predicted. -/
structure Ahead (target : TrackedTarget ℝ) : Prop where
  name : target.name = .three
  plates : target.estimate.armorNum = 4
  jumped : target.estimate.jumped = false
  mean : target.estimate.ekf.ekfX = ![5.0, 0, 0, 0, 0.3, 0, 0, 0, 0.2, 0, 0]

theorem aheadTarget_ahead : Ahead aheadTarget := ⟨rfl, rfl, rfl, rfl⟩

theorem Ahead.predict (h : Ahead target) (t : ℤ) : Ahead (target.predict t) := by
  refine ⟨h.name, h.plates, h.jumped, ?_⟩
  change StateVector.propagateBy _ (target.estimate.ekf.ekfX.clampSpin _) = _
  rw [h.mean, h.name, StateVector.propagateBy_eq, StateVector.clampSpin, if_neg (by simp)]
  unfold StateVector.propagate
  simp [limitRad_cvPi_zero]

theorem Ahead.apart (h : Ahead target) : target.Apart := by
  intro times
  induction times generalizing target with
  | nil =>
    intro q hq
    obtain ⟨i, -, rfl⟩ := List.mem_map.mp hq
    have hcos := Real.cos_le_one (limitRad (cvPi ℝ) (target.estimate.ekf.ekfX 6 +
      (i * 2 : ℕ) * (cvPi ℝ).val / target.estimate.armorNum))
    refine add_pos_of_pos_of_nonneg (mul_self_pos.mpr (ne_of_gt ?_)) (mul_self_nonneg _)
    simp only [StateVector.hArmorXyz, List.foldl_nil, h.mean] at hcos ⊢
    simp [realMath] at hcos ⊢
    linarith
  | cons t times ih => exact ih (h.predict t)

/-- The plate that faces the gun. -/
noncomputable def facingPlate : AimPoint ℝ := ⟨true, ((4.8, 0, 0.3), 0)⟩

theorem Ahead.chooseAimPoint (h : Ahead target) (before : Aimer ℝ) :
    before.chooseAimPoint realMath.toTrig target.mean = some (facingPlate, before) := by
  have hplate : (target.mean.estimate.ekf.armorXyzaList realMath.toTrig target.mean.estimate.armorNum)[0]? =
      some facingPlate.xyza := by
    change (target.estimate.ekf.ekfX.armorXyzaList realMath.toTrig target.estimate.armorNum)[0]? = _
    rw [h.mean, h.plates]
    simp [StateVector.armorXyzaList, StateVector.hArmorXyz, limitRad_cvPi_zero, realMath, facingPlate]
    norm_num
  rw [Aimer.chooseAimPoint]
  dsimp only
  rw [hplate]
  exact if_pos (Bool.not_eq_true _ ▸ h.jumped)

/-- The shot at it. -/
noncomputable def facingShot : AimedShot ℝ :=
  ⟨facingPlate, Real.arctan (Trajectory.slope 23 4.8 0.3),
    4.8 / (23 * Real.cos (Real.arctan (Trajectory.slope 23 4.8 0.3)))⟩

theorem Ahead.shootAt (h : Ahead target) (aimer : AimerUnit ℝ) :
    aimer.shootAt realMath target 23 =
      some (some facingShot, { aimer with debugAimPoint := some facingPlate }) := by
  have hdistance : √(4.8 * 4.8 + 0 * 0) = 4.8 := by
    rw [mul_zero, add_zero, Real.sqrt_mul_self (by norm_num)]
  have hinit : init realMath 23 4.8 0.3 = _ := init_flat (by norm_num) (by norm_num) (by norm_num [drop, g])
  unfold AimerUnit.shootAt
  rw [h.chooseAimPoint, Option.bind_some]
  dsimp only [facingPlate]
  rw [if_neg (by simp), show realMath.sqrt _ = √_ from rfl, hdistance, hinit]
  rfl

/-- The shot at it settles in the first turn. -/
theorem aim_ahead : restingAimer.aim realMath [aheadTarget] 1000 0 23 true =
    some (restingAimer.commandOf realMath facingShot, { restingAimer with debugAimPoint := some facingPlate }) := by
  have hspeed : checkSpeed (23 : ℝ) = 23 := if_neg (by norm_num)
  have hpredicted (t : ℤ) : Ahead (aheadTarget.predict t) := aheadTarget_ahead.predict t
  unfold AimerUnit.aim
  dsimp only
  rw [hspeed, (hpredicted _).shootAt, Option.bind_some]
  dsimp only
  rw [iterate, ((hpredicted _).predict _).shootAt, Option.bind_some]
  dsimp only
  rw [sub_self, abs_zero, if_pos (by norm_num)]
  rfl

theorem aim_settles_ahead :
    let future := restingAimer.future aheadTarget.estimate.ekf.ekfX 1000 0 true
    ∃ shot, restingAimer.commandOf realMath facingShot = restingAimer.commandOf realMath shot ∧
      shot.aimPoint = facingPlate ∧
      (Settled (checkSpeed 23) (aheadTarget.predict future) future shot ∨
        Chases (checkSpeed 23) (aheadTarget.predict future) future restingAimer.choice 10 shot restingAimer.choice) := by
  obtain ⟨shot, hcommand, hpoint, -, hends⟩ := (aim_settles aheadTarget_ahead.apart aim_ahead).2 rfl
  exact ⟨shot, hcommand, (Option.some.inj hpoint).symm, hends⟩

end AimerUnit

end SpVision
