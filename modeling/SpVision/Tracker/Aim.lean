import SpVision.Link.Send
import SpVision.Tracker.Aimer
import SpVision.Tracker.Estimate

set_option autoImplicit false

/-!
# The aim

A target is predicted to when the bullet arrives, which depends on where it is then: the flight time is
iterated until it settles, ten times at most.
-/
namespace SpVision

/-- `io::Command` -/
structure GimbalCommand (K : Type) where
  control : Bool
  shoot : Bool
  yaw : K
  pitch : K
  horizonDistance : K

inductive ShootMode
  | leftShoot | rightShoot | bothShoot
  deriving DecidableEq, Repr

/-- `Aimer` with all its members; `choice` is what chooses a plate, and `debugAimPoint` is none until it is set. -/
structure AimerUnit (K : Type) where
  yawOffset : K
  leftYawOffset : Option K
  rightYawOffset : Option K
  pitchOffset : K
  highSpeedDelayTime : K
  lowSpeedDelayTime : K
  decisionSpeed : K
  choice : Aimer K
  debugAimPoint : Option (AimPoint K) := none

/-- A shot at an aim point. -/
structure AimedShot (K : Type) where
  aimPoint : AimPoint K
  pitch : K
  flyTime : K

abbrev TrackedTarget (K : Type) := Target (TargetEstimate (TargetState K))

section Model

variable {K : Type} [Field K] [LinearOrder K] [IsStrictOrderedRing K] [FloorRing K]

namespace TrackedTarget

/-- What the choice of a plate looks at. -/
def mean (target : TrackedTarget K) : Target (TargetEstimate (StateVector K)) :=
  { target with estimate :=
    { armorNum := target.estimate.armorNum
      ekf := target.estimate.ekf.ekfX
      t := target.estimate.t
      jumped := target.estimate.jumped
      lastId := target.estimate.lastId
      updateCount := target.estimate.updateCount
      isSwitch := target.estimate.isSwitch
      switchCount := target.estimate.switchCount } }

/-- `Target::predict` -/
def predict (target : TrackedTarget K) (t : ℤ) : TrackedTarget K :=
  { target with estimate :=
    { target.estimate with ekf := TargetState.predict target.name target.estimate t, t := t } }

/-- `Target::armor_xyza_list` -/
def armorXyzaList (trig : Trig K) (target : TrackedTarget K) : List ((K × K × K) × K) :=
  target.estimate.ekf.ekfX.armorXyzaList trig target.estimate.armorNum

end TrackedTarget

namespace AimerUnit

/-- The command that takes no control. -/
def noCommand (K : Type) [Field K] : GimbalCommand K := ⟨false, false, 0, 0, 0⟩

variable (m : Cmath K)

/-- A choice of a plate and the trajectory to it, as they stand before the loop and in it. The shot is none where
    `aim` returns without control. -/
def shootAt (aimer : AimerUnit K) (target : TrackedTarget K) (bulletSpeed : K) :
    Option (Option (AimedShot K) × AimerUnit K) :=
  (aimer.choice.chooseAimPoint m.toTrig target.mean).bind fun (aimPoint, choice) =>
    let aimer := { aimer with choice, debugAimPoint := some aimPoint }
    if ¬ aimPoint.valid then some (none, aimer)
    else
      let (x, y, z) := aimPoint.xyza.1
      let trajectory := Trajectory.init m bulletSpeed (m.sqrt (x * x + y * y)) z
      if trajectory.unsolvable then some (none, { aimer with debugAimPoint := some { aimPoint with valid := false } })
      else trajectory.pitch.bind fun pitch => trajectory.flyTime.map fun flyTime => (some ⟨aimPoint, pitch, flyTime⟩, aimer)

/-- When a bullet that flies for a time arrives. -/
def arrival (future : ℤ) (flyTime : K) : ℤ := future + truncate (flyTime * (10 ^ 6 : ℕ)) * 1000

/-- The loop, for the turns that are left and the shot of the turn before. -/
def iterate (target : TrackedTarget K) (future : ℤ) (bulletSpeed : K) :
    ℕ → AimedShot K → AimerUnit K → Option (Option (AimedShot K) × AimerUnit K)
  | 0, previous, aimer => some (some previous, aimer)
  | turns + 1, previous, aimer =>
    (aimer.shootAt m (target.predict (arrival future previous.flyTime)) bulletSpeed).bind fun
      | (none, aimer) => some (none, aimer)
      | (some shot, aimer) =>
        if |shot.flyTime - previous.flyTime| < 0.001 then some (some shot, aimer)
        else iterate target future bulletSpeed turns shot aimer

/-- The point of time from which the bullet flies; `now` is the steady clock. -/
def future (aimer : AimerUnit K) (x : StateVector K) (now timestamp : ℤ) (toNow : Bool) : ℤ :=
  let delayTime := if x 7 > aimer.decisionSpeed then aimer.highSpeedDelayTime else aimer.lowSpeedDelayTime
  let dt := if toNow then (deltaTime now timestamp : ℤ) / (10 ^ 9 : ℕ) + delayTime else 0.005 + delayTime
  timestamp + truncate (dt * (10 ^ 6 : ℕ)) * 1000

/-- The check of the bullet speed. -/
def checkSpeed (bulletSpeed : K) : K := if bulletSpeed < (14 : ℕ) then (23 : ℕ) else bulletSpeed

/-- The command of a shot. -/
def commandOf (aimer : AimerUnit K) (shot : AimedShot K) : GimbalCommand K :=
  { control := true
    shoot := false
    yaw := m.atan2 shot.aimPoint.xyza.1.2.1 shot.aimPoint.xyza.1.1 + aimer.yawOffset
    pitch := -(shot.pitch + aimer.pitchOffset)
    horizonDistance := 0 }

/-- `Aimer::aim` -/
def aim (aimer : AimerUnit K) (targets : List (TrackedTarget K)) (now timestamp : ℤ) (bulletSpeed : K)
    (toNow : Bool) : Option (GimbalCommand K × AimerUnit K) :=
  match targets with
  | [] => some (noCommand K, aimer)
  | target :: _ =>
    let bulletSpeed := checkSpeed bulletSpeed
    let future := aimer.future target.estimate.ekf.ekfX now timestamp toNow
    let target := target.predict future
    (aimer.shootAt m target bulletSpeed).bind fun
      | (none, aimer) => some (noCommand K, aimer)
      | (some shot, aimer) => (iterate m target future bulletSpeed 10 shot aimer).map fun
        | (none, aimer) => (noCommand K, aimer)
        | (some shot, aimer) => (aimer.commandOf m shot, aimer)

/-- `Aimer::aim` with a shoot mode. -/
def aimFor (aimer : AimerUnit K) (targets : List (TrackedTarget K)) (now timestamp : ℤ) (bulletSpeed : K)
    (shootMode : ShootMode) (toNow : Bool) : Option (GimbalCommand K × AimerUnit K) :=
  let yawOffset :=
    match shootMode, aimer.leftYawOffset, aimer.rightYawOffset with
    | .leftShoot, some left, _ => left
    | .rightShoot, _, some right => right
    | _, _, _ => aimer.yawOffset
  (aimer.aim m targets now timestamp bulletSpeed toNow).map fun (command, aimer) =>
    ({ command with yaw := command.yaw - aimer.yawOffset + yawOffset }, aimer)

/-! ### What an aim leaves as it is -/

section Kept

variable {m : Cmath K} {aimer aimer' aimer'' : AimerUnit K} {target : TrackedTarget K} {future : ℤ}
  {bulletSpeed : K}

/-- Only the choice and the aim point differ. -/
def Kept (aimer aimer' : AimerUnit K) : Prop :=
  aimer' = { aimer with choice := aimer'.choice, debugAimPoint := aimer'.debugAimPoint }

omit [Field K] [LinearOrder K] [IsStrictOrderedRing K] [FloorRing K] in
theorem Kept.trans (h : Kept aimer aimer') (h' : Kept aimer' aimer'') : Kept aimer aimer'' := by
  unfold Kept at h h' ⊢
  rw [h', h]

theorem shootAt_kept {shot? : Option (AimedShot K)} (h : aimer.shootAt m target bulletSpeed = some (shot?, aimer')) :
    Kept aimer aimer' := by
  obtain ⟨⟨aimPoint, choice⟩, -, hrest⟩ := Option.bind_eq_some_iff.mp h
  dsimp only at hrest
  split_ifs at hrest
  · obtain ⟨-, rfl⟩ := Prod.mk.inj (Option.some.inj hrest)
    rfl
  · obtain ⟨pitch, -, hflight⟩ := Option.bind_eq_some_iff.mp hrest
    obtain ⟨flyTime, -, heq⟩ := Option.map_eq_some_iff.mp hflight
    obtain ⟨-, rfl⟩ := Prod.mk.inj heq
    rfl
  · obtain ⟨-, rfl⟩ := Prod.mk.inj (Option.some.inj hrest)
    rfl

theorem iterate_kept {turns : ℕ} {previous : AimedShot K} {shot? : Option (AimedShot K)}
    (h : iterate m target future bulletSpeed turns previous aimer = some (shot?, aimer')) : Kept aimer aimer' := by
  induction turns generalizing previous aimer with
  | zero =>
    obtain ⟨-, rfl⟩ := Prod.mk.inj (Option.some.inj h)
    rfl
  | succ turns ih =>
    obtain ⟨⟨next?, aimer₁⟩, hnext, hrest⟩ := Option.bind_eq_some_iff.mp h
    have hfirst := shootAt_kept hnext
    cases next? with
    | none =>
      obtain ⟨-, rfl⟩ := Prod.mk.inj (Option.some.inj hrest)
      exact hfirst
    | some next =>
      dsimp only at hrest
      split_ifs at hrest
      · obtain ⟨-, rfl⟩ := Prod.mk.inj (Option.some.inj hrest)
        exact hfirst
      · exact hfirst.trans (ih hrest)

theorem aim_kept {targets : List (TrackedTarget K)} {now timestamp : ℤ} {toNow : Bool} {command : GimbalCommand K}
    (h : aimer.aim m targets now timestamp bulletSpeed toNow = some (command, aimer')) : Kept aimer aimer' := by
  cases targets with
  | nil =>
    obtain ⟨-, rfl⟩ := Prod.mk.inj (Option.some.inj h)
    rfl
  | cons target rest =>
    obtain ⟨⟨first?, aimer₀⟩, hfirst, hrest⟩ := Option.bind_eq_some_iff.mp h
    cases first? with
    | none =>
      obtain ⟨-, rfl⟩ := Prod.mk.inj (Option.some.inj hrest)
      exact shootAt_kept hfirst
    | some first =>
      obtain ⟨⟨last?, aimer₁⟩, hlast, hcommand⟩ := Option.map_eq_some_iff.mp hrest
      have hkept := (shootAt_kept hfirst).trans (iterate_kept hlast)
      cases last? with
      | none =>
        obtain ⟨-, rfl⟩ := Prod.mk.inj hcommand
        exact hkept
      | some last =>
        obtain ⟨-, rfl⟩ := Prod.mk.inj hcommand
        exact hkept

/-- The yaw offset of a side changes the command alone. -/
theorem aimFor_kept {targets : List (TrackedTarget K)} {now timestamp : ℤ} {shootMode : ShootMode} {toNow : Bool}
    {command : GimbalCommand K}
    (h : aimer.aimFor m targets now timestamp bulletSpeed shootMode toNow = some (command, aimer')) :
    Kept aimer aimer' ∧ ∃ yaw, aimer.aim m targets now timestamp bulletSpeed toNow =
      some ({ command with yaw := yaw }, aimer') := by
  obtain ⟨⟨command', aimer''⟩, haim, hsame⟩ := Option.map_eq_some_iff.mp h
  obtain ⟨rfl, rfl⟩ := Prod.mk.inj hsame
  exact ⟨aim_kept haim, command'.yaw, haim⟩

end Kept

end AimerUnit

end Model

end SpVision
