import SpVision.Planner.Plan
import SpVision.Tracker.Settle

set_option autoImplicit false

/-!
# The generation of commands

One thread pushes what the tracker sees; another aims at what was pushed last, while it is fresh, and decides on the
shot by the command before.
-/
namespace SpVision

structure Shooter (K : Type) where
  lastCommand : GimbalCommand K
  judgeDistance : K
  firstTolerance : K
  secondTolerance : K
  autoFire : Bool

/-- `CommandGener::Input` -/
structure CommandInput (K : Type) where
  targets : List (TrackedTarget K)
  t : ℤ
  bulletSpeed : K
  gimbalPos : K × K × K

/-- `CommandGener`, with the aimer and the shooter that it holds. -/
structure CommandGener (K : Type) where
  aimer : AimerUnit K
  shooter : Shooter K
  latest : Option (CommandInput K) := none

/-- A push, or a turn of the loop with the clock at its check and at its aim. -/
inductive CommandMove (K : Type)
  | push (input : CommandInput K)
  | turn (checked now : ℤ)

section Model

variable {K : Type} [Field K] [LinearOrder K] [IsStrictOrderedRing K] [FloorRing K]

namespace Shooter

omit [LinearOrder K] [IsStrictOrderedRing K] [FloorRing K] in
/-- The constructor of `Shooter`. -/
def init (judgeDistance firstTolerance secondTolerance : K) (autoFire : Bool) : Shooter K :=
  { lastCommand := ⟨false, false, 0, 0, 0⟩, judgeDistance, firstTolerance, secondTolerance, autoFire }

variable (m : Cmath K)

omit [IsStrictOrderedRing K] [FloorRing K] in
/-- The tolerance at the distance of a target. -/
def tolerance (shooter : Shooter K) (x : StateVector K) : K :=
  if m.sqrt (x 0 * x 0 + x 2 * x 2) > shooter.judgeDistance then shooter.secondTolerance else shooter.firstTolerance

omit [IsStrictOrderedRing K] [FloorRing K] in
/-- `Shooter::shoot`; an aim point that is not set is not valid. -/
def shoot (shooter : Shooter K) (command : GimbalCommand K) (aimer : AimerUnit K) (targets : List (TrackedTarget K))
    (gimbalPos : K × K × K) : Bool × Shooter K :=
  match targets with
  | [] => (false, shooter)
  | target :: _ =>
    if ¬ command.control ∨ ¬ shooter.autoFire then (false, shooter)
    else
      let tolerance := shooter.tolerance m target.estimate.ekf.ekfX
      let fires : Bool := |shooter.lastCommand.yaw - command.yaw| < tolerance * (2 : ℕ) ∧
        |gimbalPos.1 - shooter.lastCommand.yaw| < tolerance ∧ aimer.debugAimPoint.any (·.valid)
      (fires, { shooter with lastCommand := command })

end Shooter

namespace CommandGener

variable (m : Cmath K)

/-- The horizontal distance of the first target. -/
def horizonDistance : List (TrackedTarget K) → K
  | [] => 0
  | target :: _ =>
    let x := target.estimate.ekf.ekfX
    m.sqrt (x 0 * x 0 + x 2 * x 2)

/-- What the check at the start of a turn lets through. -/
def fresh (gener : CommandGener K) (checked : ℤ) : Option (CommandInput K) :=
  gener.latest.filter fun input => (deltaTime checked input.t : K) / (10 ^ 9 : ℕ) < 0.2

/-- A turn of `CommandGener::generate_command`, with what it aims at and the command that it sends. -/
def generateCommand (gener : CommandGener K) (checked now : ℤ) :
    Option (CommandGener K × Option (CommandInput K × GimbalCommand K)) :=
  match gener.fresh checked with
  | none => some (gener, none)
  | some input =>
    (gener.aimer.aim m input.targets now input.t input.bulletSpeed true).map fun (command, aimer) =>
      let (shoot, shooter) := gener.shooter.shoot m command aimer input.targets input.gimbalPos
      ({ gener with aimer, shooter },
        some (input, { command with shoot, horizonDistance := horizonDistance m input.targets }))

/-- The runs of the two threads, with what was sent. -/
inductive Runs (start : CommandGener K) :
    List (CommandMove K) → List (CommandInput K × GimbalCommand K) → CommandGener K → Prop
  | nil : Runs start [] [] start
  | push {moves : List (CommandMove K)} {sent : List (CommandInput K × GimbalCommand K)} {gener : CommandGener K}
    (h : Runs start moves sent gener) (input : CommandInput K) :
    Runs start (moves ++ [.push input]) sent { gener with latest := some input }
  | turn {moves : List (CommandMove K)} {sent : List (CommandInput K × GimbalCommand K)} {gener gener' : CommandGener K}
    {result : Option (CommandInput K × GimbalCommand K)} (h : Runs start moves sent gener) (checked now : ℤ)
    (hturn : gener.generateCommand m checked now = some (gener', result)) :
    Runs start (moves ++ [.turn checked now]) (sent ++ result.toList) gener'

end CommandGener

end Model

/-- What was pushed last. -/
def lastPushed {K : Type} (moves : List (CommandMove K)) : Option (CommandInput K) :=
  (moves.filterMap fun
    | .push input => some input
    | .turn _ _ => none).getLast?

/-- The yaw of the last command with control, zero before it. -/
def lastYaw {K : Type} [Zero K] (sent : List (CommandInput K × GimbalCommand K)) : K :=
  ((sent.filter (·.2.control)).getLast?.map (·.2.yaw)).getD 0

namespace CommandGener

open AimerUnit Trajectory

variable {aimer : AimerUnit ℝ} {shooter : Shooter ℝ} {moves : List (CommandMove ℝ)}
  {sent : List (CommandInput ℝ × GimbalCommand ℝ)} {gener gener' : CommandGener ℝ} {checked now : ℤ}
  {input : CommandInput ℝ} {command : GimbalCommand ℝ}

theorem fresh_cases (h : gener.fresh checked = some input) :
    gener.latest = some input ∧ checked - input.t < 200000000 := by
  obtain ⟨hlatest, hage⟩ := Option.filter_eq_some_iff.mp h
  refine ⟨hlatest, ?_⟩
  have hseconds : ((checked - input.t : ℤ) : ℝ) / (10 ^ 9 : ℕ) < 0.2 := of_decide_eq_true hage
  rw [div_lt_iff₀ (by norm_num)] at hseconds
  have hnanoseconds : ((checked - input.t : ℤ) : ℝ) < (200000000 : ℤ) := hseconds.trans_eq (by norm_num)
  exact_mod_cast hnanoseconds

theorem generateCommand_cases {result : Option (CommandInput ℝ × GimbalCommand ℝ)}
    (h : gener.generateCommand realMath checked now = some (gener', result)) :
    (gener' = gener ∧ result = none) ∨ ∃ input command aimer', gener.fresh checked = some input ∧
      gener.aimer.aim realMath input.targets now input.t input.bulletSpeed true = some (command, aimer') ∧
      let fired := gener.shooter.shoot realMath command aimer' input.targets input.gimbalPos
      gener' = { gener with aimer := aimer', shooter := fired.2 } ∧
        result = some (input, { command with
          shoot := fired.1, horizonDistance := horizonDistance realMath input.targets }) := by
  unfold generateCommand at h
  cases hfresh : gener.fresh checked with
  | none =>
    rw [hfresh] at h
    obtain ⟨rfl, rfl⟩ := Prod.mk.inj (Option.some.inj h)
    exact .inl ⟨rfl, rfl⟩
  | some input =>
    rw [hfresh] at h
    obtain ⟨⟨command, aimer'⟩, haim, heq⟩ := Option.map_eq_some_iff.mp h
    obtain ⟨rfl, rfl⟩ := Prod.mk.inj heq
    exact .inr ⟨input, command, aimer', rfl, haim, rfl, rfl⟩

theorem generateCommand_of_fresh {aimer' : AimerUnit ℝ} (hfresh : gener.fresh checked = some input)
    (haim : gener.aimer.aim realMath input.targets now input.t input.bulletSpeed true = some (command, aimer')) :
    let fired := gener.shooter.shoot realMath command aimer' input.targets input.gimbalPos
    gener.generateCommand realMath checked now = some ({ gener with aimer := aimer', shooter := fired.2 },
      some (input, { command with
        shoot := fired.1, horizonDistance := horizonDistance realMath input.targets })) := by
  unfold generateCommand
  rw [hfresh]
  dsimp only
  rw [haim, Option.map_some]

theorem shoot_of_control {target : TrackedTarget ℝ} {rest : List (TrackedTarget ℝ)} {gimbalPos : ℝ × ℝ × ℝ}
    (hcontrol : command.control = true) (hfire : shooter.autoFire = true) :
    let tolerance := shooter.tolerance realMath target.estimate.ekf.ekfX
    shooter.shoot realMath command aimer (target :: rest) gimbalPos =
      (decide (|shooter.lastCommand.yaw - command.yaw| < tolerance * (2 : ℕ) ∧
        |gimbalPos.1 - shooter.lastCommand.yaw| < tolerance ∧ aimer.debugAimPoint.any (·.valid) = true),
        { shooter with lastCommand := command }) :=
  if_neg (by simp [hcontrol, hfire])

theorem shoot_idle {targets : List (TrackedTarget ℝ)} {gimbalPos : ℝ × ℝ × ℝ}
    (hidle : command.control = false ∨ shooter.autoFire = false) :
    shooter.shoot realMath command aimer targets gimbalPos = (false, shooter) := by
  cases targets with
  | nil => rfl
  | cons target rest =>
    refine if_pos (hidle.imp ?_ ?_) <;> exact fun hfalse => by simp [hfalse]

/-- A command with control has a target. -/
theorem targets_of_control {aimer' : AimerUnit ℝ} {targets : List (TrackedTarget ℝ)} {timestamp : ℤ} {bulletSpeed : ℝ}
    (haim : aimer.aim realMath targets now timestamp bulletSpeed true = some (command, aimer'))
    (hcontrol : command.control = true) : ∃ target rest, targets = target :: rest := by
  cases targets with
  | nil =>
    obtain ⟨rfl, -⟩ := Prod.mk.inj (Option.some.inj haim)
    exact absurd hcontrol Bool.false_ne_true
  | cons target rest => exact ⟨target, rest, rfl⟩

theorem lastYaw_concat (x : CommandInput ℝ × GimbalCommand ℝ) :
    lastYaw (sent ++ [x]) = if x.2.control then x.2.yaw else lastYaw sent := by
  unfold lastYaw
  rw [List.filter_append]
  split_ifs with hcontrol <;> simp [hcontrol]

/-- What holds after a run. -/
structure Follows (start : CommandGener ℝ) (moves : List (CommandMove ℝ))
    (sent : List (CommandInput ℝ × GimbalCommand ℝ)) (gener : CommandGener ℝ) : Prop where
  latest : gener.latest = lastPushed moves
  aimer : Kept start.aimer gener.aimer
  shooter : gener.shooter = { start.shooter with lastCommand := gener.shooter.lastCommand }
  yaw : start.shooter.autoFire = true → gener.shooter.lastCommand.yaw = lastYaw sent

theorem Follows.turn {start : CommandGener ℝ} (h : Follows start moves sent gener)
    {result : Option (CommandInput ℝ × GimbalCommand ℝ)}
    (hturn : gener.generateCommand realMath checked now = some (gener', result)) :
    Follows start (moves ++ [.turn checked now]) (sent ++ result.toList) gener' := by
  have hlatest : lastPushed (moves ++ [.turn checked now]) = lastPushed moves := by
    simp [lastPushed]
  rcases generateCommand_cases hturn with ⟨rfl, rfl⟩ | ⟨input, command, aimer', -, haim, rfl, rfl⟩
  · rw [Option.toList_none, List.append_nil]
    exact ⟨h.latest.trans hlatest.symm, h.aimer, h.shooter, h.yaw⟩
  · have hkept : Kept start.aimer aimer' := h.aimer.trans (aim_kept haim)
    have hfire : gener.shooter.autoFire = start.shooter.autoFire := by
      rw [h.shooter]
    rw [Option.toList_some]
    cases hcontrol : command.control with
    | false =>
      rw [shoot_idle (.inl hcontrol)]
      refine ⟨h.latest.trans hlatest.symm, hkept, h.shooter, fun hstart => ?_⟩
      rw [lastYaw_concat, if_neg (by simp)]
      exact h.yaw hstart
    | true =>
      obtain ⟨target, rest, htargets⟩ := targets_of_control haim hcontrol
      cases hauto : start.shooter.autoFire with
      | false =>
        rw [shoot_idle (.inr (hfire.trans hauto))]
        exact ⟨h.latest.trans hlatest.symm, hkept, h.shooter, fun hstart => absurd (hauto.symm.trans hstart) (by simp)⟩
      | true =>
        rw [htargets, shoot_of_control hcontrol (hfire.trans hauto)]
        refine ⟨h.latest.trans hlatest.symm, hkept, ?_, fun _ => ?_⟩
        · rw [h.shooter]
        · rw [lastYaw_concat]
          exact (if_pos rfl).symm

theorem Runs.follows {start : CommandGener ℝ} (hlatest : start.latest = none)
    (hlast : start.shooter.lastCommand.yaw = 0) (hruns : Runs realMath start moves sent gener) :
    Follows start moves sent gener := by
  induction hruns with
  | nil => exact ⟨hlatest, rfl, rfl, fun _ => hlast⟩
  | push _ input ih =>
    refine ⟨?_, ih.aimer, ih.shooter, ih.yaw⟩
    simp [lastPushed]
  | turn _ checked now hturn ih => exact ih.turn hturn

/-- A command with control for a target, the yaw of the one before it being `last`. -/
structure Taken (aimer : AimerUnit ℝ) (shooter : Shooter ℝ) (last : ℝ) (now : ℤ) (input : CommandInput ℝ)
    (target : TrackedTarget ℝ) (command : GimbalCommand ℝ) : Prop where
  settles : ∃ before shot after, shot.aimPoint.valid = true ∧
    command = { aimer.commandOf realMath shot with
      shoot := command.shoot, horizonDistance := horizonDistance realMath input.targets } ∧
    let v := checkSpeed input.bulletSpeed
    let future := aimer.future target.estimate.ekf.ekfX now input.t true
    Settled v (target.predict future) future shot ∨ Chases v (target.predict future) future before 10 shot after
  fires : command.shoot = true ↔ shooter.autoFire = true ∧
    |last - command.yaw| < shooter.tolerance realMath target.estimate.ekf.ekfX * 2 ∧
    |input.gimbalPos.1 - last| < shooter.tolerance realMath target.estimate.ekf.ekfX

/-- A shot is fired only where the gimbal is near the yaw that is commanded. -/
theorem Taken.near {last : ℝ} {target : TrackedTarget ℝ} (h : Taken aimer shooter last now input target command)
    (hshoot : command.shoot = true) :
    |input.gimbalPos.1 - command.yaw| < 3 * shooter.tolerance realMath target.estimate.ekf.ekfX := by
  obtain ⟨-, hcommand, hgimbal⟩ := h.fires.mp hshoot
  have htriangle := abs_sub_le input.gimbalPos.1 last command.yaw
  linarith

theorem Follows.taken {start : CommandGener ℝ} (h : Follows start moves sent gener) {target : TrackedTarget ℝ}
    {rest : List (TrackedTarget ℝ)} (hapart : target.Apart)
    {aimer' : AimerUnit ℝ} (hcontrol : command.control = true)
    (haim : gener.aimer.aim realMath (target :: rest) now input.t input.bulletSpeed true = some (command, aimer')) :
    Taken start.aimer start.shooter (lastYaw sent) now input target { command with
      shoot := (gener.shooter.shoot realMath command aimer' (target :: rest) input.gimbalPos).1
      horizonDistance := horizonDistance realMath input.targets } := by
  have hfire : gener.shooter.autoFire = start.shooter.autoFire := by
    rw [h.shooter]
  have htolerance (x : StateVector ℝ) : gener.shooter.tolerance realMath x = start.shooter.tolerance realMath x := by
    rw [h.shooter]
    rfl
  rcases aim_cases hapart haim with ⟨rfl, -⟩ | ⟨shot, rfl, haimer', hends⟩
  · exact absurd hcontrol Bool.false_ne_true
  have hvalid := valid_of_ends hends
  have hpoint : aimer'.debugAimPoint.any (·.valid) = true := by
    rw [haimer']
    exact hvalid
  constructor
  · refine ⟨gener.aimer.choice, shot, aimer'.choice, hvalid, ?_, ?_⟩
    · rw [h.aimer]
      rfl
    · rw [h.aimer] at hends
      exact hends
  · cases hauto : start.shooter.autoFire with
    | false =>
      rw [shoot_idle (.inr (hfire.trans hauto))]
      exact iff_of_false Bool.false_ne_true fun hfires => Bool.false_ne_true hfires.1
    | true =>
      rw [shoot_of_control hcontrol (hfire.trans hauto), htolerance, h.yaw hauto]
      simp [hpoint]

/-- In every run of the two threads, a turn that sends aims at what was pushed last, if it is fresh, with the memory
    that the turns before left, and fires just where the gimbal has followed the yaw before and the yaw has not
    jumped. -/
theorem generateCommand_fires (hapart : ∀ input target, .push input ∈ moves → target ∈ input.targets → target.Apart)
    {judgeDistance firstTolerance secondTolerance : ℝ} {autoFire : Bool}
    (hruns : Runs realMath ⟨aimer, .init judgeDistance firstTolerance secondTolerance autoFire, none⟩ moves sent gener)
    (hturn : gener.generateCommand realMath checked now = some (gener', some (input, command))) :
    lastPushed moves = some input ∧ checked - input.t < 200000000 ∧
    (command.control = false → command.shoot = false) ∧
    (command.control = true → ∃ target rest, input.targets = target :: rest ∧
      Taken aimer (.init judgeDistance firstTolerance secondTolerance autoFire) (lastYaw sent) now input target command ∧
      (command.shoot = true → |input.gimbalPos.1 - command.yaw| <
        3 * (Shooter.init judgeDistance firstTolerance secondTolerance autoFire).tolerance realMath
          target.estimate.ekf.ekfX)) := by
  have hfollows := hruns.follows rfl rfl
  rcases generateCommand_cases hturn with ⟨-, hnone⟩ | ⟨_, command₀, aimer', hfresh, haim, -, heq⟩
  · exact absurd hnone (by simp)
  obtain ⟨rfl, rfl⟩ := Prod.mk.inj (Option.some.inj heq)
  obtain ⟨hlatest, hage⟩ := fresh_cases hfresh
  have hpushed : lastPushed moves = some input := hfollows.latest.symm.trans hlatest
  refine ⟨hpushed, hage, fun hcontrol => ?_, fun hcontrol => ?_⟩
  · have hleft : command₀.control = false := hcontrol
    exact congrArg Prod.fst (shoot_idle (.inl hleft))
  · have htook : command₀.control = true := hcontrol
    obtain ⟨target, rest, htargets⟩ := targets_of_control haim htook
    obtain ⟨move, hmove, hinput⟩ := List.mem_filterMap.mp (List.mem_of_getLast? hpushed)
    have hpush : .push input ∈ moves := by
      cases move with
      | push pushed =>
        obtain rfl := Option.some.inj hinput
        exact hmove
      | turn _ _ => exact absurd hinput (by simp)
    have htaken := hfollows.taken (hapart input target hpush (htargets ▸ List.mem_cons_self)) htook (htargets ▸ haim)
    rw [← htargets] at htaken
    exact ⟨target, rest, htargets, htaken, htaken.near⟩

/-- The target ahead, seen by a gimbal that faces it. -/
noncomputable def aheadInput : CommandInput ℝ := ⟨[aheadTarget], 0, (23 : ℕ), (0, 0, 0)⟩

noncomputable def aheadGener : CommandGener ℝ := ⟨restingAimer, .init 3.0 0.05 0.03 true, none⟩

noncomputable def pushedGener : CommandGener ℝ := { aheadGener with latest := some aheadInput }

theorem aheadGener_runs : Runs realMath aheadGener [.push aheadInput] [] pushedGener :=
  .push .nil aheadInput

theorem aheadGener_turn : ∃ gener' command,
    pushedGener.generateCommand realMath 0 1000 =
      some (gener', some (aheadInput, command)) ∧ command.control = true ∧ command.yaw = 0 := by
  have hfresh : pushedGener.fresh 0 = some aheadInput := by
    refine Option.filter_eq_some_iff.mpr ⟨rfl, decide_eq_true ?_⟩
    change ((0 - 0 : ℤ) : ℝ) / (10 ^ 9 : ℕ) < 0.2
    norm_num
  have hyaw : (restingAimer.commandOf realMath facingShot).yaw = 0 := by
    change Complex.arg ⟨4.8, 0⟩ + 0 = 0
    rw [add_zero, Complex.arg_eq_zero_iff]
    norm_num
  exact ⟨_, _, generateCommand_of_fresh hfresh aim_ahead, rfl, hyaw⟩

theorem generateCommand_fires_ahead : ∃ gener' command,
    pushedGener.generateCommand realMath 0 1000 =
      some (gener', some (aheadInput, command)) ∧ command.shoot = true ∧ |0 - command.yaw| < 3 * 0.03 := by
  obtain ⟨gener', command, hturn, hcontrol, hyaw⟩ := aheadGener_turn
  obtain ⟨-, -, -, htakes⟩ := generateCommand_fires (fun input target hpush htarget => by
    obtain rfl := CommandMove.push.inj (List.mem_singleton.mp hpush)
    obtain rfl := List.mem_singleton.mp htarget
    exact aheadTarget_ahead.apart) aheadGener_runs hturn
  obtain ⟨target, rest, htargets, htaken, hnear⟩ := htakes hcontrol
  obtain ⟨rfl, rfl⟩ := List.cons.inj htargets
  have htolerance : (Shooter.init 3.0 0.05 0.03 true).tolerance realMath aheadTarget.estimate.ekf.ekfX = (0.03 : ℝ) := by
    refine if_pos ?_
    change (3.0 : ℝ) < √(5.0 * 5.0 + 0 * 0)
    rw [mul_zero, add_zero, Real.sqrt_mul_self (by norm_num)]
    norm_num
  have hshoot : command.shoot = true := by
    refine htaken.fires.mpr ⟨rfl, ?_, ?_⟩
    · rw [htolerance, hyaw]
      norm_num [lastYaw]
    · rw [htolerance]
      norm_num [lastYaw, aheadInput]
  refine ⟨gener', command, hturn, hshoot, ?_⟩
  rw [← htolerance]
  exact hnear hshoot

end CommandGener

end SpVision
