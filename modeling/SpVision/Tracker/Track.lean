import Mathlib.Algebra.Order.Field.Rat
import Mathlib.Data.List.Sort
import Mathlib.Order.Basic
import SpVision.Tools.MathTools

set_option autoImplicit false

/-!
# The tracker of armor plates

The pose of an armor, the filter of a target and the tests on it are parameters.
-/
namespace SpVision

inductive Color
  | red | blue | extinguish | purple
  deriving DecidableEq, Repr

inductive ArmorType
  | big | small
  deriving DecidableEq, Repr

inductive ArmorName
  | one | two | three | four | five | sentry | outpost | base | notArmor
  deriving DecidableEq, Repr

inductive ArmorPriority
  | first | second | third | forth | fifth
  deriving DecidableEq, Repr

def ArmorPriority.toNat : ArmorPriority → ℕ
  | .first => 1
  | .second => 2
  | .third => 3
  | .forth => 4
  | .fifth => 5

/-- The lower the number, the higher the priority. -/
instance : LinearOrder ArmorPriority :=
  LinearOrder.lift' ArmorPriority.toNat fun a b h => by cases a <;> cases b <;> first | rfl | cases h

/-- An armor plate; `view` is what the image and the solver say about it. -/
structure Armor (β : Type) where
  color : Color
  type : ArmorType
  name : ArmorName
  priority : ArmorPriority
  view : β
  deriving DecidableEq, Repr

/-- A target; `estimate` is the rest of its state, the filter above all. -/
structure Target (τ : Type) where
  name : ArmorName
  armorType : ArmorType
  priority : ArmorPriority
  estimate : τ
  deriving DecidableEq, Repr

/-- The arguments of the constructor of `Target` that depend on the kind of armor. -/
structure TargetSetup where
  radius : ℚ
  armorNum : ℕ
  p0Dig : List ℚ
  deriving DecidableEq, Repr

/-- What the tracker uses of the image and of `Target`. -/
structure TargetModel (β τ : Type) where
  /-- The distance of an armor to the centre of the image. -/
  centerDistance : β → ℚ
  init : Armor β → ℤ → TargetSetup → τ
  predict : Target τ → ℤ → τ
  update : Target τ → Armor β → τ
  diverged : Target τ → Bool
  /-- The test and the estimate after it, since the test notes its result. -/
  convergened : Target τ → Bool × τ
  /-- Whether too many of the recent innovations of the filter failed. -/
  badConverge : Target τ → Bool

structure DetectionResult (β : Type) where
  armors : List (Armor β)
  timestamp : ℤ
  deltaYaw : ℚ
  deltaPitch : ℚ
  deriving DecidableEq, Repr

structure TrackerConfig where
  enemyColor : Color
  minDetectCount : ℤ
  maxTempLostCount : ℤ
  outpostMaxTempLostCount : ℤ
  deriving DecidableEq, Repr

inductive TrackerState
  | lost | detecting | tracking | tempLost | switching
  deriving DecidableEq, Repr

structure Tracker (τ : Type) where
  enemyColor : Color
  detectCount : ℤ := 0
  tempLostCount : ℤ := 0
  maxTempLostCount : ℤ
  state : TrackerState := .lost
  preState : TrackerState := .lost
  target : Target τ
  lastTimestamp : ℤ
  omniTargetPriority : ArmorPriority := .fifth
  deriving DecidableEq, Repr

/-- A frame of the main camera. `solve` is the solver with the attitude of the gimbal at its time. -/
structure Frame (β : Type) where
  armors : List (Armor β)
  t : ℤ
  useEnemyColor : Bool := true
  solve : Armor β → β

section Target

variable {β τ : Type}

def Target.ofArmor (model : TargetModel β τ) (armor : Armor β) (t : ℤ) (setup : TargetSetup) : Target τ :=
  { name := armor.name, armorType := armor.type, priority := armor.priority, estimate := model.init armor t setup }

def targetSetup (armor : Armor β) : TargetSetup :=
  if armor.type = .big ∧ (armor.name = .three ∨ armor.name = .four ∨ armor.name = .five) then
    ⟨0.2, 2, [1, 64, 1, 64, 1, 64, 0.4, 100, 1, 1, 1]⟩
  else if armor.name = .outpost then ⟨0.2765, 3, [1, 64, 1, 64, 1, 81, 0.4, 100, 1e-4, 0, 0]⟩
  else if armor.name = .base then ⟨0.3205, 3, [1, 64, 1, 64, 1, 64, 0.4, 100, 1e-4, 0, 0]⟩
  else ⟨0.2, 4, [1, 64, 1, 64, 1, 64, 0.4, 100, 1, 1, 1]⟩

/-- The last loop of `update_target`. -/
def Target.updateAll (model : TargetModel β τ) (solve : Armor β → β) :
    Target τ → List (Armor β) → Target τ × List (Armor β)
  | target, [] => (target, [])
  | target, armor :: rest =>
    if armor.name ≠ target.name ∨ armor.type ≠ target.armorType then
      let (target, rest) := target.updateAll model solve rest
      (target, armor :: rest)
    else
      let armor := { armor with view := solve armor }
      let (target, rest) := Target.updateAll model solve { target with estimate := model.update target armor } rest
      (target, armor :: rest)

end Target

namespace Tracker

variable {β τ : Type}

/-- A tracker when it is constructed. Its target is not set yet. -/
def init (cfg : TrackerConfig) (target : Target τ) (now : ℤ) : Tracker τ :=
  { enemyColor := cfg.enemyColor, maxTempLostCount := cfg.maxTempLostCount, target, lastTimestamp := now }

def setEnemyColor (tr : Tracker τ) (color : Color) : Tracker τ := { tr with enemyColor := color }

def resetEnemyColor (cfg : TrackerConfig) (tr : Tracker τ) : Tracker τ := { tr with enemyColor := cfg.enemyColor }

def stateMachine (cfg : TrackerConfig) (tr : Tracker τ) (found : Bool) : Tracker τ :=
  match tr.state with
  | .lost => if found then { tr with state := .detecting, detectCount := 1 } else tr
  | .detecting =>
    if found then
      { tr with detectCount := tr.detectCount + 1
                state := if tr.detectCount + 1 ≥ cfg.minDetectCount then .tracking else .detecting }
    else { tr with detectCount := 0, state := .lost }
  | .tracking => if found then tr else { tr with tempLostCount := 1, state := .tempLost }
  | .switching =>
    if found then { tr with state := .detecting }
    else
      { tr with tempLostCount := tr.tempLostCount + 1
                state := if tr.tempLostCount + 1 > 200 then .lost else .switching }
  | .tempLost =>
    if found then { tr with state := .tracking }
    else
      let maxTempLostCount :=
        if tr.target.name = .outpost then cfg.outpostMaxTempLostCount else cfg.maxTempLostCount
      { tr with tempLostCount := tr.tempLostCount + 1, maxTempLostCount
                state := if tr.tempLostCount + 1 > maxTempLostCount then .lost else .tempLost }

section Armors

variable (model : TargetModel β τ)

/-- By the distance to the centre of the image, then by priority; both sorts are stable. -/
def sortArmors (armors : List (Armor β)) : List (Armor β) :=
  (armors.insertionSort fun a b => model.centerDistance a.view ≤ model.centerDistance b.view).insertionSort
    fun a b => a.priority ≤ b.priority

def setTarget (tr : Tracker τ) (solve : Armor β → β) (armors : List (Armor β)) (t : ℤ) :
    Tracker τ × List (Armor β) × Bool :=
  match armors with
  | [] => (tr, [], false)
  | armor :: rest =>
    let armor := { armor with view := solve armor }
    ({ tr with target := .ofArmor model armor t (targetSetup armor) }, armor :: rest, true)

def updateTarget (tr : Tracker τ) (solve : Armor β → β) (armors : List (Armor β)) (t : ℤ) :
    Tracker τ × List (Armor β) × Bool :=
  let target := { tr.target with estimate := model.predict tr.target t }
  if armors.countP (fun armor => armor.name = target.name ∧ armor.type = target.armorType) = 0 then
    ({ tr with target }, armors, false)
  else
    let (target, armors) := target.updateAll model solve armors
    ({ tr with target }, armors, true)

end Armors

/-- The time is noted, and a gap of more than 0.1 s loses the target. -/
def largeDt (tr : Tracker τ) (t : ℤ) : Tracker τ :=
  { tr with lastTimestamp := t
            state := if tr.state ≠ .lost ∧ deltaTime t tr.lastTimestamp > 100000000 then .lost else tr.state }

/-- Whether the first armor has a higher priority than `priority`. -/
def frontIsHigher (armors : List (Armor β)) (priority : ArmorPriority) : Bool :=
  match armors with
  | [] => false
  | armor :: _ => armor.priority < priority

variable (cfg : TrackerConfig) (model : TargetModel β τ)

/-! ### Without a detection queue -/

/-- The armors of a frame, those of the enemy only if asked to, and what becomes of the target with them. -/
def chooseTarget (tr : Tracker τ) (frame : Frame β) : Tracker τ × List (Armor β) × Bool :=
  let armors := if frame.useEnemyColor then frame.armors.filter (·.color = tr.enemyColor) else frame.armors
  let armors := sortArmors model armors
  if tr.state = .lost then tr.setTarget model frame.solve armors frame.t
  else tr.updateTarget model frame.solve armors frame.t

def track (tr : Tracker τ) (frame : Frame β) : Tracker τ × List (Armor β) × List (Target τ) :=
  let (tr, armors, found) := (tr.largeDt frame.t).chooseTarget model frame
  let tr := tr.stateMachine cfg found
  if tr.state ≠ .lost ∧ model.diverged tr.target then ({ tr with state := .lost }, armors, [])
  else if model.badConverge tr.target then ({ tr with state := .lost }, armors, [])
  else if tr.state = .lost then (tr, armors, [])
  else (tr, armors, [tr.target])

/-! ### With a detection queue -/

/-- Why `set_target` is called: the target is lost, the main camera sees an armor of higher priority, or the
    gimbal has turned to the armor of another camera. -/
inductive SetReason
  | lost | higherPriority | switched
  deriving DecidableEq, Repr

inductive Action
  | set (reason : SetReason)
  | switch
  | await
  | update
  deriving DecidableEq, Repr

/-- Which branch is taken. -/
def queueAction (tr : Tracker τ) (tempArmors armors : List (Armor β)) : Action :=
  if tr.state = .lost then .set .lost
  else if tr.state = .tracking ∧ frontIsHigher armors tr.target.priority then .set .higherPriority
  else if tr.state = .tracking ∧ frontIsHigher tempArmors tr.target.priority ∧ (model.convergened tr.target).1 then
    .switch
  else if tr.state = .switching then .await
  else if tr.state = .detecting ∧ tr.preState = .switching then .set .switched
  else .update

/-- Asking whether the target has converged changes it; it is asked last in the third condition. -/
def noteConverged (tr : Tracker τ) (tempArmors armors : List (Armor β)) : Tracker τ :=
  if tr.state = .tracking ∧ ¬ frontIsHigher armors tr.target.priority ∧
      frontIsHigher tempArmors tr.target.priority then
    { tr with target := { tr.target with estimate := (model.convergened tr.target).2 } }
  else tr

/-- The target or the armor to switch to that a call chooses. -/
def chooseOrSwitch (tr : Tracker τ) (tempTarget : DetectionResult β) (frame : Frame β) :
    Tracker τ × List (Armor β) × Bool × DetectionResult β :=
  let switchTarget : DetectionResult β := ⟨[], frame.t, 0, 0⟩
  let armors := sortArmors model frame.armors
  let action := tr.queueAction model tempTarget.armors armors
  let tr := tr.noteConverged model tempTarget.armors armors
  match action with
  | .set _ =>
    let (tr, armors, found) := tr.setTarget model frame.solve armors frame.t
    (tr, armors, found, switchTarget)
  | .switch =>
    let omniTargetPriority := (tempTarget.armors.head?.map (·.priority)).getD tr.omniTargetPriority
    ({ tr with state := .switching, omniTargetPriority }, armors, false,
      ⟨tempTarget.armors, frame.t, tempTarget.deltaYaw, tempTarget.deltaPitch⟩)
  | .await => (tr, armors, armors.head?.any (·.priority = tr.omniTargetPriority), switchTarget)
  | .update =>
    let (tr, armors, found) := tr.updateTarget model frame.solve armors frame.t
    (tr, armors, found, switchTarget)

/-- `Tracker::track` with a detection queue. It does not look at `use_enemy_color`. -/
def trackQueue (tr : Tracker τ) (detectionQueue : List (DetectionResult β)) (frame : Frame β) :
    Tracker τ × List (Armor β) × DetectionResult β × List (Target τ) :=
  let tempTarget := detectionQueue.head?.getD ⟨[], frame.t, 0, 0⟩
  let (tr, armors, found, switchTarget) := (tr.largeDt frame.t).chooseOrSwitch model tempTarget frame
  let tr := { tr with preState := tr.state }
  let tr := tr.stateMachine cfg found
  if tr.state ≠ .lost ∧ model.diverged tr.target then ({ tr with state := .lost }, armors, switchTarget, [])
  else if tr.state = .lost then (tr, armors, switchTarget, [])
  else (tr, armors, switchTarget, [tr.target])

end Tracker

end SpVision
