import SpVision.Tracker.Track

set_option autoImplicit false

/-!
# Runs of the tracker

A call chooses what becomes of the target, then the state machine takes a step, and a bad
target is given up.
-/
namespace SpVision

variable {β τ : Type}

inductive TrackerInput (β : Type)
  | track (frame : Frame β)
  | trackQueue (detectionQueue : List (DetectionResult β)) (frame : Frame β)
  | setEnemyColor (color : Color)
  | resetEnemyColor

namespace Target

variable (model : TargetModel β τ) (solve : Armor β → β)

theorem updateAll_fst (target : Target τ) (armors : List (Armor β)) :
    ∃ estimate, (target.updateAll model solve armors).1 = { target with estimate } := by
  induction armors generalizing target with
  | nil => exact ⟨target.estimate, rfl⟩
  | cons armor rest ih =>
    rw [updateAll]
    split_ifs with hother
    · exact ih target
    · obtain ⟨estimate, heq⟩ :=
        ih { target with estimate := model.update target { armor with view := solve armor } }
      exact ⟨estimate, heq⟩

end Target

namespace Tracker

variable (cfg : TrackerConfig) (model : TargetModel β τ)

def step (tr : Tracker τ) : TrackerInput β → Tracker τ
  | .track frame => (tr.track cfg model frame).1
  | .trackQueue detectionQueue frame => (tr.trackQueue cfg model detectionQueue frame).1
  | .setEnemyColor color => tr.setEnemyColor color
  | .resetEnemyColor => tr.resetEnemyColor cfg

def run (tr : Tracker τ) (inputs : List (TrackerInput β)) : Tracker τ := inputs.foldl (step cfg model) tr

theorem run_append (tr : Tracker τ) (pre rest : List (TrackerInput β)) :
    tr.run cfg model (pre ++ rest) = (tr.run cfg model pre).run cfg model rest := List.foldl_append

/-- What a call chooses: the tracker it starts from, the tracker then, whether something was found, and why
    `set_target` has set a target, if it has. -/
structure Choice (τ : Type) where
  start : Tracker τ
  tracker : Tracker τ
  found : Bool
  reason : Option SetReason
  deriving DecidableEq, Repr

def Action.reason? : Action → Bool → Option SetReason
  | .set reason, true => some reason
  | _, _ => none

def choice? (tr : Tracker τ) : TrackerInput β → Option (Choice τ)
  | .track frame =>
    let start := tr.largeDt frame.t
    let (tracker, _, found) := start.chooseTarget model frame
    some ⟨start, tracker, found, (if start.state = .lost then Action.set .lost else .update).reason? found⟩
  | .trackQueue detectionQueue frame =>
    let start := tr.largeDt frame.t
    let tempTarget := detectionQueue.head?.getD ⟨[], frame.t, 0, 0⟩
    let (tracker, _, found, _) := start.chooseOrSwitch model tempTarget frame
    some ⟨start, tracker, found,
      (start.queueAction model tempTarget.armors (sortArmors model frame.armors)).reason? found⟩
  | .setEnemyColor _ => none
  | .resetEnemyColor => none

/-- When `set_target` is called. -/
def Sets (start : Tracker τ) (target : Target τ) : SetReason → Prop
  | .lost => start.state = .lost
  | .higherPriority => start.state = .tracking ∧ target.priority < start.target.priority
  | .switched => start.state = .detecting ∧ start.preState = .switching

/-- What there is to choose: a new target, the one there is, or an armor that another camera sees. -/
inductive Chooses (start : Tracker τ) : Tracker τ → Bool → Option SetReason → Prop
  | set (target : Target τ) (reason : SetReason) (h : Sets start target reason) :
    Chooses start { start with target } true (some reason)
  | keep (estimate : τ) (found : Bool) (h : start.state = .lost → found = false) :
    Chooses start { start with target := { start.target with estimate } } found none
  | switch (estimate : τ) (omniTargetPriority : ArmorPriority) (h : start.state = .tracking) :
    Chooses start { start with target := { start.target with estimate }, state := .switching, omniTargetPriority }
      false none

/-- The state machine, and then a bad target is given up or not. -/
def settle (tr : Tracker τ) (found givenUp : Bool) : Tracker τ :=
  if givenUp then { tr.stateMachine cfg found with state := .lost } else tr.stateMachine cfg found

theorem stateMachine_target (tr : Tracker τ) (found : Bool) : (tr.stateMachine cfg found).target = tr.target := by
  unfold stateMachine
  split <;> first | rfl | (split <;> rfl)

/-- A call with a target that stays good reports it. -/
theorem track_of_chosen {tr tr' : Tracker τ} {frame : Frame β} {armors : List (Armor β)} {found : Bool}
    {target : Target τ} (hchoose : (tr.largeDt frame.t).chooseTarget model frame = (tr', armors, found))
    (htarget : tr'.target = target) (hdiverged : model.diverged target = false) (hbad : model.badConverge target = false)
    (hlost : (tr'.stateMachine cfg found).state ≠ .lost) :
    tr.track cfg model frame = (tr'.stateMachine cfg found, armors, [target]) := by
  unfold track
  rw [hchoose]
  dsimp only
  rw [stateMachine_target, htarget, if_neg fun h => Bool.false_ne_true (hdiverged.symm.trans h.2),
    if_neg fun h => Bool.false_ne_true (hbad.symm.trans h), if_neg hlost]

theorem settle_target (tr : Tracker τ) (found givenUp : Bool) : (tr.settle cfg found givenUp).target = tr.target := by
  unfold settle
  split <;> exact tr.stateMachine_target cfg found

theorem setTarget_cases (tr : Tracker τ) (solve : Armor β → β) (armors : List (Armor β)) (t : ℤ) :
    (armors = [] ∧ (tr.setTarget model solve armors t).1 = tr ∧ (tr.setTarget model solve armors t).2.2 = false) ∨
    ∃ armor rest target, armors = armor :: rest ∧ target.priority = armor.priority ∧
      (tr.setTarget model solve armors t).1 = { tr with target } ∧
      (tr.setTarget model solve armors t).2.2 = true := by
  cases armors with
  | nil => exact .inl ⟨rfl, rfl, rfl⟩
  | cons armor rest => exact .inr ⟨armor, rest, _, rfl, rfl, rfl, rfl⟩

theorem updateTarget_fst (tr : Tracker τ) (solve : Armor β → β) (armors : List (Armor β)) (t : ℤ) :
    ∃ estimate, (tr.updateTarget model solve armors t).1 = { tr with target := { tr.target with estimate } } := by
  rw [updateTarget]
  split_ifs with hnone
  · exact ⟨_, rfl⟩
  · obtain ⟨estimate, heq⟩ :=
      Target.updateAll_fst model solve { tr.target with estimate := model.predict tr.target t } armors
    refine ⟨estimate, ?_⟩
    dsimp only
    rw [heq]

theorem noteConverged_eq (tr : Tracker τ) (tempArmors armors : List (Armor β)) :
    ∃ estimate, tr.noteConverged model tempArmors armors = { tr with target := { tr.target with estimate } } := by
  unfold noteConverged
  split_ifs with hasks
  · exact ⟨_, rfl⟩
  · exact ⟨tr.target.estimate, rfl⟩

/-- Where `set_target` is called, nobody has asked whether the target has converged. -/
theorem queueAction_set {tr : Tracker τ} {tempArmors armors : List (Armor β)} {reason : SetReason}
    (h : tr.queueAction model tempArmors armors = .set reason) :
    tr.noteConverged model tempArmors armors = tr ∧
    ∀ armor rest, armors = armor :: rest → ∀ target : Target τ, target.priority = armor.priority →
      Sets tr target reason := by
  unfold queueAction at h
  split_ifs at h with hlost hhigher hswitch hawait hswitched
  · cases h
    exact ⟨if_neg fun hasks => by exact absurd (hlost.symm.trans hasks.1) nofun, fun _ _ _ _ _ => hlost⟩
  · cases h
    refine ⟨if_neg fun hasks => hasks.2.1 hhigher.2, ?_⟩
    rintro armor rest rfl target hpriority
    refine ⟨hhigher.1, ?_⟩
    rw [hpriority]
    exact of_decide_eq_true hhigher.2
  · cases h
    exact ⟨if_neg fun hasks => by exact absurd (hswitched.1.symm.trans hasks.1) nofun, fun _ _ _ _ _ => hswitched⟩

theorem queueAction_switch {tr : Tracker τ} {tempArmors armors : List (Armor β)}
    (h : tr.queueAction model tempArmors armors = .switch) : tr.state = .tracking := by
  unfold queueAction at h
  split_ifs at h with hlost hhigher hswitch hawait hswitched
  exact hswitch.1

theorem queueAction_of_lost {tr : Tracker τ} {tempArmors armors : List (Armor β)} (h : tr.state = .lost) :
    tr.queueAction model tempArmors armors = .set .lost := if_pos h

theorem chooseTarget_chooses (start : Tracker τ) (frame : Frame β) :
    Chooses start (start.chooseTarget model frame).1 (start.chooseTarget model frame).2.2
      ((if start.state = .lost then Action.set .lost else .update).reason? (start.chooseTarget model frame).2.2) := by
  by_cases hlost : start.state = .lost
  · rw [chooseTarget, if_pos hlost, if_pos hlost]
    rcases start.setTarget_cases model frame.solve (sortArmors model
        (if frame.useEnemyColor then frame.armors.filter (·.color = start.enemyColor) else frame.armors)) frame.t with
      ⟨-, hsame, hfound⟩ | ⟨armor, rest, target, -, -, hset, hfound⟩
    · rw [hsame, hfound]
      exact .keep start.target.estimate false fun _ => rfl
    · rw [hset, hfound]
      exact .set target .lost hlost
  · rw [chooseTarget, if_neg hlost, if_neg hlost]
    obtain ⟨estimate, hupdate⟩ := start.updateTarget_fst model frame.solve (sortArmors model
      (if frame.useEnemyColor then frame.armors.filter (·.color = start.enemyColor) else frame.armors)) frame.t
    rw [hupdate]
    exact .keep estimate _ fun h => absurd h hlost

theorem chooseOrSwitch_chooses (start : Tracker τ) (tempTarget : DetectionResult β) (frame : Frame β) :
    Chooses start (start.chooseOrSwitch model tempTarget frame).1 (start.chooseOrSwitch model tempTarget frame).2.2.1
      ((start.queueAction model tempTarget.armors (sortArmors model frame.armors)).reason?
        (start.chooseOrSwitch model tempTarget frame).2.2.1) := by
  obtain ⟨noted, hnote⟩ := start.noteConverged_eq model tempTarget.armors (sortArmors model frame.armors)
  cases haction : start.queueAction model tempTarget.armors (sortArmors model frame.armors) with
  | set reason =>
    obtain ⟨hasks, hsets⟩ := queueAction_set model haction
    simp only [chooseOrSwitch, haction, hasks]
    rcases start.setTarget_cases model frame.solve (sortArmors model frame.armors) frame.t with
      ⟨-, hsame, hfound⟩ | ⟨armor, rest, target, harmors, hpriority, hset, hfound⟩
    · rw [hsame, hfound]
      exact .keep start.target.estimate false fun _ => rfl
    · rw [hset, hfound]
      exact .set target reason (hsets armor rest harmors target hpriority)
  | switch =>
    simp only [chooseOrSwitch, haction, hnote]
    exact .switch noted _ (queueAction_switch model haction)
  | await =>
    have hlost : start.state ≠ .lost := fun h => absurd ((queueAction_of_lost model h).symm.trans haction) nofun
    simp only [chooseOrSwitch, haction, hnote]
    exact .keep noted _ fun h => absurd h hlost
  | update =>
    have hlost : start.state ≠ .lost := fun h => absurd ((queueAction_of_lost model h).symm.trans haction) nofun
    simp only [chooseOrSwitch, haction, hnote]
    obtain ⟨estimate, hupdate⟩ := Tracker.updateTarget_fst model
      { start with target := { start.target with estimate := noted } } frame.solve (sortArmors model frame.armors) frame.t
    rw [hupdate]
    exact .keep estimate _ fun h => absurd h hlost

theorem track_fst (tr : Tracker τ) (frame : Frame β) :
    ∃ givenUp, (tr.track cfg model frame).1 =
      ((tr.largeDt frame.t).chooseTarget model frame).1.settle cfg
        ((tr.largeDt frame.t).chooseTarget model frame).2.2 givenUp := by
  unfold track
  dsimp only
  split_ifs with hdiverged hconverge hlost
  · exact ⟨true, rfl⟩
  · exact ⟨true, rfl⟩
  · exact ⟨false, rfl⟩
  · exact ⟨false, rfl⟩

theorem trackQueue_fst (tr : Tracker τ) (detectionQueue : List (DetectionResult β)) (frame : Frame β) :
    ∃ givenUp, (tr.trackQueue cfg model detectionQueue frame).1 =
      let choice := (tr.largeDt frame.t).chooseOrSwitch model (detectionQueue.head?.getD ⟨[], frame.t, 0, 0⟩) frame
      ({ choice.1 with preState := choice.1.state }).settle cfg choice.2.2.1 givenUp := by
  unfold trackQueue
  dsimp only
  split_ifs with hdiverged hlost
  · exact ⟨true, rfl⟩
  · exact ⟨false, rfl⟩
  · exact ⟨false, rfl⟩

/-- A call chooses, and what it has chosen is settled; other inputs only change the colour of the enemy. -/
theorem step_cases (tr : Tracker τ) (input : TrackerInput β) :
    (tr.choice? model input = none ∧ ∃ enemyColor, tr.step cfg model input = { tr with enemyColor }) ∨
    ∃ c t preState givenUp, tr.choice? model input = some c ∧ c.start = tr.largeDt t ∧
      Chooses c.start c.tracker c.found c.reason ∧
      tr.step cfg model input = ({ c.tracker with preState }).settle cfg c.found givenUp := by
  cases input with
  | track frame =>
    obtain ⟨givenUp, hstep⟩ := tr.track_fst cfg model frame
    exact .inr ⟨_, frame.t, _, givenUp, rfl, rfl, chooseTarget_chooses model _ frame, hstep⟩
  | trackQueue detectionQueue frame =>
    obtain ⟨givenUp, hstep⟩ := tr.trackQueue_fst cfg model detectionQueue frame
    exact .inr ⟨_, frame.t, _, givenUp, rfl, rfl, chooseOrSwitch_chooses model _ _ frame, hstep⟩
  | setEnemyColor color => exact .inl ⟨rfl, color, rfl⟩
  | resetEnemyColor => exact .inl ⟨rfl, cfg.enemyColor, rfl⟩

end Tracker

end SpVision
