import SpVision.Tracker.Runs

set_option autoImplicit false

/-!
# What a target keeps

An invariant of the target that its constructor, its predictions, its updates and its test of convergence
keep holds of every target that the tracker reports.
-/
namespace SpVision

variable {β τ : Type}

/-- What `Target` does keeps the invariant. -/
structure TargetModel.Keeps (model : TargetModel β τ) (Inv : Target τ → Prop) : Prop where
  init : ∀ (armor : Armor β) t, Inv (.ofArmor model armor t (targetSetup armor))
  predict : ∀ target t, Inv target → Inv { target with estimate := model.predict target t }
  update : ∀ target armor, Inv target → Inv { target with estimate := model.update target armor }
  convergened : ∀ target, Inv target → Inv { target with estimate := (model.convergened target).2 }

theorem Target.updateAll_keeps {model : TargetModel β τ} {Inv : Target τ → Prop} (h : model.Keeps Inv) (solve : Armor β → β) {target : Target τ} (hinv : Inv target)
    (armors : List (Armor β)) : Inv (target.updateAll model solve armors).1 := by
  induction armors generalizing target with
  | nil => exact hinv
  | cons armor rest ih =>
    rw [updateAll]
    split_ifs
    · exact ih hinv
    · exact ih (h.update target { armor with view := solve armor } hinv)

namespace Tracker

variable (cfg : TrackerConfig) (model : TargetModel β τ)

/-- The target of a tracker that is not lost has the invariant. -/
def Held (Inv : Target τ → Prop) (tr : Tracker τ) : Prop := tr.state = .lost ∨ Inv tr.target

/-- The targets that a call returns. -/
def reports (tr : Tracker τ) : TrackerInput β → List (Target τ)
  | .track frame => (tr.track cfg model frame).2.2
  | .trackQueue detectionQueue frame => (tr.trackQueue cfg model detectionQueue frame).2.2.2
  | .setEnemyColor _ => []
  | .resetEnemyColor => []

variable {model} {Inv : Target τ → Prop}

theorem updateTarget_keeps (h : model.Keeps Inv) {tr : Tracker τ} (hinv : Inv tr.target) (solve : Armor β → β)
    (armors : List (Armor β)) (t : ℤ) : Inv (tr.updateTarget model solve armors t).1.target := by
  have hpredicted := h.predict tr.target t hinv
  rw [updateTarget]
  split_ifs
  · exact hpredicted
  · exact Target.updateAll_keeps h solve hpredicted armors

theorem setTarget_keeps (h : model.Keeps Inv) (tr : Tracker τ) (solve : Armor β → β) (armors : List (Armor β))
    (t : ℤ) : ((tr.setTarget model solve armors t).1 = tr ∧ (tr.setTarget model solve armors t).2.2 = false) ∨
      Inv (tr.setTarget model solve armors t).1.target := by
  cases armors with
  | nil => exact .inl ⟨rfl, rfl⟩
  | cons armor rest => exact .inr (h.init { armor with view := solve armor } t)

/-- What a call may leave before the state machine: a tracker that stays lost, or a target with the invariant. -/
def Chosen (Inv : Target τ → Prop) (tracker : Tracker τ) (found : Bool) : Prop :=
  (tracker.state = .lost ∧ found = false) ∨ Inv tracker.target

theorem Held.setTarget (h : model.Keeps Inv) {tr : Tracker τ} (hheld : Held Inv tr) (solve : Armor β → β)
    (armors : List (Armor β)) (t : ℤ) :
    Chosen Inv (tr.setTarget model solve armors t).1 (tr.setTarget model solve armors t).2.2 := by
  rcases tr.setTarget_keeps h solve armors t with ⟨hsame, hfound⟩ | hinv
  · rw [hsame, hfound]
    exact hheld.imp_left fun hlost => ⟨hlost, rfl⟩
  · exact .inr hinv

theorem Held.chooseTarget (h : model.Keeps Inv) {start : Tracker τ} (hheld : Held Inv start) (frame : Frame β) :
    Chosen Inv (start.chooseTarget model frame).1 (start.chooseTarget model frame).2.2 := by
  by_cases hlost : start.state = .lost
  · rw [Tracker.chooseTarget, if_pos hlost]
    exact hheld.setTarget h _ _ _
  · rw [Tracker.chooseTarget, if_neg hlost]
    exact .inr (updateTarget_keeps h (hheld.resolve_left hlost) _ _ _)

theorem Held.noteConverged (h : model.Keeps Inv) {start : Tracker τ} (hheld : Held Inv start)
    (tempArmors armors : List (Armor β)) : Held Inv (start.noteConverged model tempArmors armors) := by
  unfold Tracker.noteConverged
  split_ifs with hasks
  · have htracking : start.state ≠ .lost := by
      rw [hasks.1]
      exact nofun
    exact .inr (h.convergened _ (hheld.resolve_left htracking))
  · exact hheld

theorem Held.chooseOrSwitch (h : model.Keeps Inv) {start : Tracker τ} (hheld : Held Inv start)
    (tempTarget : DetectionResult β) (frame : Frame β) :
    Chosen Inv (start.chooseOrSwitch model tempTarget frame).1 (start.chooseOrSwitch model tempTarget frame).2.2.1 := by
  have hnoted := hheld.noteConverged h tempTarget.armors (sortArmors model frame.armors)
  obtain ⟨noted, hnote⟩ := start.noteConverged_eq model tempTarget.armors (sortArmors model frame.armors)
  have hnext (hlost : start.state ≠ .lost) :
      Inv (start.noteConverged model tempTarget.armors (sortArmors model frame.armors)).target := by
    refine hnoted.resolve_left fun hstate => hlost ?_
    rw [hnote] at hstate
    exact hstate
  have hlost : start.queueAction model tempTarget.armors (sortArmors model frame.armors) ≠ .set .lost →
      start.state ≠ .lost := fun hother hstate => hother (queueAction_of_lost model hstate)
  cases haction : start.queueAction model tempTarget.armors (sortArmors model frame.armors) with
  | set reason =>
    simp only [Tracker.chooseOrSwitch, haction]
    exact hnoted.setTarget h _ _ _
  | switch =>
    simp only [Tracker.chooseOrSwitch, haction]
    exact .inr (hnext (hlost (by simp [haction])))
  | await =>
    simp only [Tracker.chooseOrSwitch, haction]
    exact .inr (hnext (hlost (by simp [haction])))
  | update =>
    simp only [Tracker.chooseOrSwitch, haction]
    exact .inr (updateTarget_keeps h (hnext (hlost (by simp [haction]))) _ _ _)

theorem Held.largeDt {tr : Tracker τ} (hheld : Held Inv tr) (t : ℤ) : Held Inv (tr.largeDt t) := by
  rcases hheld with hlost | hinv
  · refine .inl ?_
    unfold Tracker.largeDt
    dsimp only
    split_ifs
    · rfl
    · exact hlost
  · exact .inr hinv

theorem Chosen.stateMachine {tracker : Tracker τ} {found : Bool} (hchosen : Chosen Inv tracker found) :
    Held Inv (tracker.stateMachine cfg found) := by
  rcases hchosen with ⟨hlost, rfl⟩ | hinv
  · refine .inl ?_
    rw [Tracker.stateMachine, hlost]
    exact hlost
  · refine .inr ?_
    rw [stateMachine_target]
    exact hinv

theorem Held.step (h : model.Keeps Inv) {tr : Tracker τ} (hheld : Held Inv tr) (input : TrackerInput β) :
    Held Inv (tr.step cfg model input) ∧ ∀ target ∈ tr.reports cfg model input,
      Inv target ∧ model.diverged target = false ∧
        ((∃ frame, input = .track frame) → model.badConverge target = false) := by
  cases input with
  | track frame =>
    have hnext := ((hheld.largeDt frame.t).chooseTarget h frame).stateMachine cfg
    unfold Tracker.step reports Tracker.track
    dsimp only
    split_ifs with hdiverged hbad hlost
    · exact ⟨.inl rfl, nofun⟩
    · exact ⟨.inl rfl, nofun⟩
    · exact ⟨hnext, nofun⟩
    · refine ⟨hnext, fun target htarget => ?_⟩
      rw [List.mem_singleton.mp htarget]
      exact ⟨hnext.resolve_left hlost, Bool.eq_false_iff.mpr fun hdiv => hdiverged ⟨hlost, hdiv⟩,
        fun _ => Bool.eq_false_iff.mpr hbad⟩
  | trackQueue detectionQueue frame =>
    have hchosen := (hheld.largeDt frame.t).chooseOrSwitch h (detectionQueue.head?.getD ⟨[], frame.t, 0, 0⟩) frame
    have hnext (preState : TrackerState) : Held Inv (({ ((tr.largeDt frame.t).chooseOrSwitch model
        (detectionQueue.head?.getD ⟨[], frame.t, 0, 0⟩) frame).1 with preState }).stateMachine cfg _) :=
      Chosen.stateMachine cfg hchosen
    unfold Tracker.step reports Tracker.trackQueue
    dsimp only
    split_ifs with hdiverged hlost
    · exact ⟨.inl rfl, nofun⟩
    · exact ⟨hnext _, nofun⟩
    · refine ⟨hnext _, fun target htarget => ?_⟩
      rw [List.mem_singleton.mp htarget]
      exact ⟨(hnext _).resolve_left hlost, Bool.eq_false_iff.mpr fun hdiv => hdiverged ⟨hlost, hdiv⟩, nofun⟩
  | setEnemyColor color => exact ⟨hheld, nofun⟩
  | resetEnemyColor => exact ⟨hheld, nofun⟩

theorem Held.run (h : model.Keeps Inv) {tr : Tracker τ} (hheld : Held Inv tr) (inputs : List (TrackerInput β)) :
    Held Inv (tr.run cfg model inputs) := by
  induction inputs generalizing tr with
  | nil => exact hheld
  | cons input rest ih => exact ih (hheld.step cfg h input).1

end Tracker

end SpVision
