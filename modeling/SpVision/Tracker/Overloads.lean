import SpVision.Library.StableSort
import SpVision.Tracker.Confirmed
import SpVision.Tracker.Estimate

set_option autoImplicit false

/-!
# The tracker with and without a detection queue

With an empty queue the two forms of `track` differ only in what they do with armors of another
colour and with a target that converges badly.
-/
namespace SpVision

variable {β τ : Type}

/-- The target with one more armor. -/
def Target.refine (model : TargetModel β τ) (solve : Armor β → β) (target : Target τ) (armor : Armor β) : Target τ :=
  { target with estimate := model.update target { armor with view := solve armor } }

namespace Tracker

variable (cfg : TrackerConfig) (model : TargetModel β τ)

def matching (tr : Tracker τ) (armors : List (Armor β)) : List (Armor β) :=
  armors.filter fun armor => armor.name = tr.target.name ∧ armor.type = tr.target.armorType

def trackTakes (tr : Tracker τ) (frame : Frame β) : List (Armor β) :=
  let start := tr.largeDt frame.t
  let armors := sortArmors model
    (if frame.useEnemyColor then frame.armors.filter (·.color = start.enemyColor) else frame.armors)
  if start.state = .lost then armors.take 1 else start.matching armors

/-- The armors that a call with a detection queue takes for the target. -/
def queueTakes (tr : Tracker τ) (detectionQueue : List (DetectionResult β)) (frame : Frame β) : List (Armor β) :=
  let start := tr.largeDt frame.t
  let tempTarget := detectionQueue.head?.getD ⟨[], frame.t, 0, 0⟩
  let armors := sortArmors model frame.armors
  match start.queueAction model tempTarget.armors armors with
  | .set _ => armors.take 1
  | .update => start.matching armors
  | _ => []

/-- The two forms of `track` do the same, with armors of the enemy only, and both give up a target that converges
    badly. -/
structure Agree (tr : Tracker τ) (frame : Frame β) : Prop where
  state : (tr.track cfg model frame).1.state = (tr.trackQueue cfg model [] frame).1.state
  detectCount : (tr.track cfg model frame).1.detectCount = (tr.trackQueue cfg model [] frame).1.detectCount
  tempLostCount : (tr.track cfg model frame).1.tempLostCount = (tr.trackQueue cfg model [] frame).1.tempLostCount
  target : (tr.track cfg model frame).1.target = (tr.trackQueue cfg model [] frame).1.target
  targets : (tr.track cfg model frame).2.2 = (tr.trackQueue cfg model [] frame).2.2.2
  trackTakes : ∀ armor ∈ tr.trackTakes model frame, armor.color = tr.enemyColor
  queueTakes : ∀ armor ∈ tr.queueTakes model [] frame, armor.color = tr.enemyColor
  trackDrops : model.badConverge (tr.track cfg model frame).1.target →
    (tr.track cfg model frame).1.state = .lost ∧ (tr.track cfg model frame).2.2 = []
  queueDrops : model.badConverge (tr.trackQueue cfg model [] frame).1.target →
    (tr.trackQueue cfg model [] frame).1.state = .lost ∧ (tr.trackQueue cfg model [] frame).2.2.2 = []

/-- No armor of another colour comes first when a target is looked for, has a higher priority than the target that is
    tracked, or has its name and type. -/
def NoStrangers (tr : Tracker τ) (frame : Frame β) : Prop :=
  let start := tr.largeDt frame.t
  if start.state = .lost then ∀ first ∈ (sortArmors model frame.armors).head?, first.color = tr.enemyColor
  else
    ∀ armor ∈ frame.armors, armor.color ≠ tr.enemyColor →
      (start.state = .tracking → start.target.priority ≤ armor.priority) ∧
      ¬ (armor.name = start.target.name ∧ armor.type = start.target.armorType)

/-- An armor of the enemy that continues the target. -/
def Continues (tr : Tracker τ) (armor : Armor β) : Prop :=
  armor.color = tr.enemyColor ∧ armor.name = tr.target.name ∧ armor.type = tr.target.armorType

instance (tr : Tracker τ) : DecidablePred (tr.Continues : Armor β → Prop) := fun _ =>
  inferInstanceAs (Decidable (_ ∧ _ ∧ _))

/-- The target before a frame, predicted to its time and updated with the armors that continue it. -/
def continued (tr : Tracker τ) (frame : Frame β) : Target τ :=
  ((sortArmors model frame.armors).filter fun armor => tr.Continues armor).foldl (Target.refine model frame.solve)
    { tr.target with estimate := model.predict tr.target frame.t }

/-- A target is held over a frame in which an armor continues it, or in which it may still be out of sight. -/
def Holds (tr : Tracker τ) (frame : Frame β) : Prop :=
  (∃ armor ∈ frame.armors, tr.Continues armor) ∨ tr.state = .tracking ∨
    tr.state = .tempLost ∧ tr.tempLostCount <
      if tr.target.name = .outpost then cfg.outpostMaxTempLostCount else cfg.maxTempLostCount

/-- The target set from the first armor of the enemy, while there is none, or else the target that is held has not
    diverged, but converges badly. -/
def KeepsBad (tr : Tracker τ) (frame : Frame β) : Prop :=
  if tr.state = .lost ∨ deltaTime frame.t tr.lastTimestamp > 100000000 then
    ∃ first ∈ ((sortArmors model frame.armors).filter (·.color = tr.enemyColor)).head?,
      let set := Target.ofArmor model { first with view := frame.solve first } frame.t (targetSetup first)
      ¬ model.diverged set ∧ model.badConverge set
  else
    tr.Holds cfg frame ∧ ¬ model.diverged (tr.continued model frame) ∧ model.badConverge (tr.continued model frame)

/-! ### Only the armors that are taken matter -/

theorem sortArmors_filter (p : Armor β → Bool) (armors : List (Armor β)) :
    sortArmors model (armors.filter p) = (sortArmors model armors).filter p := by
  rw [sortArmors, sortArmors, filter_insertionSort (fun a : Armor β => a.priority),
    filter_insertionSort fun a : Armor β => model.centerDistance a.view]

theorem mem_sortArmors {armors : List (Armor β)} {armor : Armor β} :
    armor ∈ sortArmors model armors ↔ armor ∈ armors := by
  rw [sortArmors, List.mem_insertionSort, List.mem_insertionSort]

theorem sortArmors_head?_le {armors : List (Armor β)} {first armor : Armor β}
    (hfirst : first ∈ (sortArmors model armors).head?) (harmor : armor ∈ armors) : first.priority ≤ armor.priority := by
  rw [sortArmors, head?_insertionSort] at hfirst
  exact List.le_of_mem_argmin ((List.mem_insertionSort _).mpr harmor) hfirst

theorem head?_filter {p : Armor β → Bool} {armors : List (Armor β)} (h : ∀ first ∈ armors.head?, p first) :
    (armors.filter p).head? = armors.head? := by
  cases armors with
  | nil => rfl
  | cons first rest => rw [List.filter_cons_of_pos (h first rfl), List.head?_cons, List.head?_cons]

theorem forall_mem_take_one {p : Armor β → Prop} {armors : List (Armor β)} :
    (∀ armor ∈ armors.take 1, p armor) ↔ ∀ first ∈ armors.head?, p first := by
  cases armors <;> simp

theorem setTarget_congr (tr : Tracker τ) (solve : Armor β → β) {armors armors' : List (Armor β)} (t : ℤ)
    (h : armors.head? = armors'.head?) :
    (tr.setTarget model solve armors t).1 = (tr.setTarget model solve armors' t).1 ∧
      (tr.setTarget model solve armors t).2.2 = (tr.setTarget model solve armors' t).2.2 := by
  cases armors with
  | nil =>
    rw [List.head?_eq_none_iff.mp h.symm]
    exact ⟨rfl, rfl⟩
  | cons first rest =>
    obtain ⟨rest', rfl⟩ := List.head?_eq_some_iff.mp h.symm
    exact ⟨rfl, rfl⟩

theorem updateAll_eq_foldl (solve : Armor β → β) (target : Target τ) (armors : List (Armor β)) :
    (target.updateAll model solve armors).1 =
      (armors.filter fun armor => armor.name = target.name ∧ armor.type = target.armorType).foldl
        (Target.refine model solve) target := by
  induction armors generalizing target with
  | nil => rfl
  | cons armor rest ih =>
    by_cases hother : armor.name ≠ target.name ∨ armor.type ≠ target.armorType
    · rw [List.filter_cons_of_neg (by rw [decide_eq_true_eq]; tauto), ← ih, Target.updateAll, if_pos hother]
    · rw [List.filter_cons_of_pos (by rw [decide_eq_true_eq]; tauto), Target.updateAll, if_neg hother]
      exact ih (target.refine model solve armor)

theorem foldl_refine_name (solve : Armor β → β) (armors : List (Armor β)) (target : Target τ) :
    (armors.foldl (Target.refine model solve) target).name = target.name := by
  induction armors generalizing target with
  | nil => rfl
  | cons armor rest ih => exact ih (target.refine model solve armor)

/-- What `update_target` makes of the tracker depends on the armors of the target's name and type only. -/
theorem updateTarget_eq (tr : Tracker τ) (solve : Armor β → β) (armors : List (Armor β)) (t : ℤ) :
    (tr.updateTarget model solve armors t).1 =
        { tr with target := (tr.matching armors).foldl (Target.refine model solve)
                    { tr.target with estimate := model.predict tr.target t } } ∧
      (tr.updateTarget model solve armors t).2.2 = decide (tr.matching armors ≠ []) := by
  have hall := updateAll_eq_foldl model solve { tr.target with estimate := model.predict tr.target t } armors
  unfold updateTarget matching
  dsimp only at hall ⊢
  split_ifs with hnone
  · rw [List.countP_eq_length_filter, List.length_eq_zero_iff] at hnone
    rw [hnone]
    exact ⟨rfl, rfl⟩
  · rw [List.countP_eq_length_filter, List.length_eq_zero_iff] at hnone
    exact ⟨by rw [hall], (decide_eq_true hnone).symm⟩

theorem updateTarget_congr (tr : Tracker τ) (solve : Armor β → β) {armors armors' : List (Armor β)} (t : ℤ)
    (h : tr.matching armors = tr.matching armors') :
    (tr.updateTarget model solve armors t).1 = (tr.updateTarget model solve armors' t).1 ∧
      (tr.updateTarget model solve armors t).2.2 = (tr.updateTarget model solve armors' t).2.2 := by
  obtain ⟨htracker, hfound⟩ := tr.updateTarget_eq model solve armors t
  obtain ⟨htracker', hfound'⟩ := tr.updateTarget_eq model solve armors' t
  rw [htracker, htracker', hfound, hfound', h]
  exact ⟨rfl, rfl⟩

/-! ### An empty queue -/

section EmptyQueue

variable {model}
variable {start : Tracker τ} {armors : List (Armor β)}

theorem noteConverged_nil (start : Tracker τ) (armors : List (Armor β)) : start.noteConverged model [] armors = start :=
  if_neg fun hasks => Bool.false_ne_true hasks.2.2

theorem queueAction_nil (hstate : start.state ≠ .switching) (hpre : start.preState ≠ .switching) :
    start.queueAction model [] armors =
      if start.state = .lost then .set .lost
      else if start.state = .tracking ∧ frontIsHigher armors start.target.priority then .set .higherPriority
      else .update := by
  have hswitch : ¬ (start.state = .tracking ∧ frontIsHigher ([] : List (Armor β)) start.target.priority ∧
      (model.convergened start.target).1) := fun h => Bool.false_ne_true h.2.1
  have hswitched : ¬ (start.state = .detecting ∧ start.preState = .switching) := fun h => hpre h.2
  unfold queueAction
  rw [if_neg hswitch, if_neg hstate, if_neg hswitched]

theorem frontIsHigher_iff {priority : ArmorPriority} :
    frontIsHigher armors priority ↔ ∃ first ∈ armors.head?, first.priority < priority := by
  cases armors with
  | nil => simp [frontIsHigher]
  | cons first rest => simp [frontIsHigher]

end EmptyQueue

theorem largeDt_ne_switching {tr : Tracker τ} (t : ℤ) (h : tr.state ≠ .switching) :
    (tr.largeDt t).state ≠ .switching := by
  unfold largeDt
  dsimp only
  split_ifs
  · exact nofun
  · exact h

/-- Neither form switches, and no enemy has a higher priority than the target that is tracked. -/
structure Comparable (tr : Tracker τ) (frame : Frame β) : Prop where
  state : tr.state ≠ .switching
  preState : tr.preState ≠ .switching
  priority : tr.state = .tracking → ∀ armor ∈ frame.armors, armor.color = tr.enemyColor →
    ¬ armor.priority < tr.target.priority

section Compare

variable {cfg model}
variable {tr : Tracker τ} {frame : Frame β}

/-- An armor of higher priority than the target that is tracked is a stranger. -/
theorem first_stranger (h : tr.Comparable frame) (htracking : (tr.largeDt frame.t).state = .tracking)
    (hfront : frontIsHigher (sortArmors model frame.armors) (tr.largeDt frame.t).target.priority) :
    ∃ first ∈ (sortArmors model frame.armors).head?, first ∈ frame.armors ∧ first.color ≠ tr.enemyColor ∧
      first.priority < (tr.largeDt frame.t).target.priority := by
  obtain ⟨first, hfirst, hless⟩ := frontIsHigher_iff.mp hfront
  have hmem : first ∈ frame.armors := (mem_sortArmors model).mp (List.mem_of_mem_head? hfirst)
  refine ⟨first, hfirst, hmem, fun hcolor => ?_, hless⟩
  exact h.priority (largeDt_state htracking nofun) first hmem hcolor hless

theorem queueTakes_iff (h : tr.Comparable frame) :
    (∀ armor ∈ tr.queueTakes model [] frame, armor.color = tr.enemyColor) ↔ tr.NoStrangers model frame := by
  unfold queueTakes NoStrangers
  dsimp only
  rw [List.head?_nil, Option.getD_none, queueAction_nil (largeDt_ne_switching frame.t h.state) h.preState]
  by_cases hlost : (tr.largeDt frame.t).state = .lost
  · rw [if_pos hlost, if_pos hlost]
    exact forall_mem_take_one
  rw [if_neg hlost, if_neg hlost]
  by_cases hhigher : (tr.largeDt frame.t).state = .tracking ∧
      frontIsHigher (sortArmors model frame.armors) (tr.largeDt frame.t).target.priority
  · rw [if_pos hhigher]
    obtain ⟨first, hfirst, hmem, hstranger, hless⟩ := first_stranger h hhigher.1 hhigher.2
    refine iff_of_false (fun hall => ?_) fun hall => ?_
    · exact hstranger (forall_mem_take_one.mp hall first hfirst)
    · exact not_le.mpr hless ((hall first hmem hstranger).1 hhigher.1)
  · rw [if_neg hhigher]
    constructor
    · intro hall armor hmem hstranger
      constructor
      · intro htracking
        refine le_of_not_gt fun hless => hhigher ⟨htracking, frontIsHigher_iff.mpr ?_⟩
        cases hfirst : (sortArmors model frame.armors).head? with
        | none =>
          have hnil := List.head?_eq_none_iff.mp hfirst
          exact absurd ((mem_sortArmors model).mpr hmem) (hnil ▸ List.not_mem_nil)
        | some first => exact ⟨first, rfl, (sortArmors_head?_le model hfirst hmem).trans_lt hless⟩
      · intro hmatch
        exact hstranger (hall armor (List.mem_filter.mpr ⟨(mem_sortArmors model).mpr hmem, decide_eq_true hmatch⟩))
    · intro hall armor htaken
      obtain ⟨hmem, hmatch⟩ := List.mem_filter.mp htaken
      by_contra hstranger
      exact (hall armor ((mem_sortArmors model).mp hmem) hstranger).2 (of_decide_eq_true hmatch)

theorem choose_eq (h : tr.Comparable frame) (henemy : frame.useEnemyColor = true) (hown : tr.NoStrangers model frame) :
    ((tr.largeDt frame.t).chooseTarget model frame).1 =
        ((tr.largeDt frame.t).chooseOrSwitch model ⟨[], frame.t, 0, 0⟩ frame).1 ∧
      ((tr.largeDt frame.t).chooseTarget model frame).2.2 =
        ((tr.largeDt frame.t).chooseOrSwitch model ⟨[], frame.t, 0, 0⟩ frame).2.2.1 := by
  unfold NoStrangers at hown
  dsimp only at hown
  unfold chooseTarget chooseOrSwitch
  dsimp only
  rw [if_pos henemy, sortArmors_filter, noteConverged_nil,
    queueAction_nil (largeDt_ne_switching frame.t h.state) h.preState]
  by_cases hlost : (tr.largeDt frame.t).state = .lost
  · rw [if_pos hlost] at hown
    rw [if_pos hlost, if_pos hlost]
    exact setTarget_congr model _ frame.solve frame.t (head?_filter fun first hfirst =>
      decide_eq_true (hown first hfirst))
  · rw [if_neg hlost] at hown
    have hhigher : ¬ ((tr.largeDt frame.t).state = .tracking ∧
        frontIsHigher (sortArmors model frame.armors) (tr.largeDt frame.t).target.priority) := by
      rintro ⟨htracking, hfront⟩
      obtain ⟨first, -, hmem, hstranger, hless⟩ := first_stranger h htracking hfront
      exact not_le.mpr hless ((hown first hmem hstranger).1 htracking)
    rw [if_neg hlost, if_neg hlost, if_neg hhigher]
    refine updateTarget_congr model _ frame.solve frame.t ?_
    rw [matching, matching, List.filter_filter]
    refine List.filter_congr fun armor hmem => ?_
    rw [Bool.and_eq_left_iff_imp]
    intro hmatch
    by_contra hcolor
    exact (hown armor ((mem_sortArmors model).mp hmem) (fun heq => hcolor (decide_eq_true heq))).2
      (of_decide_eq_true hmatch)

/-! ### Behind the state machine -/

/-- What a call with a queue makes of the tracker behind the state machine. -/
def report (model : TargetModel β τ) (after : Tracker τ) : Tracker τ × List (Target τ) :=
  if after.state ≠ .lost ∧ model.diverged after.target then ({ after with state := .lost }, [])
  else if after.state = .lost then (after, [])
  else (after, [after.target])

theorem report_target (after : Tracker τ) : (report model after).1.target = after.target := by
  unfold report
  split_ifs <;> rfl

theorem report_preState (after : Tracker τ) (preState : TrackerState) :
    report model { after with preState } = ({ (report model after).1 with preState }, (report model after).2) := by
  unfold report
  split_ifs <;> rfl

theorem stateMachine_preState (tr : Tracker τ) (preState : TrackerState) (found : Bool) :
    ({ tr with preState }).stateMachine cfg found = { tr.stateMachine cfg found with preState } := by
  unfold stateMachine
  dsimp only
  split <;> first | rfl | (split <;> rfl)

variable (cfg model) in
theorem trackQueue_report (tr : Tracker τ) (frame : Frame β) :
    let (chosen, _, found, _) := (tr.largeDt frame.t).chooseOrSwitch model ⟨[], frame.t, 0, 0⟩ frame
    ((tr.trackQueue cfg model [] frame).1, (tr.trackQueue cfg model [] frame).2.2.2) =
      report model (({ chosen with preState := chosen.state }).stateMachine cfg found) := by
  unfold trackQueue report
  dsimp only
  rw [List.head?_nil, Option.getD_none]
  split_ifs <;> rfl

variable (cfg model) in
/-- The tracker behind the state machine of a call without a queue. -/
def machined (tr : Tracker τ) (frame : Frame β) : Tracker τ :=
  let (chosen, _, found) := (tr.largeDt frame.t).chooseTarget model frame
  chosen.stateMachine cfg found

theorem largeDt_lost_iff {t : ℤ} :
    (tr.largeDt t).state = .lost ↔ tr.state = .lost ∨ deltaTime t tr.lastTimestamp > 100000000 := by
  unfold largeDt
  by_cases hlost : tr.state = .lost <;> simp [hlost]

theorem stateMachine_held (held : Tracker τ) (hswitching : held.state ≠ .switching)
    (hlost : held.state ≠ .lost) (found : Bool) : (held.stateMachine cfg found).state ≠ .lost ↔ found = true ∨ held.state = .tracking ∨
      held.state = .tempLost ∧ held.tempLostCount <
        if held.target.name = .outpost then cfg.outpostMaxTempLostCount else cfg.maxTempLostCount := by
  unfold stateMachine
  cases hstate : held.state with
  | lost => exact absurd hstate hlost
  | switching => exact absurd hstate hswitching
  | detecting =>
    cases found
    · simp
    · dsimp only
      rw [if_pos rfl]
      split_ifs <;> simp
  | tracking => cases found <;> simp [hstate]
  | tempLost =>
    cases found
    · dsimp only
      rw [if_neg Bool.false_ne_true]
      generalize (if held.target.name = .outpost then cfg.outpostMaxTempLostCount else cfg.maxTempLostCount) = patience
      have hcount : held.tempLostCount + 1 > patience ↔ ¬ held.tempLostCount < patience := by omega
      by_cases hpatience : held.tempLostCount < patience <;> simp [hcount, hpatience]
    · simp

theorem chooseTarget_enemies (start : Tracker τ) (henemy : frame.useEnemyColor = true) :
    start.chooseTarget model frame =
      if start.state = .lost then
        start.setTarget model frame.solve ((sortArmors model frame.armors).filter (·.color = start.enemyColor)) frame.t
      else
        start.updateTarget model frame.solve ((sortArmors model frame.armors).filter (·.color = start.enemyColor))
          frame.t := by
  rw [chooseTarget, if_pos henemy, sortArmors_filter]

theorem keepsBad_lost_iff (henemy : frame.useEnemyColor = true) (hlost : (tr.largeDt frame.t).state = .lost) :
    tr.KeepsBad cfg model frame ↔ (tr.machined cfg model frame).state ≠ .lost ∧
      ¬ model.diverged (tr.machined cfg model frame).target ∧
        model.badConverge (tr.machined cfg model frame).target := by
  have hcolor : (tr.largeDt frame.t).enemyColor = tr.enemyColor := rfl
  rw [KeepsBad, if_pos (largeDt_lost_iff.mp hlost), machined, chooseTarget_enemies _ henemy, if_pos hlost, hcolor]
  dsimp only
  rw [stateMachine_target]
  generalize (sortArmors model frame.armors).filter (·.color = tr.enemyColor) = enemies
  cases enemies with
  | nil => simp [setTarget, stateMachine, hlost]
  | cons first rest =>
    have hset : ((tr.largeDt frame.t).setTarget model frame.solve (first :: rest) frame.t).1.target =
        Target.ofArmor model { first with view := frame.solve first } frame.t (targetSetup first) := rfl
    rw [hset]
    simp [setTarget, stateMachine, hlost]

/-- The armors that the tracker matches with its target are those of the enemy that continue it. -/
theorem matching_enemies (armors : List (Armor β)) :
    (tr.largeDt frame.t).matching (armors.filter (·.color = tr.enemyColor)) =
      armors.filter fun armor => tr.Continues armor := by
  rw [matching, List.filter_filter]
  refine List.filter_congr fun armor _ => ?_
  rw [← Bool.decide_and, decide_eq_decide, Continues]
  exact and_comm

theorem keepsBad_held_iff (h : tr.Comparable frame) (henemy : frame.useEnemyColor = true)
    (hlost : (tr.largeDt frame.t).state ≠ .lost) :
    tr.KeepsBad cfg model frame ↔ (tr.machined cfg model frame).state ≠ .lost ∧
      ¬ model.diverged (tr.machined cfg model frame).target ∧
        model.badConverge (tr.machined cfg model frame).target := by
  have hcolor : (tr.largeDt frame.t).enemyColor = tr.enemyColor := rfl
  have hstate : (tr.largeDt frame.t).state = tr.state := by
    rw [largeDt, if_neg fun hlarge => hlost (largeDt_lost_iff.mpr (.inr hlarge.2))]
  obtain ⟨htracker, hfound⟩ := (tr.largeDt frame.t).updateTarget_eq model frame.solve
    ((sortArmors model frame.armors).filter (·.color = tr.enemyColor)) frame.t
  rw [matching_enemies] at htracker hfound
  replace htracker : (updateTarget model (tr.largeDt frame.t) frame.solve ((sortArmors model frame.armors).filter
      (·.color = tr.enemyColor)) frame.t).1 = { tr.largeDt frame.t with target := tr.continued model frame } := htracker
  have hname : (tr.continued model frame).name = tr.target.name := foldl_refine_name model _ _ _
  have hseen : (sortArmors model frame.armors).filter (fun armor => tr.Continues armor) ≠ [] ↔
      ∃ armor ∈ frame.armors, tr.Continues armor := by
    simp [List.filter_eq_nil_iff, mem_sortArmors]
  rw [KeepsBad, if_neg fun hgap => hlost (largeDt_lost_iff.mpr hgap), machined, chooseTarget_enemies _ henemy,
    if_neg hlost, hcolor]
  dsimp only
  rw [stateMachine_target, htracker, hfound]
  refine and_congr_left' (Iff.trans ?_ (stateMachine_held { tr.largeDt frame.t with target := tr.continued model frame }
    (fun hswitching => h.state (hstate.symm.trans hswitching)) hlost _).symm)
  dsimp only
  rw [decide_eq_true_eq, hseen, Holds, hname, hstate]
  rfl

theorem keepsBad_iff (h : tr.Comparable frame) (henemy : frame.useEnemyColor = true) :
    tr.KeepsBad cfg model frame ↔ (tr.machined cfg model frame).state ≠ .lost ∧
      ¬ model.diverged (tr.machined cfg model frame).target ∧
        model.badConverge (tr.machined cfg model frame).target := by
  by_cases hlost : (tr.largeDt frame.t).state = .lost
  · exact keepsBad_lost_iff henemy hlost
  · exact keepsBad_held_iff h henemy hlost

theorem track_report (hkeeps : ¬ ((tr.machined cfg model frame).state ≠ .lost ∧
      ¬ model.diverged (tr.machined cfg model frame).target ∧
        model.badConverge (tr.machined cfg model frame).target)) :
    ((tr.track cfg model frame).1, (tr.track cfg model frame).2.2) = report model (tr.machined cfg model frame) := by
  unfold machined at hkeeps ⊢
  unfold track report
  dsimp only at hkeeps ⊢
  split_ifs with hdiverged hbad hlost hlost
  · rfl
  · rw [← hlost]
  · exact absurd ⟨hlost, fun h => hdiverged ⟨hlost, h⟩, hbad⟩ hkeeps
  · rfl
  · rfl

theorem trackTakes_enemy (tr : Tracker τ) (henemy : frame.useEnemyColor = true) :
    ∀ armor ∈ tr.trackTakes model frame, armor.color = tr.enemyColor := by
  have henemies : ∀ armor ∈ sortArmors model (frame.armors.filter (·.color = tr.enemyColor)),
      armor.color = tr.enemyColor := fun armor hmem =>
    of_decide_eq_true (List.mem_filter.mp ((mem_sortArmors model).mp hmem)).2
  intro armor htaken
  unfold trackTakes at htaken
  dsimp only at htaken
  rw [if_pos henemy] at htaken
  split_ifs at htaken with hlost
  · exact henemies armor (List.mem_of_mem_take htaken)
  · exact henemies armor (List.mem_filter.mp htaken).1

variable (cfg) in
/-- Without strangers the form with the queue makes the same of the tracker, but for the state that it notes. -/
theorem trackQueue_eq (h : tr.Comparable frame) (henemy : frame.useEnemyColor = true)
    (hown : tr.NoStrangers model frame) :
    ((tr.trackQueue cfg model [] frame).1, (tr.trackQueue cfg model [] frame).2.2.2) =
      ({ (report model (tr.machined cfg model frame)).1 with
          preState := ((tr.largeDt frame.t).chooseTarget model frame).1.state },
        (report model (tr.machined cfg model frame)).2) := by
  obtain ⟨hchosen, hfound⟩ := choose_eq h henemy hown
  have hqueue := tr.trackQueue_report cfg model frame
  dsimp only at hqueue
  rw [hqueue, ← hchosen, ← hfound, stateMachine_preState, report_preState]
  rfl

theorem agree_of (h : tr.Comparable frame) (henemy : frame.useEnemyColor = true) (hown : tr.NoStrangers model frame)
    (hkeeps : ¬ tr.KeepsBad cfg model frame) : tr.Agree cfg model frame := by
  rw [keepsBad_iff h henemy] at hkeeps
  obtain ⟨htracker, htargets⟩ := Prod.ext_iff.mp (track_report hkeeps)
  obtain ⟨hqtracker, hqtargets⟩ := Prod.ext_iff.mp (trackQueue_eq cfg h henemy hown)
  dsimp only at htracker htargets hqtracker hqtargets
  have hdrops : model.badConverge (report model (tr.machined cfg model frame)).1.target →
      (report model (tr.machined cfg model frame)).1.state = .lost ∧
        (report model (tr.machined cfg model frame)).2 = [] := by
    intro hbad
    rw [report_target] at hbad
    unfold report
    split_ifs with hdiverged hlost
    · exact ⟨rfl, rfl⟩
    · exact ⟨hlost, rfl⟩
    · exact absurd ⟨hlost, fun hdiv => hdiverged ⟨hlost, hdiv⟩, hbad⟩ hkeeps
  refine ⟨?_, ?_, ?_, ?_, ?_, trackTakes_enemy tr henemy, (queueTakes_iff h).mpr hown, ?_, ?_⟩
  · rw [htracker, hqtracker]
  · rw [htracker, hqtracker]
  · rw [htracker, hqtracker]
  · rw [htracker, hqtracker]
  · rw [htargets, hqtargets]
  · rw [htracker, htargets]
    exact hdrops
  · rw [hqtracker, hqtargets]
    exact hdrops

theorem not_keepsBad_of (h : tr.Comparable frame) (henemy : frame.useEnemyColor = true)
    (hown : tr.NoStrangers model frame) (hagree : tr.Agree cfg model frame) : ¬ tr.KeepsBad cfg model frame := by
  intro hkeeps
  have hstate := hagree.state
  rw [(Prod.ext_iff.mp (trackQueue_eq cfg h henemy hown)).1] at hstate
  obtain ⟨hlost, hdiverged, hbad⟩ := (keepsBad_iff h henemy).mp hkeeps
  have hlost' : (tr.track cfg model frame).1.state = .lost := by
    unfold machined at hdiverged hbad
    unfold track
    dsimp only at hdiverged hbad ⊢
    rw [if_neg fun hboth => hdiverged hboth.2, if_pos hbad]
  have hreport : (report model (tr.machined cfg model frame)).1.state ≠ .lost := by
    unfold report
    rw [if_neg fun hboth => hdiverged hboth.2, if_neg hlost]
    exact hlost
  exact hreport (hstate.symm.trans hlost')

end Compare

/-- With the filter of the targets only one that is held can converge badly. -/
theorem KeepsBad.held {K : Type} [Field K] [LinearOrder K] [IsStrictOrderedRing K] [FloorRing K] {m : FilterMath K}
    {inverse : {n : ℕ} → Matrix (Fin n) (Fin n) K → Matrix (Fin n) (Fin n) K} {sort : ComparisonSort}
    {astray : Target (TargetEstimate (TargetState K)) → Armor (SolvedArmor K) → TargetEstimate (TargetState K)}
    {tr : Tracker (TargetEstimate (TargetState K))} {frame : Frame (SolvedArmor K)}
    (h : tr.KeepsBad cfg (TargetState.targetModel m inverse sort astray) frame) :
    tr.state ≠ .lost ∧ deltaTime frame.t tr.lastTimestamp ≤ 100000000 ∧ tr.Holds cfg frame := by
  unfold KeepsBad at h
  split_ifs at h with hset
  · obtain ⟨first, -, -, hbad⟩ := h
    rw [TargetState.targetModel_fresh] at hbad
    exact absurd hbad Bool.false_ne_true
  · rw [not_or, not_lt] at hset
    exact ⟨hset.1, hset.2, h.1⟩

end Tracker

/-- The two forms of `track` agree on an empty queue if and only if no armor of another colour is in the way and the
    enemy's armors do not lead to a target that converges badly. -/
theorem track_overloads_agree_iff (cfg : TrackerConfig) (model : TargetModel β τ) (tr : Tracker τ)
    (armors : List (Armor β)) (t : ℤ) (solve : Armor β → β) (h : tr.Comparable { armors, t, solve }) :
    tr.Agree cfg model { armors, t, solve } ↔
      tr.NoStrangers model { armors, t, solve } ∧ ¬ tr.KeepsBad cfg model { armors, t, solve } := by
  constructor
  · intro hagree
    have hown := (Tracker.queueTakes_iff h).mp hagree.queueTakes
    exact ⟨hown, Tracker.not_keepsBad_of h rfl hown hagree⟩
  · rintro ⟨hown, hkeeps⟩
    exact Tracker.agree_of h rfl hown hkeeps

theorem comparable_lost {tr : Tracker τ} (hstate : tr.state = .lost) (hpre : tr.preState = .lost) (frame : Frame β) :
    tr.Comparable frame where
  state := by
    rw [hstate]
    exact nofun
  preState := by
    rw [hpre]
    exact nofun
  priority htracking := absurd (hstate.symm.trans htracking) nofun

theorem enemy_plate_agrees :
    steadyTracker.Agree steadyConfig steadyModel { armors := [plate .second], t := 0, solve := fun _ => () } := by
  refine (track_overloads_agree_iff steadyConfig steadyModel steadyTracker [plate .second] 0 (fun _ => ())
    (comparable_lost rfl rfl _)).mpr ⟨by unfold Tracker.NoStrangers; decide +kernel, ?_⟩
  rw [Tracker.KeepsBad, if_pos (.inl rfl)]
  rintro ⟨first, -, -, hbad⟩
  exact absurd hbad Bool.false_ne_true

/-- An estimate that keeps no more than which of the last 100 updates failed the test; the view of an armor is
    whether it fails. -/
def windowModel : TargetModel Bool (List ℕ) where
  centerDistance _ := 0
  init _ _ _ := [0]
  predict target _ := target.estimate
  update target armor :=
    let pushed := target.estimate ++ [if armor.view then 1 else 0]
    if pushed.length > 100 then pushed.tail else pushed
  diverged _ := false
  convergened target := (true, target.estimate)
  badConverge target := 40 ≤ target.estimate.sum

/-- A frame with one armor that fails the test. -/
def failing (color : Color) : Frame Bool :=
  { armors := [⟨color, .small, .one, .second, true⟩], t := 0, solve := fun armor => armor.view }

def windowTracker : Tracker (List ℕ) := .init steadyConfig ⟨.one, .small, .fifth, [0]⟩ 0

/-- The form with the queue targets the armor of a teammate. When the last of forty updates of a target that is
    tracked has failed as the others, it keeps the target. -/
theorem queue_overload_differs :
    (windowTracker.Comparable (failing .blue) ∧ ¬ windowTracker.Agree steadyConfig windowModel (failing .blue)) ∧
    let tracked := windowTracker.run steadyConfig windowModel (List.replicate 40 (.track (failing .red)))
    tracked.state = .tracking ∧ tracked.Comparable (failing .red) ∧
      ¬ tracked.Agree steadyConfig windowModel (failing .red) := by
  refine ⟨⟨comparable_lost rfl rfl _, fun hagree => ?_⟩, by decide +kernel, ⟨?_, ?_, ?_⟩, fun hagree => ?_⟩
  · exact absurd hagree.state (by decide +kernel)
  · decide +kernel
  · decide +kernel
  · intro _
    decide +kernel
  · exact absurd hagree.state (by decide +kernel)

end SpVision
