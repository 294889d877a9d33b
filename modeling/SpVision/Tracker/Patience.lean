import Mathlib.Data.List.Induction
import SpVision.Tracker.Confirmed

set_option autoImplicit false

/-!
# How long the tracker waits for the gimbal to turn

The frames without the target are counted in `temp_lost_count_` while the tracker is in
`temp_lost` and in `switching`. The count starts again on the way to `temp_lost` only.
-/
namespace SpVision

variable {β τ : Type}

/-- A call of `track` with a detection queue. -/
structure QueueCall (β : Type) where
  detectionQueue : List (DetectionResult β)
  frame : Frame β

/-- Frames at most 0.1 s apart. -/
def Gapless : ℤ → List (QueueCall β) → Prop
  | _, [] => True
  | last, call :: rest => deltaTime call.frame.t last ≤ 100000000 ∧ Gapless call.frame.t rest

namespace QueueCall

variable (model : TargetModel β τ)

/-- Whether the armor that the gimbal turns to has come in sight. -/
def finds (call : QueueCall β) (omniTargetPriority : ArmorPriority) : Bool :=
  (Tracker.sortArmors model call.frame.armors).head?.any (·.priority = omniTargetPriority)

end QueueCall

namespace Tracker

variable (cfg : TrackerConfig) (model : TargetModel β τ)

def queueStep (tr : Tracker τ) (call : QueueCall β) : Tracker τ :=
  (tr.trackQueue cfg model call.detectionQueue call.frame).1

def queueRun (tr : Tracker τ) (calls : List (QueueCall β)) : Tracker τ := calls.foldl (queueStep cfg model) tr

/-- The tracker stays in `switching` for `n` frames without the armor, and leaves it with the next frame or as soon
    as the armor is found. -/
structure StaysFor (n : ℕ) (tr : Tracker τ) : Prop where
  stays : ∀ calls, Gapless tr.lastTimestamp calls → (∀ call ∈ calls, call.finds model tr.omniTargetPriority = false) →
    calls.length < n → (tr.queueRun cfg model calls).state = .switching
  leaves : ∀ calls, Gapless tr.lastTimestamp calls → (∀ call ∈ calls, call.finds model tr.omniTargetPriority = false) →
    calls.length = n → (tr.queueRun cfg model calls).state ≠ .switching
  found : ∀ calls call, Gapless tr.lastTimestamp (calls ++ [call]) →
    (∀ call ∈ calls, call.finds model tr.omniTargetPriority = false) → calls.length < n →
    call.finds model tr.omniTargetPriority = true → (tr.queueRun cfg model (calls ++ [call])).state ≠ .switching

variable {cfg model}

theorem largeDt_of_le {tr : Tracker τ} {t : ℤ} (hgap : deltaTime t tr.lastTimestamp ≤ 100000000) :
    tr.largeDt t = { tr with lastTimestamp := t } := by
  rw [largeDt, if_neg fun hlarge => absurd hlarge.2 hgap.not_gt]

theorem chooseOrSwitch_switching {start : Tracker τ} (hstate : start.state = .switching)
    (tempTarget : DetectionResult β) (frame : Frame β) :
    start.chooseOrSwitch model tempTarget frame = (start, sortArmors model frame.armors,
      (sortArmors model frame.armors).head?.any (·.priority = start.omniTargetPriority), ⟨[], frame.t, 0, 0⟩) := by
  have haction : start.queueAction model tempTarget.armors (sortArmors model frame.armors) = .await := by
    simp [queueAction, hstate]
  have hnote : start.noteConverged model tempTarget.armors (sortArmors model frame.armors) = start :=
    if_neg (by simp [hstate])
  simp only [chooseOrSwitch, haction, hnote]

/-- What a call has chosen goes through the state machine, unless the target has diverged. -/
theorem queueStep_eq {tr start : Tracker τ} {call : QueueCall β}
    {choice : Tracker τ × List (Armor β) × Bool × DetectionResult β} (hstart : tr.largeDt call.frame.t = start)
    (hchoice : start.chooseOrSwitch model (call.detectionQueue.head?.getD ⟨[], call.frame.t, 0, 0⟩) call.frame = choice)
    (hdiverged : model.diverged choice.1.target = false) :
    tr.queueStep cfg model call = ({ choice.1 with preState := choice.1.state }).stateMachine cfg choice.2.2.1 := by
  rw [queueStep, trackQueue, hstart, hchoice]
  dsimp only
  rw [stateMachine_target, if_neg fun h => absurd (h.2.symm.trans hdiverged) nofun]
  split <;> rfl

theorem queueStep_switching {tr : Tracker τ} {call : QueueCall β} (hstate : tr.state = .switching)
    (hgap : deltaTime call.frame.t tr.lastTimestamp ≤ 100000000) (hdiverged : model.diverged tr.target = false) :
    tr.queueStep cfg model call =
      ({ tr with lastTimestamp := call.frame.t, preState := .switching } : Tracker τ).stateMachine cfg
        (call.finds model tr.omniTargetPriority) := by
  obtain ⟨start, hstart⟩ : ∃ start, tr.largeDt call.frame.t = start := ⟨_, rfl⟩
  have heq : start = { tr with lastTimestamp := call.frame.t } := hstart.symm.trans (largeDt_of_le hgap)
  have hswitching : start.state = .switching := by rw [heq]; exact hstate
  have htarget : model.diverged start.target = false := by rw [heq]; exact hdiverged
  rw [queueStep_eq hstart (chooseOrSwitch_switching hswitching _ _) htarget, hswitching, heq]
  rfl

theorem queueStep_missing {tr : Tracker τ} {call : QueueCall β} (hstate : tr.state = .switching)
    (hgap : deltaTime call.frame.t tr.lastTimestamp ≤ 100000000) (hdiverged : model.diverged tr.target = false)
    (hmissing : call.finds model tr.omniTargetPriority = false) :
    tr.queueStep cfg model call =
      { tr with lastTimestamp := call.frame.t, preState := .switching, tempLostCount := tr.tempLostCount + 1
                state := if tr.tempLostCount + 1 > 200 then .lost else .switching } := by
  rw [queueStep_switching hstate hgap hdiverged, hmissing]
  simp only [stateMachine, hstate, Bool.false_eq_true, if_false]

theorem queueStep_stays {tr : Tracker τ} {call : QueueCall β} (hstate : tr.state = .switching)
    (hgap : deltaTime call.frame.t tr.lastTimestamp ≤ 100000000) (hdiverged : model.diverged tr.target = false)
    (hmissing : call.finds model tr.omniTargetPriority = false) (hcount : tr.tempLostCount + 1 ≤ 200) :
    tr.queueStep cfg model call =
      { tr with lastTimestamp := call.frame.t, preState := .switching, tempLostCount := tr.tempLostCount + 1 } := by
  rw [queueStep_missing hstate hgap hdiverged hmissing, if_neg (by omega), hstate]

/-- Frames without the armor are counted, and the tracker is lost with the one that brings the count above 200. -/
theorem queueRun_missing (calls : List (QueueCall β)) : ∀ {tr : Tracker τ}, tr.state = .switching →
    model.diverged tr.target = false → Gapless tr.lastTimestamp calls →
    (∀ call ∈ calls, call.finds model tr.omniTargetPriority = false) → tr.tempLostCount ≤ 200 →
    tr.tempLostCount + calls.length ≤ 201 →
    (tr.queueRun cfg model calls).state = if tr.tempLostCount + calls.length > 200 then .lost else .switching := by
  induction calls with
  | nil =>
    intro tr hstate _ _ _ hcount _
    rw [List.length_nil, Nat.cast_zero, add_zero, if_neg (by omega)]
    exact hstate
  | cons call rest ih =>
    intro tr hstate hdiverged hgaps hmissing hcount htotal
    rw [List.length_cons, Nat.cast_add, Nat.cast_one] at htotal ⊢
    have hcall := hmissing call List.mem_cons_self
    by_cases hlast : tr.tempLostCount + 1 ≤ 200
    · have hstep : tr.queueStep cfg model call = _ := queueStep_stays hstate hgaps.1 hdiverged hcall hlast
      rw [queueRun, List.foldl_cons, ← queueRun, hstep, add_comm (rest.length : ℤ), ← add_assoc]
      exact ih hstate hdiverged hgaps.2 (fun c hc => hmissing c (List.mem_cons_of_mem _ hc)) hlast (by dsimp only; omega)
    · have hrest : rest = [] := List.length_eq_zero_iff.1 (by omega)
      rw [hrest, queueRun, List.foldl_cons, List.foldl_nil, queueStep_missing hstate hgaps.1 hdiverged hcall,
        if_pos (by omega), if_pos (by rw [List.length_nil]; omega)]

theorem queueRun_found (calls : List (QueueCall β)) {call : QueueCall β} : ∀ {tr : Tracker τ}, tr.state = .switching →
    model.diverged tr.target = false → Gapless tr.lastTimestamp (calls ++ [call]) →
    (∀ call ∈ calls, call.finds model tr.omniTargetPriority = false) →
    call.finds model tr.omniTargetPriority = true → tr.tempLostCount + calls.length ≤ 200 →
    (tr.queueRun cfg model (calls ++ [call])).state = .detecting := by
  induction calls with
  | nil =>
    intro tr hstate hdiverged hgaps _ hfound _
    rw [List.nil_append, queueRun, List.foldl_cons, List.foldl_nil, queueStep_switching hstate hgaps.1 hdiverged, hfound,
      stateMachine]
    simp only [hstate, if_true]
  | cons first rest ih =>
    intro tr hstate hdiverged hgaps hmissing hfound htotal
    rw [List.length_cons, Nat.cast_add, Nat.cast_one] at htotal
    have hstep : tr.queueStep cfg model first = _ :=
      queueStep_stays hstate hgaps.1 hdiverged (hmissing first List.mem_cons_self) (by omega)
    rw [List.cons_append, queueRun, List.foldl_cons, ← queueRun, hstep]
    exact ih hstate hdiverged hgaps.2 (fun c hc => hmissing c (List.mem_cons_of_mem _ hc)) hfound
      (by dsimp only; omega)

/-- A frame without armors. -/
def blankCall (t : ℤ) : QueueCall β := ⟨[], { armors := [], t, solve := fun armor => armor.view }⟩

theorem gapless_blank (t : ℤ) (n : ℕ) : Gapless t (List.replicate n (blankCall t : QueueCall β)) := by
  induction n with
  | zero => trivial
  | succ n ih => exact ⟨by rw [blankCall, deltaTime, sub_self]; decide, ih⟩

/-- The patience is what is left of the count. -/
theorem staysFor_iff {tr : Tracker τ} (hstate : tr.state = .switching) (hdiverged : model.diverged tr.target = false)
    (hcount : tr.tempLostCount ≤ 200) (n : ℕ) : StaysFor cfg model n tr ↔ tr.tempLostCount + n = 201 := by
  constructor
  · intro h
    have hblank : ∀ k : ℕ, ∀ call ∈ List.replicate k (blankCall tr.lastTimestamp : QueueCall β),
        call.finds model tr.omniTargetPriority = false := by
      intro k call hcall
      rw [List.eq_of_mem_replicate hcall]
      rfl
    obtain ⟨m, hm⟩ : ∃ m : ℕ, tr.tempLostCount + m = 201 := ⟨(201 - tr.tempLostCount).toNat, by omega⟩
    rcases lt_trichotomy n m with hlt | heq | hgt
    · have hrun : (tr.queueRun cfg model _).state = _ := queueRun_missing _ hstate hdiverged
        (gapless_blank tr.lastTimestamp n) (hblank n) hcount (by rw [List.length_replicate]; omega)
      rw [List.length_replicate, if_neg (by omega)] at hrun
      exact absurd hrun (h.leaves _ (gapless_blank _ n) (hblank n) List.length_replicate)
    · omega
    · have hrun : (tr.queueRun cfg model _).state = _ := queueRun_missing _ hstate hdiverged
        (gapless_blank tr.lastTimestamp m) (hblank m) hcount (by rw [List.length_replicate]; omega)
      rw [List.length_replicate, if_pos (by omega)] at hrun
      have hstays := h.stays _ (gapless_blank _ m) (hblank m) (by rw [List.length_replicate]; exact hgt)
      exact absurd (hrun.symm.trans hstays) nofun
  · intro h
    refine ⟨?_, ?_, ?_⟩
    · intro calls hgaps hmissing hlength
      rw [queueRun_missing calls hstate hdiverged hgaps hmissing hcount (by omega), if_neg (by omega)]
    · intro calls hgaps hmissing hlength
      rw [queueRun_missing calls hstate hdiverged hgaps hmissing hcount (by omega), if_pos (by omega)]
      exact nofun
    · intro calls call hgaps hmissing hlength hfound
      rw [queueRun_found calls hstate hdiverged hgaps hmissing hfound (by omega)]
      exact nofun

variable (cfg model)

/-- The call in which the tracker enters `switching`. -/
def Switches (tr : Tracker τ) (call : QueueCall β) : Prop :=
  (tr.largeDt call.frame.t).queueAction model (call.detectionQueue.head?.getD ⟨[], call.frame.t, 0, 0⟩).armors
    (sortArmors model call.frame.armors) = .switch

instance (tr : Tracker τ) (call : QueueCall β) : Decidable (tr.Switches model call) :=
  inferInstanceAs (Decidable (_ = Action.switch))

/-- A call without a find while there is a target to lose. -/
def Misses (tr : Tracker τ) (input : TrackerInput β) : Prop :=
  ∃ c, tr.choice? model input = some c ∧ c.found = false ∧
    (c.tracker.state = .tracking ∨ c.tracker.state = .tempLost ∨ c.tracker.state = .switching)

def NeverMisses (tr : Tracker τ) (inputs : List (TrackerInput β)) : Prop :=
  ∀ pre input post, inputs = pre ++ input :: post → ¬ (tr.run cfg model pre).Misses model input

variable {cfg model}

theorem chooseOrSwitch_switch {start : Tracker τ} {tempTarget : DetectionResult β} {frame : Frame β}
    (haction : start.queueAction model tempTarget.armors (sortArmors model frame.armors) = .switch) :
    (start.chooseOrSwitch model tempTarget frame).1.state = .switching ∧
      (start.chooseOrSwitch model tempTarget frame).1.tempLostCount = start.tempLostCount ∧
      (start.chooseOrSwitch model tempTarget frame).2.2.1 = false := by
  obtain ⟨estimate, hnote⟩ := start.noteConverged_eq model tempTarget.armors (sortArmors model frame.armors)
  simp only [chooseOrSwitch, haction, hnote, and_self]

/-- The entry itself is counted. -/
theorem queueStep_switch {tr : Tracker τ} {call : QueueCall β} (hswitch : tr.Switches model call)
    (hdiverged : model.diverged (tr.queueStep cfg model call).target = false) :
    (tr.queueStep cfg model call).tempLostCount = tr.tempLostCount + 1 ∧
      (tr.queueStep cfg model call).state = if tr.tempLostCount + 1 > 200 then .lost else .switching := by
  obtain ⟨hstate, hcount, hfound⟩ := chooseOrSwitch_switch hswitch
  obtain ⟨givenUp, hstep⟩ := tr.trackQueue_fst cfg model call.detectionQueue call.frame
  have htarget := hdiverged
  rw [queueStep, hstep, settle_target] at htarget
  rw [queueStep_eq rfl rfl htarget, hfound]
  have hkept : (tr.largeDt call.frame.t).tempLostCount = tr.tempLostCount := rfl
  simp only [stateMachine, hstate, Bool.false_eq_true, if_false, hcount, hkept, and_self]

theorem stateMachine_tempLostCount {tr : Tracker τ} (found : Bool) (hcount : 0 ≤ tr.tempLostCount) :
    (found = false ∧ (tr.state = .tracking ∨ tr.state = .tempLost ∨ tr.state = .switching) ∧
      0 < (tr.stateMachine cfg found).tempLostCount) ∨
    (¬ (found = false ∧ (tr.state = .tracking ∨ tr.state = .tempLost ∨ tr.state = .switching)) ∧
      (tr.stateMachine cfg found).tempLostCount = tr.tempLostCount) := by
  cases hstate : tr.state <;> cases found <;> simp [stateMachine, hstate] <;> omega

variable (cfg model)

theorem step_tempLostCount {tr : Tracker τ} (hcount : 0 ≤ tr.tempLostCount) (input : TrackerInput β) :
    (tr.Misses model input ∧ 0 < (tr.step cfg model input).tempLostCount) ∨
    (¬ tr.Misses model input ∧ (tr.step cfg model input).tempLostCount = tr.tempLostCount) := by
  rcases tr.step_cases cfg model input with
    ⟨hchoice, enemyColor, hstep⟩ | ⟨c, t, preState, givenUp, hchoice, hstart, hchooses, hstep⟩
  · right
    rw [hstep]
    refine ⟨?_, rfl⟩
    rintro ⟨c, hc, -⟩
    exact absurd (hchoice.symm.trans hc) nofun
  · have hkept : c.tracker.tempLostCount = tr.tempLostCount := by
      have hstartCount : c.start.tempLostCount = tr.tempLostCount := by rw [hstart]; rfl
      generalize c.tracker = tracker, c.found = found, c.reason = reason at hchooses
      cases hchooses <;> exact hstartCount
    have hsettle : (tr.step cfg model input).tempLostCount =
        (({ c.tracker with preState } : Tracker τ).stateMachine cfg c.found).tempLostCount := by
      rw [hstep, settle]
      split <;> rfl
    have hmisses : tr.Misses model input ↔ c.found = false ∧
        (c.tracker.state = .tracking ∨ c.tracker.state = .tempLost ∨ c.tracker.state = .switching) := by
      constructor
      · rintro ⟨c', hc', hmiss⟩
        cases hchoice.symm.trans hc'
        exact hmiss
      · exact fun hmiss => ⟨c, hchoice, hmiss⟩
    rw [hsettle, hmisses]
    have hmachine : _ ∨ _ ∧ (({ c.tracker with preState } : Tracker τ).stateMachine cfg c.found).tempLostCount = _ :=
      stateMachine_tempLostCount c.found (hkept ▸ hcount)
    rcases hmachine with
      ⟨hfound, hstate, hpos⟩ | ⟨hnot, hsame⟩
    · exact .inl ⟨⟨hfound, hstate⟩, hpos⟩
    · exact .inr ⟨hnot, hsame.trans hkept⟩

theorem neverMisses_append {tr : Tracker τ} {inputs : List (TrackerInput β)} {input : TrackerInput β} :
    tr.NeverMisses cfg model (inputs ++ [input]) ↔
      tr.NeverMisses cfg model inputs ∧ ¬ (tr.run cfg model inputs).Misses model input := by
  constructor
  · intro h
    refine ⟨fun pre x post hsplit => h pre x (post ++ [input]) ?_, h inputs input [] rfl⟩
    rw [hsplit, List.append_assoc, List.cons_append]
  · rintro ⟨hbefore, hlast⟩ pre x post hsplit
    rcases List.eq_nil_or_concat post with rfl | ⟨post, y, rfl⟩
    · obtain ⟨rfl, hx⟩ := List.append_inj' hsplit rfl
      cases hx
      exact hlast
    · rw [List.concat_eq_append, ← List.cons_append, ← List.append_assoc] at hsplit
      exact hbefore pre x post (List.append_inj' hsplit rfl).1

theorem tempLostCount_run (tr : Tracker τ) (hzero : tr.tempLostCount = 0) (inputs : List (TrackerInput β)) :
    0 ≤ (tr.run cfg model inputs).tempLostCount ∧
      ((tr.run cfg model inputs).tempLostCount = 0 ↔ tr.NeverMisses cfg model inputs) := by
  induction inputs using List.reverseRecOn with
  | nil =>
    refine ⟨hzero.ge, fun _ pre input post hsplit => ?_, fun _ => hzero⟩
    exact absurd hsplit.symm (by simp)
  | append_singleton inputs input ih =>
    obtain ⟨hcount, hnever⟩ := ih
    have hrun : tr.run cfg model (inputs ++ [input]) = (tr.run cfg model inputs).step cfg model input :=
      tr.run_append cfg model inputs [input]
    rw [hrun, neverMisses_append, ← hnever]
    rcases step_tempLostCount cfg model hcount input with ⟨hmisses, hpos⟩ | ⟨hmisses, hsame⟩
    · exact ⟨hpos.le, fun h => absurd h hpos.ne', fun h => absurd hmisses h.2⟩
    · rw [hsame]
      exact ⟨hcount, fun h => ⟨h, hmisses⟩, fun h => h.1⟩

end Tracker

open Tracker

/-- The tracker waits for 200 frames exactly if it has not missed anything before it entered `switching`. -/
theorem switching_patience_iff (cfg : TrackerConfig) (model : TargetModel β τ) (target : Target τ) (now : ℤ)
    (inputs : List (TrackerInput β)) (call : QueueCall β) (tr : Tracker τ)
    (hrun : tr = (Tracker.init cfg target now).run cfg model inputs) (hswitch : tr.Switches model call)
    (hdiverged : model.diverged (tr.queueStep cfg model call).target = false) :
    StaysFor cfg model 200 (tr.queueStep cfg model call) ↔ (Tracker.init cfg target now).NeverMisses cfg model inputs := by
  obtain ⟨hnonneg, hnever⟩ := tempLostCount_run cfg model (Tracker.init cfg target now) rfl inputs
  rw [← hrun] at hnonneg hnever
  obtain ⟨hcount, hstate⟩ := queueStep_switch hswitch hdiverged
  rw [← hnever]
  by_cases hpatient : tr.tempLostCount + 1 > 200
  · rw [if_pos hpatient] at hstate
    constructor
    · intro h
      exact absurd (hstate.symm.trans (h.stays [] trivial nofun (by rw [List.length_nil]; decide))) nofun
    · omega
  · rw [if_neg hpatient] at hstate
    rw [staysFor_iff hstate hdiverged (by omega), hcount]
    omega

/-! ### Two runs -/

/-- A target of the second priority in tracking. -/
def tracked : List (TrackerInput Unit) := List.replicate 5 (.trackQueue [] (still [plate .second]))

/-- It is lost for a frame and found again. -/
def lostOnce : List (TrackerInput Unit) :=
  tracked ++ [.trackQueue [] (still []), .trackQueue [] (still [plate .second])]

def turnAway : QueueCall Unit := ⟨[⟨[plate .first], 0, 1, 0⟩], still []⟩

theorem patience_depends_on_history : ¬ ∃ n, ∀ inputs,
    (steadyTracker.run steadyConfig steadyModel inputs).Switches steadyModel turnAway →
    StaysFor steadyConfig steadyModel n
      ((steadyTracker.run steadyConfig steadyModel inputs).queueStep steadyConfig steadyModel turnAway) := by
  rintro ⟨n, h⟩
  have htracked := (staysFor_iff (by decide +kernel) rfl (by decide +kernel) n).1 (h tracked (by decide +kernel))
  have hlost := (staysFor_iff (by decide +kernel) rfl (by decide +kernel) n).1 (h lostOnce (by decide +kernel))
  have hone : ((steadyTracker.run steadyConfig steadyModel tracked).queueStep steadyConfig steadyModel
      turnAway).tempLostCount = 1 := by decide +kernel
  have htwo : ((steadyTracker.run steadyConfig steadyModel lostOnce).queueStep steadyConfig steadyModel
      turnAway).tempLostCount = 2 := by decide +kernel
  omega

theorem first_switch_patience : StaysFor steadyConfig steadyModel 200
    ((steadyTracker.run steadyConfig steadyModel tracked).queueStep steadyConfig steadyModel turnAway) := by
  refine (switching_patience_iff steadyConfig steadyModel ⟨.one, .small, .fifth, ()⟩ 0 tracked turnAway _ rfl
    (by decide +kernel) rfl).2 ?_
  exact (tempLostCount_run steadyConfig steadyModel steadyTracker rfl tracked).2.1 (by decide +kernel)

end SpVision
