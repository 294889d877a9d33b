import Mathlib.Data.List.Induction
import SpVision.Tracker.Runs

set_option autoImplicit false

/-!
# What confirms a target

A target that was set while there was none has been found in `min_detect_count` calls before
it is tracked. One that replaces a target in tracking is tracked at once.
-/
namespace SpVision

variable {β τ : Type}

namespace Tracker

variable (cfg : TrackerConfig)

theorem largeDt_state {tr : Tracker τ} {t : ℤ} {state : TrackerState} (h : (tr.largeDt t).state = state)
    (hstate : state ≠ .lost) : tr.state = state := by
  rw [largeDt] at h
  split_ifs at h
  · exact absurd h.symm hstate
  · exact h

theorem settle_of_ne_lost {tr : Tracker τ} {found givenUp : Bool} (h : (tr.settle cfg found givenUp).state ≠ .lost) :
    tr.settle cfg found givenUp = tr.stateMachine cfg found := by
  cases givenUp with
  | true => exact absurd rfl h
  | false => rfl

theorem settle_tracking {tr : Tracker τ} {found givenUp : Bool} (h : (tr.settle cfg found givenUp).state = .tracking) :
    found = true ∧ (tr.state = .tracking ∨ tr.state = .tempLost ∨
      tr.state = .detecting ∧ cfg.minDetectCount ≤ tr.detectCount + 1) := by
  rw [settle_of_ne_lost cfg (by rw [h]; decide), stateMachine] at h
  cases hstate : tr.state <;> cases found <;> simp [hstate] at h ⊢
  · exact h
  · split_ifs at h
  · split_ifs at h

theorem settle_detecting {tr : Tracker τ} {found givenUp : Bool} (h : (tr.settle cfg found givenUp).state = .detecting) :
    found = true ∧ (tr.state = .lost ∧ (tr.settle cfg found givenUp).detectCount = 1 ∨
      tr.state = .detecting ∧ (tr.settle cfg found givenUp).detectCount = tr.detectCount + 1 ∨
      tr.state = .switching) := by
  have hmachine : tr.settle cfg found givenUp = tr.stateMachine cfg found :=
    settle_of_ne_lost cfg (by rw [h]; decide)
  rw [hmachine] at h ⊢
  unfold stateMachine at h ⊢
  cases hstate : tr.state <;> cases found <;> simp [hstate] at h ⊢
  · split_ifs at h
  · split_ifs at h

theorem settle_pursuing {tr : Tracker τ} {found givenUp : Bool}
    (h : (tr.settle cfg found givenUp).state = .tempLost ∨ (tr.settle cfg found givenUp).state = .switching) :
    found = false ∧ (tr.state = .tracking ∨ tr.state = .tempLost ∨ tr.state = .switching) := by
  rw [settle_of_ne_lost cfg (by rcases h with h | h <;> rw [h] <;> decide), stateMachine] at h
  cases hstate : tr.state <;> cases found <;> simp [hstate] at h ⊢
  · split_ifs at h <;> simp at h

theorem settle_lost {tr : Tracker τ} (givenUp : Bool) (h : tr.state = .lost) :
    (tr.settle cfg false givenUp).state = .lost := by
  unfold settle stateMachine
  split
  · rfl
  · simp [h]

end Tracker

open Tracker

/-- The tracker with what is to be known of its target: the tracker that `set_target` was called on and why, what
    the calls since then found, and what they had found when the target was first tracked. -/
structure TargetTrace (τ : Type) where
  tracker : Tracker τ
  replaced : Tracker τ
  reason : Option SetReason := none
  calls : List Bool := []
  entered : Option (List Bool) := none
  deriving DecidableEq, Repr

namespace TargetTrace

variable (cfg : TrackerConfig) (model : TargetModel β τ)

/-- The calls that found the target, if it is tracked now. -/
def entry (tracker : Tracker τ) (calls : List Bool) : Option (List Bool) :=
  if tracker.state = .tracking then some calls else none

def call (tr : TargetTrace τ) (c : Choice τ) (tracker : Tracker τ) : TargetTrace τ :=
  match c.reason with
  | some reason =>
    { tracker, replaced := c.start, reason := some reason, calls := [c.found], entered := entry tracker [c.found] }
  | none =>
    { tr with tracker, calls := tr.calls ++ [c.found]
              entered := tr.entered.or (entry tracker (tr.calls ++ [c.found])) }

def step (tr : TargetTrace τ) (input : TrackerInput β) : TargetTrace τ :=
  match tr.tracker.choice? model input with
  | none => { tr with tracker := tr.tracker.step cfg model input }
  | some c => tr.call c (tr.tracker.step cfg model input)

def run (tracker : Tracker τ) (inputs : List (TrackerInput β)) : TargetTrace τ :=
  inputs.foldl (step cfg model) { tracker, replaced := tracker }

theorem run_append (tracker : Tracker τ) (pre rest : List (TrackerInput β)) :
    run cfg model tracker (pre ++ rest) = rest.foldl (step cfg model) (run cfg model tracker pre) := List.foldl_append

/-- The target was found in all calls before it was first tracked, and in enough of them. -/
def Confirmed (tr : TargetTrace τ) : Prop :=
  ∃ calls, tr.entered = some calls ∧ cfg.minDetectCount ≤ calls.length ∧ ∀ found ∈ calls, found = true

structure Inv (tr : TargetTrace τ) : Prop where
  known : tr.tracker.state ≠ .lost → tr.reason ≠ none
  counted : tr.tracker.state = .detecting → tr.entered = none → tr.reason = some .lost →
    tr.tracker.detectCount = tr.calls.length ∧ ∀ found ∈ tr.calls, found = true
  entered : tr.tracker.state = .tracking ∨ tr.tracker.state = .tempLost ∨ tr.tracker.state = .switching →
    tr.entered ≠ none
  confirmed : tr.reason = some .lost → tr.entered ≠ none → tr.Confirmed cfg
  higher : tr.reason = some .higherPriority →
    tr.replaced.state = .tracking ∧ tr.tracker.target.priority < tr.replaced.target.priority

variable {cfg}

theorem entry_eq_none {tracker : Tracker τ} {calls : List Bool} (h : tracker.state ≠ .tracking) :
    entry tracker calls = none := if_neg h

/-- A new target has been found once, and it is tracked at once only if there was another. -/
theorem inv_set (tr : TargetTrace τ) {start tracker chosen : Tracker τ} {target : Target τ} {reason : SetReason}
    (hsets : Sets start target reason) (hstate : tracker.state = start.state) (htarget : tracker.target = target)
    (givenUp : Bool) : (tr.call ⟨start, chosen, true, some reason⟩ (tracker.settle cfg true givenUp)).Inv cfg := by
  refine ⟨fun _ => nofun, ?_, ?_, ?_, ?_⟩
  · intro (hdetecting : (tracker.settle cfg true givenUp).state = .detecting) _ hreason
    cases hreason
    have hlost : tracker.state = .lost := hstate.trans hsets
    rcases (settle_detecting cfg hdetecting).2 with ⟨-, hcount⟩ | ⟨hother, -⟩ | hother
    · exact ⟨hcount, by simp [call]⟩
    · exact absurd (hlost.symm.trans hother) nofun
    · exact absurd (hlost.symm.trans hother) nofun
  · rintro (htracking | hpursuing)
    · exact fun hnone => absurd ((if_pos htracking).symm.trans hnone) nofun
    · exact absurd (settle_pursuing cfg hpursuing).1 nofun
  · intro hreason hentered
    cases hreason
    have hlost : tracker.state = .lost := hstate.trans hsets
    refine absurd (entry_eq_none fun htracking => ?_) hentered
    rcases (settle_tracking cfg htracking).2 with h | h | ⟨h, -⟩ <;> exact absurd (hlost.symm.trans h) nofun
  · intro hreason
    cases hreason
    refine ⟨hsets.1, ?_⟩
    change (tracker.settle cfg true givenUp).target.priority < start.target.priority
    rw [settle_target, htarget]
    exact hsets.2

theorem entered_or {entered entered' : Option (List Bool)} (h : entered ≠ none) : entered.or entered' = entered := by
  cases entered with
  | none => exact absurd rfl h
  | some calls => rfl

theorem Inv.one_more {tr : TargetTrace τ} (h : tr.Inv cfg) (hstate : tr.tracker.state = .detecting)
    (hentered : tr.entered = none) (hreason : tr.reason = some .lost) :
    tr.tracker.detectCount + 1 = ((tr.calls ++ [true]).length : ℤ) ∧ ∀ found ∈ tr.calls ++ [true], found = true := by
  obtain ⟨hlength, hall⟩ := h.counted hstate hentered hreason
  constructor
  · rw [hlength, List.length_append, List.length_singleton, Nat.cast_add, Nat.cast_one]
  · intro found hfound
    rcases List.mem_append.1 hfound with hfound | hfound
    · exact hall found hfound
    · exact List.mem_singleton.1 hfound

theorem inv_keep {tr : TargetTrace τ} (h : tr.Inv cfg) {start tracker chosen : Tracker τ} {found : Bool}
    (hlost : tracker.state = .lost → found = false) (hknown : tracker.state ≠ .lost → tr.reason ≠ none)
    (hcounted : tracker.state = .detecting → tr.tracker.state = .detecting)
    (hpursued : tracker.state = .tracking ∨ tracker.state = .tempLost ∨ tracker.state = .switching → tr.entered ≠ none)
    (hcount : tracker.detectCount = tr.tracker.detectCount)
    (hpriority : tracker.target.priority = tr.tracker.target.priority) (givenUp : Bool) :
    (tr.call ⟨start, chosen, found, none⟩ (tracker.settle cfg found givenUp)).Inv cfg := by
  refine ⟨?_, ?_, ?_, ?_, ?_⟩
  · intro (hne : (tracker.settle cfg found givenUp).state ≠ .lost)
    refine hknown fun hstate => hne ?_
    rw [hlost hstate]
    exact settle_lost cfg givenUp hstate
  · intro (hdetecting : (tracker.settle cfg found givenUp).state = .detecting)
      (hentered : tr.entered.or (entry _ _) = none) (hreason : tr.reason = some .lost)
    obtain ⟨hfound, ⟨hstate, -⟩ | ⟨hstate, hnext⟩ | hstate⟩ := settle_detecting cfg hdetecting
    · exact absurd (hfound.symm.trans (hlost hstate)) nofun
    · change (tracker.settle cfg found givenUp).detectCount = ((tr.calls ++ [found]).length : ℤ) ∧
        ∀ f ∈ tr.calls ++ [found], f = true
      rw [hnext, hcount, hfound]
      exact h.one_more (hcounted hstate) (Option.or_eq_none_iff.1 hentered).1 hreason
    · exact absurd (Option.or_eq_none_iff.1 hentered).1 (hpursued (.inr (.inr hstate)))
  · rintro (htracking | hpursuing) (hnone : tr.entered.or (entry _ _) = none)
    · exact absurd ((if_pos htracking).symm.trans (Option.or_eq_none_iff.1 hnone).2) nofun
    · exact hpursued (settle_pursuing cfg hpursuing).2 (Option.or_eq_none_iff.1 hnone).1
  · intro (hreason : tr.reason = some .lost) (hentered : tr.entered.or (entry _ _) ≠ none)
    by_cases hbefore : tr.entered = none
    · have htracking : (tracker.settle cfg found givenUp).state = .tracking := by
        by_contra hne
        exact hentered (Option.or_eq_none_iff.2 ⟨hbefore, entry_eq_none hne⟩)
      obtain ⟨hfound, hstate | hstate | ⟨hstate, hmin⟩⟩ := settle_tracking cfg htracking
      · exact absurd hbefore (hpursued (.inl hstate))
      · exact absurd hbefore (hpursued (.inr (.inl hstate)))
      · obtain ⟨hlength, hall⟩ := h.one_more (hcounted hstate) hbefore hreason
        rw [hcount, hlength] at hmin
        refine ⟨tr.calls ++ [true], ?_, hmin, hall⟩
        change tr.entered.or (entry _ _) = some (tr.calls ++ [true])
        rw [hbefore, entry, if_pos htracking, hfound]
        rfl
    · obtain ⟨calls, hcalls, hconfirmed⟩ := h.confirmed hreason hbefore
      exact ⟨calls, (entered_or hbefore).trans hcalls, hconfirmed⟩
  · intro (hreason : tr.reason = some .higherPriority)
    change tr.replaced.state = .tracking ∧ (tracker.settle cfg found givenUp).target.priority < tr.replaced.target.priority
    rw [settle_target, hpriority]
    exact h.higher hreason

theorem inv_step {tr : TargetTrace τ} (h : tr.Inv cfg) (input : TrackerInput β) : (tr.step cfg model input).Inv cfg := by
  unfold step
  rcases tr.tracker.step_cases cfg model input with
    ⟨hchoice, enemyColor, hstep⟩ | ⟨⟨start, chosen, found, reason⟩, t, preState, givenUp, hchoice, hstart, hchooses, hstep⟩
  · rw [hchoice, hstep]
    exact ⟨h.known, h.counted, h.entered, h.confirmed, h.higher⟩
  · rw [hchoice, hstep]
    dsimp only at hstart hchooses ⊢
    -- a state other than lost is the one before the call
    have hsame : ∀ s : TrackerState, s ≠ .lost → start.state = s → tr.tracker.state = s :=
      fun s hs hstate => largeDt_state ((congrArg Tracker.state hstart).symm.trans hstate) hs
    have hpursued : start.state = .tracking ∨ start.state = .tempLost ∨ start.state = .switching → tr.entered ≠ none := by
      intro hstate
      apply h.entered
      exact hstate.imp (hsame .tracking nofun) (Or.imp (hsame .tempLost nofun) (hsame .switching nofun))
    have hknown : start.state ≠ .lost → tr.reason ≠ none := by
      intro hne
      apply h.known
      rw [hsame _ hne rfl]
      exact hne
    have hcount : start.detectCount = tr.tracker.detectCount := by rw [hstart]; rfl
    have hpriority : start.target.priority = tr.tracker.target.priority := by rw [hstart]; rfl
    cases hchooses with
    | set target reason hsets =>
      refine inv_set tr hsets ?_ ?_ givenUp
      · rfl
      · rfl
    | keep estimate _ hlost =>
      refine inv_keep h ?_ ?_ ?_ ?_ ?_ ?_ givenUp
      · exact hlost
      · exact hknown
      · exact hsame .detecting nofun
      · exact hpursued
      · exact hcount
      · exact hpriority
    | switch estimate omniTargetPriority htracking =>
      refine inv_keep h ?_ ?_ ?_ ?_ ?_ ?_ givenUp
      · exact nofun
      · exact fun _ => hknown (by rw [htracking]; decide)
      · exact nofun
      · exact fun _ => hpursued (.inl htracking)
      · exact hcount
      · exact hpriority

theorem inv_run (cfg : TrackerConfig) (model : TargetModel β τ) {tracker : Tracker τ} (hlost : tracker.state = .lost)
    (inputs : List (TrackerInput β)) : (run cfg model tracker inputs).Inv cfg := by
  induction inputs using List.reverseRecOn with
  | nil =>
    refine ⟨fun h => absurd hlost h, ?_, ?_, ?_, ?_⟩
    · exact fun hdetecting => absurd (hlost.symm.trans hdetecting) nofun
    · rintro (h | h | h) <;> exact absurd (hlost.symm.trans h) nofun
    · exact nofun
    · exact nofun
  | append_singleton pre input ih =>
    rw [run_append]
    exact inv_step model ih input

end TargetTrace

/-- A tracked target was set when there was none and has been confirmed, or it has taken the place of a tracked
    target of lower priority, or it was set after the gimbal had turned to the armor of another camera. -/
theorem tracking_confirmed (cfg : TrackerConfig) (model : TargetModel β τ) (target : Target τ) (now : ℤ)
    (inputs : List (TrackerInput β)) (tr : TargetTrace τ)
    (hrun : tr = TargetTrace.run cfg model (Tracker.init cfg target now) inputs) (htracking : tr.tracker.state = .tracking) :
    tr.reason = some .lost ∧ tr.Confirmed cfg ∨
    tr.reason = some .higherPriority ∧ tr.replaced.state = .tracking ∧
      tr.tracker.target.priority < tr.replaced.target.priority ∨
    tr.reason = some .switched := by
  have hinv : tr.Inv cfg := by
    rw [hrun]
    exact TargetTrace.inv_run cfg model rfl inputs
  cases hreason : tr.reason with
  | none => exact absurd hreason (hinv.known (by rw [htracking]; decide))
  | some reason =>
    cases reason with
    | lost => exact .inl ⟨rfl, hinv.confirmed hreason (hinv.entered (.inl htracking))⟩
    | higherPriority => exact .inr (.inl ⟨rfl, hinv.higher hreason⟩)
    | switched => exact .inr (.inr rfl)

/-! ### Targets that are not confirmed -/

/-- A tracker whose targets never diverge and converge at once. -/
def steadyModel : TargetModel Unit Unit where
  centerDistance _ := 0
  init _ _ _ := ()
  predict _ _ := ()
  update _ _ := ()
  diverged _ := false
  convergened _ := (true, ())
  badConverge _ := false

def steadyConfig : TrackerConfig :=
  { enemyColor := .red, minDetectCount := 5, maxTempLostCount := 15, outpostMaxTempLostCount := 75 }

def steadyTracker : Tracker Unit := .init steadyConfig ⟨.one, .small, .fifth, ()⟩ 0

def plate (priority : ArmorPriority) : Armor Unit := ⟨.red, .small, .one, priority, ()⟩

/-- A frame at time 0. -/
def still (armors : List (Armor Unit)) : Frame Unit := { armors, t := 0, solve := fun _ => () }

/-- A target of the second priority is confirmed, and then an armor of the first comes in sight. -/
def replacedTarget : List (TrackerInput Unit) :=
  List.replicate 5 (.trackQueue [] (still [plate .second])) ++ [.trackQueue [] (still [plate .first])]

/-- A target of the second priority is confirmed, and the gimbal turns to an armor of another camera. -/
def switchedTarget : List (TrackerInput Unit) :=
  List.replicate 5 (.trackQueue [] (still [plate .second])) ++
    [.trackQueue [⟨[plate .first], 0, 1, 0⟩] (still []), .trackQueue [] (still [plate .first]),
      .trackQueue [] (still [plate .first])]

/-- A target that takes the place of another is tracked with a single call, and so is one that was switched to. -/
theorem replaced_targets_not_confirmed :
    ((TargetTrace.run steadyConfig steadyModel steadyTracker replacedTarget).tracker.state = .tracking ∧
      ¬ (TargetTrace.run steadyConfig steadyModel steadyTracker replacedTarget).Confirmed steadyConfig) ∧
    (TargetTrace.run steadyConfig steadyModel steadyTracker switchedTarget).tracker.state = .tracking ∧
      ¬ (TargetTrace.run steadyConfig steadyModel steadyTracker switchedTarget).Confirmed steadyConfig := by
  have hcall : ∀ tr : TargetTrace Unit, tr.entered = some [true] → ¬ tr.Confirmed steadyConfig := by
    rintro tr hentered ⟨calls, hcalls, hmin, -⟩
    cases hentered.symm.trans hcalls
    exact absurd hmin (by decide)
  exact ⟨⟨by decide +kernel, hcall _ (by decide +kernel)⟩, by decide +kernel, hcall _ (by decide +kernel)⟩

theorem fifth_call_confirms :
    (TargetTrace.run steadyConfig steadyModel steadyTracker
      (List.replicate 5 (.track (still [plate .second])))).Confirmed steadyConfig := by
  rcases tracking_confirmed steadyConfig steadyModel ⟨.one, .small, .fifth, ()⟩ 0
      (List.replicate 5 (.track (still [plate .second]))) _ rfl (by decide +kernel) with h | h | h
  · exact h.2
  · exact absurd h.1 (by decide +kernel)
  · exact absurd h (by decide +kernel)

end SpVision
