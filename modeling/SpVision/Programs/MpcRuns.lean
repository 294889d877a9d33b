import SpVision.Library.Logs
import SpVision.Planner.Control
import SpVision.Programs.StandardMpc
import SpVision.Tracker.Covariance

set_option autoImplicit false

/-!
# Runs of `standard_mpc`

What a thread has got comes from what it read, which nothing that the others do can change. So a command can be traced
back through the log: to the plan, to the target that was pushed last when it was read, to what the tracker reported,
and to the referee's messages.
-/
namespace SpVision

open Logs

section Log

variable {K : Type}

def MpcEvent.pushed? : MpcEvent K → Option (Option (MpcTarget K))
  | .pushed target => some target
  | _ => none

def MpcEvent.received? : MpcEvent K → Option (UInt64 × List UInt8)
  | .received now data => some (now, data)
  | _ => none

/-- What the tracker is given. -/
def MpcEvent.seen : MpcEvent K → List (TrackerInput (SolvedArmor K))
  | .tracked _ color frame _ => [color.elim .resetEnemyColor .setEnemyColor, .track frame]
  | _ => []

def lastTarget (log : List (MpcEvent K)) : Option (MpcTarget K) := (log.filterMap MpcEvent.pushed?).getLast?.getD none

def received (log : List (MpcEvent K)) : List (UInt64 × List UInt8) := log.filterMap MpcEvent.received?

def seen (log : List (MpcEvent K)) : List (TrackerInput (SolvedArmor K)) := log.flatMap MpcEvent.seen

/-- Whether the plan thread has been joined. -/
def MainPhase.joined : MainPhase K → Bool
  | .sending last | .firing last => last
  | .ended => true
  | .looping | .mode | .frame | .pushing _ | .joining => false

def MainPhase.stopping : MainPhase K → Bool
  | .joining => true
  | phase => phase.joined

variable {log : List (MpcEvent K)} {e : MpcEvent K}

theorem lastTarget_concat (log : List (MpcEvent K)) (e : MpcEvent K) :
    lastTarget (log ++ [e]) = e.pushed?.getD (lastTarget log) := by
  unfold lastTarget
  rw [List.filterMap_append]
  cases he : e.pushed? <;> simp [he]

theorem received_concat (log : List (MpcEvent K)) (e : MpcEvent K) :
    received (log ++ [e]) = received log ++ e.received?.toList := by
  unfold received
  rw [List.filterMap_append]
  cases he : e.received? <;> simp [he]

theorem seen_concat (log : List (MpcEvent K)) (e : MpcEvent K) : seen (log ++ [e]) = seen log ++ e.seen := by
  unfold seen
  rw [List.flatMap_append, List.flatMap_singleton]

theorem pushed_of_lastTarget {target : MpcTarget K} (h : lastTarget log = some target) :
    .pushed (some target) ∈ log := by
  unfold lastTarget at h
  cases hlast : (log.filterMap MpcEvent.pushed?).getLast? with
  | none =>
    rw [hlast] at h
    cases h
  | some pushed =>
    rw [hlast, Option.getD_some] at h
    obtain ⟨e, hmem, he⟩ := List.mem_filterMap.mp (List.mem_of_getLast? hlast)
    cases e with
    | pushed target' =>
      obtain rfl := Option.some.inj he
      rwa [h] at hmem
    | _ => cases he

/-- Since then the thread has done nothing. -/
def SinceBy (who : MpcThread) : (List (MpcEvent K) → Prop) → List (MpcEvent K) → Prop := Since (·.thread ≠ who)

theorem SinceBy.mem {who : MpcThread} {held : List (MpcEvent K) → Prop} (h : SinceBy who held log)
    (hmem : ∀ past, held past → e ∈ past) : e ∈ log := by
  obtain ⟨past, rest, rfl, -, hheld⟩ := h
  exact List.mem_append_left _ (hmem past hheld)

end Log

section Model

variable {K : Type} [Field K] [LinearOrder K] [IsStrictOrderedRing K] [FloorRing K]

namespace Mpc

variable (config : MpcConfig K)

/-- What the link holds after what it received. -/
def linkOf (log : List (MpcEvent K)) : MpcLink K :=
  (received log).foldl (fun link frame => link.receive config.link frame.1 frame.2) (.init config.link)

/-- The tracker after what it was given. -/
def trackerOf (start : Tracker (TargetEstimate (TargetState K))) (log : List (MpcEvent K)) :
    Tracker (TargetEstimate (TargetState K)) :=
  start.run config.tracker config.targets (seen log)

/-! ### Where a command comes from -/

/-- The main loop has just had the tracker report the target, first of all, with the colour that the referee gave. -/
def Tracked (start : Tracker (TargetEstimate (TargetState K))) (target : Option (MpcTarget K)) :
    List (MpcEvent K) → Prop :=
  SinceBy .main fun past => ∃ before now frame, past = before ++ [.tracked now (color (linkOf config before) now) frame
      (track config (trackerOf config start before) (color (linkOf config before) now) frame).2.2] ∧
    target = (track config (trackerOf config start before) (color (linkOf config before) now) frame).2.2.head?

/-- The plan thread has just read the target, which was pushed last. -/
def Read (target : Option (MpcTarget K)) : List (MpcEvent K) → Prop :=
  SinceBy .plan fun past => ∃ before, past = before ++ [.read target] ∧ target = lastTarget before

/-- It has planned for it, at the speed that the link had. -/
def Planned (target : Option (MpcTarget K)) (plan : Plan K) : List (MpcEvent K) → Prop :=
  SinceBy .plan fun past => ∃ before now, past = before ++ [.planned now] ∧ Read target before ∧
    ∃ planner planner' unset, Planner.Reached config.math config.planner planner ∧
      planner.planOptional config.math unset now.toNat (target.map Target.forPlanner)
        (linkOf config before).bulletSpeed = some (plan, planner')

/-- It has asked the referee. -/
def Checked (target : Option (MpcTarget K)) (plan : Plan K) : List (MpcEvent K) → Prop :=
  SinceBy .plan fun past => ∃ before now plan₀, past = before ++ [.checked now] ∧ Planned config target plan₀ before ∧
    plan = { plan₀ with fire := plan₀.fire && (RefereeView.fromIo (linkOf config before).dm02.referee).canFire now }

/-- It has sent the plan. -/
def Sent (target : Option (MpcTarget K)) (plan : Plan K) : List (MpcEvent K) → Prop :=
  SinceBy .plan fun past => ∃ before, past = before ++ [.sent .plan plan.toSend] ∧ Checked config target plan before

/-- The fire command is that of `Dm02::send` for what the link holds then. -/
def Fires (before : List (MpcEvent K)) (control fire : Bool) (call : SendCall) (cmd : Option FireCommand) : Prop :=
  call.control = control ∧ call.fire = fire ∧ cmd = dm02SendFire (linkOf config before).dm02.referee call

/-- What an event says about those before it. -/
def EventRight (start : Tracker (TargetEstimate (TargetState K))) (before : List (MpcEvent K)) : MpcEvent K → Prop
  | .pushed target => before = [] ∧ target = none ∨ Tracked config start target before
  | .sent .main send => send = .neutral K
  | .sent .plan send => ∃ target plan, send = plan.toSend ∧ Checked config target plan before
  | .fired .main call cmd => Fires config before false false call cmd
  | .fired .plan call cmd =>
    ∃ target plan, Sent config target plan before ∧ Fires config before plan.control plan.fire call cmd
  | .sent .link _ | .fired .link _ _ => False
  | .received _ _ | .mode _ | .tracked _ _ _ _ | .quit | .read _ | .planned _ | .checked _ => True

/-- What the plan thread has got. -/
def PhaseRight (log : List (MpcEvent K)) : PlanPhase K → Prop
  | .planning target => Read target log
  | .checking plan => ∃ target, Planned config target plan log
  | .sending plan => ∃ target, Checked config target plan log
  | .firing plan => ∃ target, Sent config target plan log
  | .looping | .queue | .mode | .front | .ended => True

/-- Since the program sent for the last time, only the link has done anything. -/
def SentNeutral : List (MpcEvent K) → Prop :=
  Since (·.thread = .link) fun past => ∃ before, past = before ++ [.sent .main (.neutral K)]

def Closed : List (MpcEvent K) → Prop :=
  Since (·.thread = .link) fun past => ∃ before call cmd, past = before ++ [.fired .main call cmd] ∧
    (∀ c ∈ cmd, c.fireOn ≠ 1) ∧ SentNeutral before

/-- What the main loop has got. -/
def MainRight (start : Tracker (TargetEstimate (TargetState K))) (log : List (MpcEvent K)) : MainPhase K → Prop
  | .pushing target => Tracked config start target log
  | .firing true => SentNeutral log
  | .ended => Closed log
  | .looping | .mode | .frame | .sending _ | .firing false | .joining => True

/-! ### What a step does -/

inductive PlanDoes (x : Mpc K) : Mpc K → Prop
  | leave (h : x.plan = .looping) (hquit : x.quit = true) : PlanDoes x { x with plan := .ended }
  | enter (h : x.plan = .looping) (hquit : x.quit = false) : PlanDoes x { x with plan := .queue }
  | look (h : x.plan = .queue) : PlanDoes x { x with plan := .mode }
  | turn (h : x.plan = .queue ∨ x.plan = .mode) : PlanDoes x { x with plan := .looping }
  | allow (h : x.plan = .mode) (hmode : x.mode = .autoAim) : PlanDoes x { x with plan := .front }
  | await (h : x.plan = .front) (hempty : x.queue.queue = []) :
    PlanDoes x { x with queue := x.queue.step targetQueue .front, plan := .front }
  | read {target : Option (MpcTarget K)} {rest : List (Option (MpcTarget K))} (h : x.plan = .front)
    (hqueue : x.queue.queue = target :: rest) :
    PlanDoes x { x with plan := .planning target, log := x.log ++ [.read target] }
  | plan {target : Option (MpcTarget K)} {plan : Plan K} {planner : Planner K} (o : MpcInput K)
    (h : x.plan = .planning target)
    (hplan : x.planner.planOptional config.math o.unset o.now.toNat (target.map Target.forPlanner)
      x.link.bulletSpeed = some (plan, planner)) :
    PlanDoes x { x with planner, plan := .checking plan, log := x.log ++ [.planned o.now] }
  | check {plan : Plan K} (o : MpcInput K) (h : x.plan = .checking plan) :
    PlanDoes x { x with
      plan := .sending { plan with fire := plan.fire && (RefereeView.fromIo x.link.dm02.referee).canFire o.now }
      log := x.log ++ [.checked o.now] }
  | send {plan : Plan K} (h : x.plan = .sending plan) :
    PlanDoes x { x with plan := .firing plan, log := x.log ++ [.sent .plan plan.toSend] }
  | fire {plan : Plan K} (o : MpcInput K) (h : x.plan = .firing plan) :
    PlanDoes x { x with
      plan := .looping, log := x.log ++ [x.fireEvent .plan plan.control plan.fire o] }
  | rest (h : x.plan = .ended) : PlanDoes x x

inductive MainDoes (x : Mpc K) : Mpc K → Prop
  | quit (h : x.main = .looping) :
    MainDoes x { x with quit := true, main := .joining, log := x.log ++ [.quit] }
  | enter (h : x.main = .looping) : MainDoes x { x with main := .mode }
  | mode (h : x.main = .mode) :
    MainDoes x { x with mode := x.link.mode, main := .frame, log := x.log ++ [.mode x.link.mode] }
  | track (now : UInt64) (frame : Frame (SolvedArmor K)) (h : x.main = .frame) :
    MainDoes x { x with
      tracker := (Mpc.track config x.tracker (color x.link now) frame).1
      main := .pushing (Mpc.track config x.tracker (color x.link now) frame).2.2.head?
      log := x.log ++ [.tracked now (color x.link now) frame
        (Mpc.track config x.tracker (color x.link now) frame).2.2] }
  | skip (h : x.main = .frame) : MainDoes x { x with main := .sending false }
  | push {target : Option (MpcTarget K)} (h : x.main = .pushing target) :
    MainDoes x { x with
      queue := x.queue.push targetQueue target, main := .looping, log := x.log ++ [.pushed target] }
  | send {last : Bool} (h : x.main = .sending last) :
    MainDoes x { x with main := .firing last, log := x.log ++ [.sent .main (.neutral K)] }
  | fire {last : Bool} (o : MpcInput K) (h : x.main = .firing last) :
    MainDoes x { x with
      main := if last then .ended else .looping, log := x.log ++ [x.fireEvent .main false false o] }
  | join (h : x.main = .joining) (hplan : x.plan = .ended) : MainDoes x { x with main := .sending true }
  | wait (h : x.main = .joining) (hplan : x.plan ≠ .ended) : MainDoes x x
  | rest (h : x.main = .ended) : MainDoes x x

variable {config} {x y : Mpc K} {o : MpcInput K}

theorem planStep_does (h : x.planStep config o = some y) : PlanDoes config x y := by
  unfold planStep at h
  cases hphase : x.plan with
  | looping =>
    rw [hphase] at h
    obtain rfl := Option.some.inj h
    split_ifs with hquit
    · exact .leave hphase hquit
    · exact .enter hphase (Bool.eq_false_iff.mpr hquit)
  | queue =>
    rw [hphase] at h
    obtain rfl := Option.some.inj h
    cases x.queue.queue.isEmpty with
    | false => exact .look hphase
    | true => exact .turn (.inl hphase)
  | mode =>
    rw [hphase] at h
    obtain rfl := Option.some.inj h
    split_ifs with hmode
    · exact .allow hphase hmode
    · exact .turn (.inr hphase)
  | front =>
    rw [hphase] at h
    dsimp only at h
    cases hqueue : x.queue.queue with
    | nil =>
      rw [hqueue] at h
      obtain rfl := Option.some.inj h
      exact .await hphase hqueue
    | cons target rest =>
      rw [hqueue] at h
      obtain rfl := Option.some.inj h
      exact .read hphase hqueue
  | planning target =>
    rw [hphase] at h
    obtain ⟨⟨plan, planner⟩, hplan, rfl⟩ := Option.map_eq_some_iff.mp h
    exact .plan o hphase hplan
  | checking plan =>
    rw [hphase] at h
    obtain rfl := Option.some.inj h
    exact .check o hphase
  | sending plan =>
    rw [hphase] at h
    obtain rfl := Option.some.inj h
    exact .send hphase
  | firing plan =>
    rw [hphase] at h
    obtain rfl := Option.some.inj h
    exact .fire o hphase
  | ended =>
    rw [hphase] at h
    obtain rfl := Option.some.inj h
    exact .rest hphase

omit [LinearOrder K] [IsStrictOrderedRing K] [FloorRing K] in
theorem mainStep_does (x : Mpc K) (o : MpcInput K) : MainDoes config x (x.mainStep config o) := by
  unfold mainStep
  cases hphase : x.main with
  | looping =>
    dsimp only
    split_ifs
    · exact .quit hphase
    · exact .enter hphase
  | mode => exact .mode hphase
  | frame =>
    dsimp only
    split_ifs
    · exact .track o.now { armors := o.armors, t := o.t, solve := o.solve } hphase
    · exact .skip hphase
  | pushing target => exact .push hphase
  | sending last => exact .send hphase
  | firing last => exact .fire o hphase
  | joining =>
    dsimp only
    split
    · next hplan => exact .join hphase hplan
    · next hplan => exact .wait hphase hplan
  | ended => exact .rest hphase

/-! ### What every run keeps -/

omit [LinearOrder K] [IsStrictOrderedRing K] [FloorRing K] in
theorem linkOf_concat (log : List (MpcEvent K)) (e : MpcEvent K) : linkOf config (log ++ [e]) =
    e.received?.toList.foldl (fun link frame => link.receive config.link frame.1 frame.2) (linkOf config log) := by
  rw [linkOf, received_concat, List.foldl_append, linkOf]

omit [Field K] [LinearOrder K] [IsStrictOrderedRing K] [FloorRing K] in
theorem trackerOf_concat (start : Tracker (TargetEstimate (TargetState K))) (log : List (MpcEvent K)) (e : MpcEvent K) :
    trackerOf config start (log ++ [e]) = (trackerOf config start log).run config.tracker config.targets e.seen := by
  rw [trackerOf, seen_concat, Tracker.run_append, trackerOf]

theorem PhaseRight.concat {log : List (MpcEvent K)} {phase : PlanPhase K} (h : PhaseRight config log phase)
    {e : MpcEvent K} (he : e.thread ≠ .plan) : PhaseRight config (log ++ [e]) phase := by
  cases phase with
  | planning target => exact Since.concat h he
  | checking plan => exact h.imp fun _ hplanned => Since.concat hplanned he
  | sending plan => exact h.imp fun _ hchecked => Since.concat hchecked he
  | firing plan => exact h.imp fun _ hsent => Since.concat hsent he
  | _ => trivial

omit [LinearOrder K] [IsStrictOrderedRing K] [FloorRing K] in
theorem MainRight.concat {start : Tracker (TargetEstimate (TargetState K))} {log : List (MpcEvent K)}
    {phase : MainPhase K} (h : MainRight config start log phase) {e : MpcEvent K} (hmain : e.thread ≠ .main)
    (he : phase.joined = true → e.thread = .link) : MainRight config start (log ++ [e]) phase := by
  cases phase with
  | pushing target => exact Since.concat h hmain
  | firing last =>
    cases last with
    | false => trivial
    | true => exact Since.concat h (he rfl)
  | ended => exact Since.concat h (he rfl)
  | _ => trivial

/-- What holds in every state of a run. -/
structure Inv (config : MpcConfig K) (start : Tracker (TargetEstimate (TargetState K))) (x : Mpc K) : Prop where
  queue : x.queue.queue = [lastTarget x.log]
  awake : x.queue.asleep = 0
  link : x.link = linkOf config x.log
  planner : Planner.Reached config.math config.planner x.planner
  tracker : x.tracker = trackerOf config start x.log
  stopping : x.quit = x.main.stopping
  joined : x.main.joined = true → x.plan = .ended
  main : MainRight config start x.log x.main
  plan : PhaseRight config x.log x.plan
  log : Logs.Right (EventRight config start) x.log

variable {start : Tracker (TargetEstimate (TargetState K))}

theorem init_inv (first : MpcTarget K) (now : ℤ) :
    Inv config (.init config.tracker first now) (init config first now) where
  queue := rfl
  awake := rfl
  link := rfl
  planner := .init
  tracker := rfl
  stopping := rfl
  joined := nofun
  main := trivial
  plan := trivial
  log := right_nil.concat (.inl ⟨rfl, rfl⟩)

theorem Inv.planQuiet (h : Inv config start x) (hplan : x.plan ≠ .ended) {phase : PlanPhase K}
    (hphase : PhaseRight config x.log phase) : Inv config start { x with plan := phase } :=
  { h with joined := fun hjoined => absurd (h.joined hjoined) hplan, plan := hphase }

theorem Inv.planEvent (h : Inv config start x) (hplan : x.plan ≠ .ended) {planner : Planner K}
    (hplanner : Planner.Reached config.math config.planner planner) (e : MpcEvent K) (hthread : e.thread = .plan)
    (hright : EventRight config start x.log e) {phase : PlanPhase K} (hphase : PhaseRight config (x.log ++ [e]) phase) :
    Inv config start { x with planner, plan := phase, log := x.log ++ [e] } := by
  have hseen : e.seen = [] := by
    cases e <;> first | rfl | cases hthread
  have hreceived : e.received? = none := by
    cases e <;> first | rfl | cases hthread
  have hpushed : e.pushed? = none := by
    cases e <;> first | rfl | cases hthread
  have hjoined : x.main.joined ≠ true := fun hjoined => hplan (h.joined hjoined)
  refine { h with
    queue := ?_
    link := ?_
    tracker := ?_
    planner := hplanner
    joined := fun hjoin => absurd hjoin hjoined
    main := h.main.concat (by simp [hthread]) fun hjoin => absurd hjoin hjoined
    plan := hphase
    log := h.log.concat hright }
  · rw [h.queue, lastTarget_concat, hpushed, Option.getD_none]
  · rw [h.link, linkOf_concat, hreceived]
    rfl
  · rw [h.tracker, trackerOf_concat, hseen]
    rfl

theorem reached_planOptional {planner planner' : Planner K} (h : Planner.Reached config.math config.planner planner)
    {unset : (K × K × K) × K} {now : ℤ} {target : Option (PlannerTarget K)} {bulletSpeed : K} {plan : Plan K}
    (hplan : planner.planOptional config.math unset now target bulletSpeed = some (plan, planner')) :
    Planner.Reached config.math config.planner planner' := by
  cases target with
  | none =>
    obtain ⟨-, rfl⟩ := Prod.mk.inj (Option.some.inj hplan)
    exact h
  | some target => exact .plan unset _ bulletSpeed h hplan

theorem Inv.planDoes (h : Inv config start x) (hdoes : PlanDoes config x y) : Inv config start y := by
  have hlink := h.link
  have hphase := h.plan
  cases hdoes with
  | leave hplan hquit => exact { h with joined := fun _ => rfl, plan := trivial }
  | enter hplan hquit => exact h.planQuiet (by simp [hplan]) trivial
  | look hplan => exact h.planQuiet (by simp [hplan]) trivial
  | turn hplan => exact h.planQuiet (by rcases hplan with hplan | hplan <;> simp [hplan]) trivial
  | allow hplan hmode => exact h.planQuiet (by simp [hplan]) trivial
  | await hplan hempty => exact absurd (h.queue.symm.trans hempty) (by simp)
  | read hplan hqueue =>
    obtain ⟨rfl, -⟩ := List.cons.inj (h.queue.symm.trans hqueue)
    exact h.planEvent (by simp [hplan]) h.planner (.read _) rfl trivial (Since.now ⟨_, rfl, rfl⟩)
  | plan o hplan hplanned =>
    rw [hplan] at hphase
    rw [hlink] at hplanned
    exact h.planEvent (by simp [hplan]) (reached_planOptional h.planner hplanned) (.planned _) rfl trivial
      ⟨_, Since.now ⟨_, _, rfl, hphase, _, _, _, h.planner, hplanned⟩⟩
  | check o hplan =>
    rw [hplan] at hphase
    obtain ⟨target, hplanned⟩ := hphase
    refine h.planEvent (by simp [hplan]) h.planner (.checked _) rfl trivial
      ⟨target, Since.now ⟨_, o.now, _, rfl, hplanned, ?_⟩⟩
    rw [← hlink]
  | send hplan =>
    rw [hplan] at hphase
    obtain ⟨target, hchecked⟩ := hphase
    exact h.planEvent (by simp [hplan]) h.planner (.sent .plan _) rfl ⟨target, _, rfl, hchecked⟩
      ⟨target, Since.now ⟨_, rfl, hchecked⟩⟩
  | fire o hplan =>
    rw [hplan] at hphase
    obtain ⟨target, hsent⟩ := hphase
    refine h.planEvent (by simp [hplan]) h.planner (x.fireEvent .plan _ _ o) rfl ⟨target, _, hsent, rfl, rfl, ?_⟩ trivial
    rw [← hlink]
  | rest hplan => exact h

omit [Field K] [LinearOrder K] [IsStrictOrderedRing K] [FloorRing K] in
theorem queue_push {q : SafeQueue (Option (MpcTarget K))} {last : Option (MpcTarget K)} (h : q.queue = [last])
    (target : Option (MpcTarget K)) :
    (q.push targetQueue target).queue = [target] ∧ (q.push targetQueue target).asleep = 0 := by
  have hfull : q.queue.length ≥ targetQueue.maxSize := by
    rw [h]
    exact le_rfl
  unfold SafeQueue.push
  dsimp only
  have hpops : targetQueue.popWhenFull = true := rfl
  rw [if_pos hfull, if_pos hpops, h]
  exact ⟨rfl, rfl⟩

theorem Inv.mainQuiet (h : Inv config start x) {phase : MainPhase K} (hstopping : x.main.stopping = phase.stopping)
    (hjoined : phase.joined = true → x.plan = .ended) (hphase : MainRight config start x.log phase) :
    Inv config start { x with main := phase } :=
  { h with stopping := h.stopping.trans hstopping, joined := hjoined, main := hphase }

theorem Inv.mainEvent (h : Inv config start x) (e : MpcEvent K) (hthread : e.thread = .main) (hpushed : e.pushed? = none)
    (hright : EventRight config start x.log e) {phase : MainPhase K} {mode : GimbalMode} {quit : Bool}
    {tracker : Tracker (TargetEstimate (TargetState K))}
    (htracker : tracker = x.tracker.run config.tracker config.targets e.seen) (hquit : quit = phase.stopping)
    (hjoined : phase.joined = true → x.plan = .ended) (hphase : MainRight config start (x.log ++ [e]) phase) :
    Inv config start { x with mode, quit, tracker, main := phase, log := x.log ++ [e] } := by
  have hreceived : e.received? = none := by
    cases e <;> first | rfl | cases hthread
  refine { h with
    queue := ?_
    link := ?_
    tracker := ?_
    stopping := hquit
    joined := hjoined
    main := hphase
    plan := h.plan.concat (by simp [hthread])
    log := h.log.concat hright }
  · rw [h.queue, lastTarget_concat, hpushed, Option.getD_none]
  · rw [h.link, linkOf_concat, hreceived]
    rfl
  · rw [htracker, h.tracker, trackerOf_concat]

omit [Field K] [LinearOrder K] [IsStrictOrderedRing K] [FloorRing K] in
theorem track_eq (tracker : Tracker (TargetEstimate (TargetState K))) (now : UInt64) (color : Option Color)
    (frame : Frame (SolvedArmor K)) (targets : List (MpcTarget K)) : (track config tracker color frame).1 =
      tracker.run config.tracker config.targets (MpcEvent.seen (.tracked now color frame targets)) := by
  cases color <;> rfl

theorem Inv.mainDoes (h : Inv config start x) (hdoes : MainDoes config x y) :
    Inv config start y := by
  have hphase := h.main
  have hstopping := h.stopping
  cases hdoes with
  | quit hmain => exact h.mainEvent .quit rfl rfl trivial rfl rfl nofun trivial
  | enter hmain => exact h.mainQuiet (by rw [hmain]; rfl) nofun trivial
  | mode hmain =>
    rw [hmain] at hstopping
    exact h.mainEvent (.mode _) rfl rfl trivial rfl hstopping nofun trivial
  | track now frame hmain =>
    rw [hmain] at hstopping
    refine h.mainEvent (.tracked now _ frame _) rfl rfl trivial (track_eq _ now _ frame _) hstopping nofun ?_
    rw [h.link, h.tracker]
    exact Since.now ⟨x.log, now, frame, rfl, rfl⟩
  | skip hmain => exact h.mainQuiet (by rw [hmain]; rfl) nofun trivial
  | push hmain =>
    rw [hmain] at hphase hstopping
    obtain ⟨hqueue, hawake⟩ := queue_push h.queue _
    refine { h with
      queue := ?_
      awake := hawake
      link := h.link.trans (linkOf_concat x.log (.pushed _)).symm
      tracker := h.tracker.trans (trackerOf_concat start x.log (.pushed _)).symm
      stopping := hstopping
      joined := nofun
      main := trivial
      plan := h.plan.concat nofun
      log := h.log.concat (.inr hphase) }
    rw [hqueue, lastTarget_concat]
    rfl
  | @send last hmain =>
    rw [hmain] at hstopping
    refine h.mainEvent (.sent .main _) rfl rfl rfl rfl hstopping (fun hjoined => h.joined ?_) ?_
    · rw [hmain]
      exact hjoined
    · cases last with
      | false => trivial
      | true => exact Since.now ⟨_, rfl⟩
  | @fire last o hmain =>
    rw [hmain] at hphase hstopping
    have hright : EventRight config start x.log (x.fireEvent .main false false o) := by
      refine ⟨rfl, rfl, ?_⟩
      rw [← h.link]
    cases last with
    | false => exact h.mainEvent (x.fireEvent .main false false o) rfl rfl hright rfl hstopping nofun trivial
    | true =>
      have hjoined : x.plan = .ended := h.joined (by rw [hmain]; rfl)
      refine h.mainEvent (x.fireEvent .main false false o) rfl rfl hright rfl hstopping (fun _ => hjoined)
        (Since.now ⟨_, _, _, rfl, fun c hc hfire => ?_, hphase⟩)
      have hcontrol := ((dm02SendFire_fireOn hc).mp hfire).1
      cases hcontrol
  | join hmain hplan => exact h.mainQuiet (by rw [hmain]; rfl) (fun _ => hplan) trivial
  | wait hmain hplan => exact h
  | rest hmain => exact h

theorem Inv.step (h : Inv config start x) {move : MpcMove K}
    (hstep : x.step? config move = some y) : Inv config start y := by
  cases move with
  | link now data =>
    obtain rfl := Option.some.inj hstep
    refine { h with
      queue := ?_
      link := ?_
      tracker := h.tracker.trans (trackerOf_concat start x.log (.received now data)).symm
      main := h.main.concat nofun fun _ => rfl
      plan := h.plan.concat nofun
      log := h.log.concat trivial }
    · rw [h.queue, lastTarget_concat]
      rfl
    · rw [h.link, linkOf_concat]
      rfl
  | main o =>
    obtain rfl := Option.some.inj hstep
    exact h.mainDoes (mainStep_does x o)
  | plan o => exact h.planDoes (planStep_does hstep)

theorem Inv.run (h : Inv config start x) {moves : List (MpcMove K)}
    (hrun : run? config x moves = some y) : Inv config start y := by
  induction moves generalizing x with
  | nil =>
    obtain rfl := Option.some.inj hrun
    exact h
  | cons move moves ih =>
    obtain ⟨next, hstep, hrest⟩ := Option.bind_eq_some_iff.mp hrun
    exact ih (h.step hstep) hrest

/-! ### Where a shot comes from -/

variable {log : List (MpcEvent K)} {target : MpcTarget K} {plan : Plan K}

theorem Planned.pushed (h : Planned config (some target) plan log) : .pushed (some target) ∈ log := by
  refine SinceBy.mem h fun past hplanned => ?_
  obtain ⟨before, now, rfl, hread, -⟩ := hplanned
  refine List.mem_append_left _ (SinceBy.mem hread fun past' hlast => ?_)
  obtain ⟨before', rfl, hlast⟩ := hlast
  exact List.mem_append_left _ (pushed_of_lastTarget hlast.symm)

theorem Checked.pushed (h : Checked config (some target) plan log) : .pushed (some target) ∈ log := by
  refine SinceBy.mem h fun past hchecked => ?_
  obtain ⟨before, now, plan₀, rfl, hplanned, -⟩ := hchecked
  exact List.mem_append_left _ hplanned.pushed

theorem Sent.pushed (h : Sent config (some target) plan log) : .pushed (some target) ∈ log := by
  refine SinceBy.mem h fun past hsent => ?_
  obtain ⟨before, rfl, hchecked⟩ := hsent
  exact List.mem_append_left _ hchecked.pushed

/-- Without a target there is no control. -/
theorem Checked.exists_target {target : Option (MpcTarget K)} (h : Checked config target plan log)
    (hcontrol : plan.control = true) : ∃ t, target = some t := by
  cases target with
  | some t => exact ⟨t, rfl⟩
  | none =>
    obtain ⟨past, rest, -, -, before, now, plan₀, -,
      ⟨past', rest', -, -, before', now', -, -, planner, planner', unset, -, hplan⟩, rfl⟩ := h
    obtain ⟨rfl, -⟩ := Prod.mk.inj (Option.some.inj hplan)
    cases hcontrol

theorem Sent.exists_target {target : Option (MpcTarget K)} (h : Sent config target plan log)
    (hcontrol : plan.control = true) : ∃ t, target = some t := by
  obtain ⟨past, rest, -, -, before, -, hchecked⟩ := h
  exact hchecked.exists_target hcontrol

def refereeInputs (log : List (MpcEvent K)) : List Dm02Input := (received log).map fun frame => .muxFrame frame.1 frame.2

/-- The latest message of the referee is recent at the time `now`, and allows a shot. -/
def Allowed (config : MpcConfig K) (now : UInt64) (log : List (MpcEvent K)) : Prop :=
  ∃ r, latestReferee config.link.driver config.link.deltaAck (refereeInputs log) = some r ∧
    (r.Allows now ∨ r.ZeroStatus now)

omit [LinearOrder K] [IsStrictOrderedRing K] [FloorRing K] in
theorem receive_dm02 (link : MpcLink K) (now : UInt64) (data : List UInt8) :
    (link.receive config.link now data).dm02 =
      link.dm02.step config.link.driver config.link.deltaAck (.muxFrame now data) := by
  unfold MpcLink.receive
  dsimp only
  split <;> rfl

omit [LinearOrder K] [IsStrictOrderedRing K] [FloorRing K] in
theorem linkOf_dm02 (log : List (MpcEvent K)) :
    (linkOf config log).dm02 = Dm02.run config.link.driver config.link.deltaAck {} (refereeInputs log) := by
  unfold linkOf refereeInputs
  induction received log using List.reverseRecOn with
  | nil => rfl
  | append_singleton frames frame ih =>
    rw [List.map_append, List.foldl_append, Dm02.run, List.foldl_append]
    exact (receive_dm02 _ frame.1 frame.2).trans
      (congrArg (Dm02.step config.link.driver config.link.deltaAck · (.muxFrame frame.1 frame.2)) ih)

omit [LinearOrder K] [IsStrictOrderedRing K] [FloorRing K] in
theorem allowed_of_canFire {now : UInt64} (h : refereeCanFire (linkOf config log).dm02.referee now = true) :
    Allowed config now log := by
  rw [linkOf_dm02, Dm02.run_referee] at h
  cases hlatest : latestReferee config.link.driver config.link.deltaAck (refereeInputs log) with
  | none =>
    rw [hlatest] at h
    cases ((refereeCanFire_iff _ _).mp h).1
  | some r =>
    rw [hlatest] at h
    exact ⟨r, hlatest, ((refereeCanFire_parsed r now).mp h).imp_left And.right⟩

/-- The program asks the referee as the link does. -/
theorem canFire_fromIo (rs : LinkReferee) (now : UInt64) :
    (RefereeView.fromIo rs).canFire now = refereeCanFire rs now := by
  unfold RefereeView.canFire RefereeView.isFresh RefereeView.fromIo refereeCanFire
  dsimp only
  split_ifs <;> simp_all

/-- When the plan was checked the referee allowed a shot, and since then the thread has sent it. -/
theorem Sent.allowed {target : Option (MpcTarget K)} (h : Sent config target plan log) (hfire : plan.fire = true) :
    SinceBy .plan (fun past => ∃ before, past = before ++ [.sent .plan plan.toSend] ∧
      SinceBy .plan (fun past' => ∃ earlier now, past' = earlier ++ [.checked now] ∧ Allowed config now earlier)
        before) log := by
  refine Since.imp h fun past hsent => ?_
  obtain ⟨before, hpast, hchecked⟩ := hsent
  refine ⟨before, hpast, Since.imp hchecked fun past' hcheck => ?_⟩
  obtain ⟨earlier, now, plan₀, hpast', -, rfl⟩ := hcheck
  have hcan := (Bool.and_eq_true_iff.mp hfire).2
  rw [canFire_fromIo] at hcan
  exact ⟨earlier, now, hpast', allowed_of_canFire hcan⟩

/-- A shot is that of a plan with control which asks for it, and the referee allows it then. -/
theorem EventRight.shot {who : MpcThread} {call : SendCall} {cmd : FireCommand}
    (h : EventRight config start log (.fired who call (some cmd))) (hfire : cmd.fireOn = 1) :
    who = .plan ∧ Allowed config call.now log ∧ ∃ target plan, plan.control = true ∧ plan.fire = true ∧
      Sent config (some target) plan log := by
  cases who with
  | link => exact h.elim
  | main =>
    obtain ⟨hcontrol, -, hcmd⟩ := h
    have hasked := ((dm02SendFire_fireOn hcmd.symm).mp hfire).1
    rw [hcontrol] at hasked
    cases hasked
  | plan =>
    obtain ⟨target, plan, hsent, hcontrol, hasked, hcmd⟩ := h
    obtain ⟨hcontrol', hasked', hcan⟩ := (dm02SendFire_fireOn hcmd.symm).mp hfire
    rw [hcontrol] at hcontrol'
    rw [hasked] at hasked'
    obtain ⟨t, rfl⟩ := hsent.exists_target hcontrol'
    exact ⟨rfl, allowed_of_canFire hcan, t, plan, hcontrol', hasked', hsent⟩

/-- It was pushed when the tracker had just reported it, first of all. -/
def Came (config : MpcConfig K) (start : Tracker (TargetEstimate (TargetState K))) (target : MpcTarget K)
    (log : List (MpcEvent K)) : Prop :=
  ∃ before after, log = before ++ .pushed (some target) :: after ∧ Tracked config start (some target) before

theorem Inv.came (h : Inv config start x) {before after : List (MpcEvent K)} (hlog : x.log = before ++ after)
    (hpushed : .pushed (some target) ∈ before) : Came config start target before := by
  obtain ⟨earlier, rest, rfl⟩ := List.append_of_mem hpushed
  rw [List.append_assoc, List.cons_append] at hlog
  obtain ⟨-, hnone⟩ | htracked := h.log earlier _ _ hlog
  · cases hnone
  · exact ⟨earlier, rest, rfl, htracked⟩

omit [LinearOrder K] [IsStrictOrderedRing K] [FloorRing K] in
theorem Tracked.reported {good : MpcTarget K → Prop} (hkeeps : config.targets.Keeps good)
    (hstart : Tracker.Held good start) (h : Tracked config start (some target) log) :
    good target ∧ config.targets.diverged target = false ∧ config.targets.badConverge target = false := by
  obtain ⟨past, -, -, -, before, now, frame, -, hhead⟩ := h
  have hheld : Tracker.Held good (setColor config (trackerOf config start before) (color (linkOf config before) now)) := by
    have hbefore := hstart.run config.tracker hkeeps (seen before)
    unfold setColor
    split <;> exact hbefore
  obtain ⟨hgood, hdiverged, hbad⟩ :=
    (hheld.step config.tracker hkeeps (.track frame)).2 target (List.mem_of_head? hhead.symm)
  exact ⟨hgood, hdiverged, hbad ⟨_, rfl⟩⟩

end Mpc

end Model

namespace Mpc

open TargetState

/-- What a target that the planner is given satisfies, unless it is a balance infantry's. -/
def SoundTarget (target : MpcTarget ℝ) : Prop :=
  ¬ IsBalance target.armorType target.name →
    target.estimate.ekf.filter.P.PosSemidef ∧
      (0.05 < target.estimate.ekf.ekfX 8 ∧ target.estimate.ekf.ekfX 8 < 0.5) ∧
      0.05 < target.estimate.ekf.ekfX 8 + target.estimate.ekf.ekfX 9 ∧
      target.estimate.ekf.ekfX 8 + target.estimate.ekf.ekfX 9 < 0.5

variable (inverse : {n : ℕ} → Matrix (Fin n) (Fin n) ℝ → Matrix (Fin n) (Fin n) ℝ) (sort : ComparisonSort)
  (astray : MpcTarget ℝ → Armor (SolvedArmor ℝ) → TargetEstimate (TargetState ℝ))

theorem Came.soundTarget {config : MpcConfig ℝ} (htargets : config.targets = targetModel realFilterMath inverse sort astray)
    {first target : MpcTarget ℝ} {now : ℤ} {log : List (MpcEvent ℝ)}
    (h : Came config (.init config.tracker first now) target log) : SoundTarget target := by
  obtain ⟨before, after, -, htracked⟩ := h
  have hkeeps : config.targets.Keeps TargetSound := by
    rw [htargets]
    exact targetModel_keeps inverse sort astray
  obtain ⟨hsound, hdiverged, -⟩ := htracked.reported hkeeps (.inl rfl)
  rw [htargets] at hdiverged
  exact fun hbalance => ⟨(hsound hbalance).2.covariance, not_diverged hdiverged⟩

/-- However the threads take turns. What the plan thread sends with control is the plan for the target that was pushed
    last when it was read, as the tracker had reported it. No other thread shoots, and a shot is that of such a plan
    that asks for it, allowed by the referee by what the clock showed when it was planned, and again by the latest
    message and the clock when it is fired. -/
theorem standardMpc_fires (config : MpcConfig ℝ)
    (htargets : config.targets = targetModel realFilterMath inverse sort astray) (first : MpcTarget ℝ) (now : ℤ)
    {moves : List (MpcMove ℝ)} {x : Mpc ℝ} (hrun : run? config (init config first now) moves = some x) :
    (∀ before send after, x.log = before ++ .sent .plan send :: after → send.control = true →
      ∃ target plan, send = plan.toSend ∧ Checked config (some target) plan before ∧
        Came config (.init config.tracker first now) target before ∧ SoundTarget target) ∧
    ∀ before who call cmd after, x.log = before ++ .fired who call (some cmd) :: after → cmd.fireOn = 1 →
      who = .plan ∧ Allowed config call.now before ∧ ∃ target plan, plan.control = true ∧ plan.fire = true ∧
        Sent config (some target) plan before ∧ Came config (.init config.tracker first now) target before ∧
        SoundTarget target ∧
        SinceBy .plan (fun past => ∃ earlier, past = earlier ++ [.sent .plan plan.toSend] ∧
          SinceBy .plan (fun past' => ∃ earliest checkedAt, past' = earliest ++ [.checked checkedAt] ∧
            Allowed config checkedAt earliest) earlier) before := by
  have hinv := (init_inv first now).run hrun
  constructor
  · intro before send after hlog hcontrol
    obtain ⟨target, plan, rfl, hchecked⟩ := hinv.log before _ after hlog
    obtain ⟨t, rfl⟩ := hchecked.exists_target hcontrol
    have hcame := hinv.came hlog hchecked.pushed
    exact ⟨t, plan, rfl, hchecked, hcame, hcame.soundTarget inverse sort astray htargets⟩
  · intro before who call cmd after hlog hfire
    obtain ⟨hwho, hallowed, target, plan, hcontrol, hasked, hsent⟩ :=
      EventRight.shot (hinv.log before _ after hlog) hfire
    have hcame := hinv.came hlog hsent.pushed
    exact ⟨hwho, hallowed, target, plan, hcontrol, hasked, hsent, hcame,
      hcame.soundTarget inverse sort astray htargets, hsent.allowed hasked⟩

/-! ### The target of a hero ahead, as the planner takes it -/

open Planner Trajectory Ballistics

theorem seenTarget_predict (dt : ℝ) :
    (seenTarget.forPlanner.predict dt).estimate.ekf = seenTarget.forPlanner.estimate.ekf.propagate dt := by
  have hname : decide (seenTarget.name = .outpost) = false := rfl
  change seenTarget.forPlanner.estimate.ekf.predict
    (seenTarget.forPlanner.convergened && seenTarget.name = .outpost) dt = _
  rw [hname, Bool.and_false, StateVector.predict, StateVector.clampSpin, if_neg (by simp)]

theorem seenTarget_ekf : seenTarget.forPlanner.estimate.ekf = seenState := seenTarget_x

theorem seenTarget_plate (dt : ℝ) (i : ℕ) :
    ∃ a : ℝ, (seenTarget.forPlanner.predict dt).estimate.ekf.hArmorXyz realMath.toTrig 4 i =
      (3.2 - 0.2 * Real.cos a, -(0.2 * Real.sin a), 0) := by
  rw [seenTarget_predict, seenTarget_ekf, seenState_propagate]
  exact ⟨_, seenState_plate i⟩

theorem seenTarget_distance (dt : ℝ) {q : (ℝ × ℝ × ℝ) × ℝ}
    (hq : q ∈ (seenTarget.forPlanner.predict dt).armorXyzaList realMath.toTrig) :
    0 < plateDistance realMath q ∧ plateDistance realMath q ^ 2 ∈ Set.Icc (9 : ℝ) 12 ∧ q.1.2.2 = 0 := by
  obtain ⟨i, -, hi⟩ := List.mem_map.mp hq
  obtain ⟨a, hplate⟩ := seenTarget_plate dt i
  have hxyz : q.1 = (3.2 - 0.2 * Real.cos a, -(0.2 * Real.sin a), 0) := by
    rw [← hi]
    exact hplate
  have hcos := Real.neg_one_le_cos a
  have hcos' := Real.cos_le_one a
  have hone := Real.sin_sq_add_cos_sq a
  have hnear : 9 ≤ (3.2 - 0.2 * Real.cos a) * (3.2 - 0.2 * Real.cos a) +
      -(0.2 * Real.sin a) * -(0.2 * Real.sin a) := by
    nlinarith
  have hdistance : plateDistance realMath q = Real.sqrt ((3.2 - 0.2 * Real.cos a) * (3.2 - 0.2 * Real.cos a) +
      -(0.2 * Real.sin a) * -(0.2 * Real.sin a)) := by
    unfold plateDistance
    rw [hxyz]
    rfl
  rw [hdistance]
  refine ⟨Real.sqrt_pos.mpr (by linarith), ?_, by rw [hxyz]⟩
  rw [Real.sq_sqrt (by linarith)]
  constructor <;> nlinarith

theorem seenTarget_inRange (dt : ℝ) :
    InRange ((seenTarget.forPlanner.predict dt).armorXyzaList realMath.toTrig) := by
  refine ⟨List.cons_ne_nil _ _, fun q hq => ?_⟩
  obtain ⟨hpos, hsq, -⟩ := seenTarget_distance dt hq
  refine ⟨hpos, ?_⟩
  nlinarith [hsq.2]

theorem seenTarget_reachable (unset : (ℝ × ℝ × ℝ) × ℝ) {v : ℝ} (hv : 10 ≤ v) (dt : ℝ) :
    Reachable unset v (seenTarget.forPlanner.predict dt) := by
  obtain ⟨⟨hmem, -⟩, -, hpos⟩ := nearestPlate_real unset (seenTarget_inRange dt)
  obtain ⟨-, hsq, hheight⟩ := seenTarget_distance dt hmem
  unfold Reachable Shot
  generalize (nearestPlate realMath unset
    ((seenTarget.forPlanner.predict dt).armorXyzaList realMath.toTrig)).2 = q at *
  rw [hheight]
  refine exists_hits g_pos (by linarith) hpos ?_
  have hdrop : drop (g ℝ) v (plateDistance realMath q) ≤ 1 := by
    unfold drop g
    rw [div_le_one (by nlinarith)]
    nlinarith [hsq.2]
  have hdrop' := drop_pos (v := v) g_pos (by linarith) hpos
  nlinarith [hsq.1]

/-- With a threshold that is loose enough the plan asks for a shot. -/
theorem exists_fire (planner : Planner ℝ) (unset : (ℝ × ℝ × ℝ) × ℝ) (now : ℤ) (target : PlannerTarget ℝ)
    (bulletSpeed : ℝ) (hrange : ∀ dt, InRange ((target.predict dt).armorXyzaList realMath.toTrig))
    (hreach : ∀ dt, Reachable unset (checkSpeed bulletSpeed) (target.predict dt)) :
    ∃ thresh p planner', planOptional realMath unset { planner with fireThresh := thresh } now (some target)
      bulletSpeed = some (p, planner') ∧ p.control = true ∧ p.fire = true := by
  obtain ⟨p, planner', hplan, hcontrol⟩ := exists_control planner unset now target bulletSpeed hrange hreach
  obtain ⟨flyTime, htime, haimed⟩ := (plan_control_iff planner _ bulletSpeed).mp ⟨p, planner', hplan, hcontrol⟩
  obtain ⟨⟨yaw0, traj⟩, ha⟩ := Option.ne_none_iff_exists'.mp haimed
  let yawMiss := reference yawRows traj 52 0 - (solveAxis planner.yawSolver (reference yawRows traj)).work.x 52 0
  let pitchMiss := reference pitchRows traj 52 0 -
    (solveAxis planner.pitchSolver (reference pitchRows traj)).work.x 52 0
  obtain ⟨thresh, hfire⟩ : ∃ thresh, (planAlong realMath { planner with fireThresh := thresh } yaw0 traj).1.fire = true :=
    ⟨realMath.sqrt (yawMiss * yawMiss + pitchMiss * pitchMiss) + 1, decide_eq_true (lt_add_one _)⟩
  exact ⟨thresh, (planAlong realMath { planner with fireThresh := thresh } yaw0 traj).1,
    (planAlong realMath { planner with fireThresh := thresh } yaw0 traj).2,
    plan_of_aimed { planner with fireThresh := thresh } _ bulletSpeed htime ha, rfl, hfire⟩

/-- The plan thread plans, the link receives, and the thread asks the referee, sends and fires. -/
def shootingMoves (o : MpcInput ℝ) (now : UInt64) (data : List UInt8) : List (MpcMove ℝ) :=
  .plan o :: .link now data :: List.replicate 3 (.plan o)

theorem run?_shootingMoves (config : MpcConfig ℝ) {o : MpcInput ℝ} (hopen : o.isOpen = true) {now : UInt64}
    {data : List UInt8} {x : Mpc ℝ} {target : Option (MpcTarget ℝ)} {plan : Plan ℝ} {planner : Planner ℝ}
    (hphase : x.plan = .planning target)
    (hplan : x.planner.planOptional config.math o.unset o.now.toNat (target.map Target.forPlanner) x.link.bulletSpeed =
      some (plan, planner)) (hcontrol : plan.control = true) (hfire : plan.fire = true)
    (hcan : refereeCanFire (x.link.receive config.link now data).dm02.referee o.now = true) :
    ∃ y before call cmd, run? config x (shootingMoves o now data) = some y ∧
      y.log = before ++ [.sent .plan plan.toSend, .fired .plan call (some cmd)] ∧ cmd.fireOn = 1 ∧
      y.plan = .looping ∧ y.main = x.main ∧ y.quit = x.quit := by
  have hstep : x.planStep config o =
      some { x with planner, plan := .checking plan, log := x.log ++ [.planned o.now] } := by
    unfold planStep
    rw [hphase]
    exact Option.map_eq_some_iff.mpr ⟨(plan, planner), hplan, rfl⟩
  set referee := (x.link.receive config.link now data).dm02.referee with hreferee
  have hshot : plan.fire && (RefereeView.fromIo referee).canFire o.now := by
    rw [canFire_fromIo, hfire, hcan]
    rfl
  have hchecked : { plan with fire := plan.fire && (RefereeView.fromIo referee).canFire o.now } = plan := by
    rw [hshot, ← hfire]
  have hrest (checked : Plan ℝ)
      (h : checked = { plan with fire := plan.fire && (RefereeView.fromIo referee).canFire o.now }) :
      run? config { x with planner, plan := .checking plan, log := x.log ++ [.planned o.now] }
        (.link now data :: List.replicate 3 (.plan o)) = some { x with
          planner
          link := x.link.receive config.link now data
          plan := .looping
          log := x.log ++ [.planned o.now] ++ [.received now data] ++ [.checked o.now] ++
            [.sent .plan checked.toSend] ++
            [fireEvent { x with link := x.link.receive config.link now data } .plan checked.control checked.fire o] } := by
    subst h
    rfl
  obtain ⟨cmd, hcmd⟩ : ∃ cmd, dm02SendFire referee ⟨plan.control, plan.fire, o.now, o.commandNow, o.isOpen⟩ = some cmd :=
    ⟨_, if_neg (not_not.mpr hopen)⟩
  refine ⟨_, x.log ++ [.planned o.now] ++ [.received now data] ++ [.checked o.now],
    ⟨plan.control, plan.fire, o.now, o.commandNow, o.isOpen⟩, cmd,
    Option.bind_eq_some_iff.mpr ⟨_, hstep, hrest plan hchecked.symm⟩, ?_,
    (dm02SendFire_fireOn hcmd).mpr ⟨hcontrol, hfire, hcan⟩, rfl, rfl, rfl⟩
  rw [← hcmd]
  exact List.append_assoc _ _ _

/-! ### A run with a shot -/

noncomputable def mpcConfig (fireThresh : ℝ) : MpcConfig ℝ where
  link := { driver := {}, deltaAck := false, mode := .autoAim, bulletSpeedDefault := 0 }
  tracker := ⟨.blue, 5, 15, 75⟩
  planner := { Planner.standardConfig with fireThresh }
  targets := seenModel
  math := Trajectory.realMath

noncomputable def mpcInput (exit : Bool) : MpcInput ℝ where
  exit := exit
  armors := []
  t := 0
  solve := Armor.view
  now := 6000000
  commandNow := 6000000
  isOpen := true
  unset := 0

noncomputable def seenInput : MpcInput ℝ := { mpcInput false with armors := [seenArmor] }

/-- The main loop pushes a target and the plan thread reads it. -/
noncomputable def seenMoves : List (MpcMove ℝ) :=
  List.replicate 4 (.main seenInput) ++ List.replicate 4 (.plan seenInput)

/-- A referee frame of 28 bytes whose valid bit and fire flag are set. -/
def allowedFrame : List UInt8 :=
  let pl := writeU16Le gimbalSidReferee ++ writeU32Le 0 ++ writeU32Le 1 ++ List.replicate 8 0 ++ writeU16Le 1 ++
    List.replicate 8 0
  (muxEncode commMuxTxBufferSize
    { sof := muxSof, ver := muxVer, channel := gimbalChId, flags := 0, len := 28
      sid := gimbalSidReferee, seq := 1, rsv := 0 } pl).getD []

theorem allowedFrame_canFire :
    refereeCanFire (Dm02.step {} false {} (.muxFrame 5000000 allowedFrame)).referee 6000000 = true := by
  decide +kernel

theorem seenTarget_track (fireThresh : ℝ) :
    (track (mpcConfig fireThresh) (.init (mpcConfig fireThresh).tracker seenTarget 0) none
      { armors := [seenArmor], t := 0, solve := Armor.view }).2.2 = [seenTarget] :=
  seenTarget_tracked

theorem run?_seenMoves (fireThresh : ℝ) :
    ∃ x, run? (mpcConfig fireThresh) (init (mpcConfig fireThresh) seenTarget 0) seenMoves = some x ∧
      x.plan = .planning (some seenTarget) ∧ x.main = .looping ∧
      x.planner = .init { standardConfig with fireThresh } ∧ x.link = .init (mpcConfig fireThresh).link := by
  obtain ⟨x, hrun, hplan, hrest⟩ :
      ∃ x, run? (mpcConfig fireThresh) (init (mpcConfig fireThresh) seenTarget 0) seenMoves = some x ∧
        x.plan = .planning (track (mpcConfig fireThresh) (.init (mpcConfig fireThresh).tracker seenTarget 0) none
          { armors := [seenArmor], t := 0, solve := Armor.view }).2.2.head? ∧ x.main = .looping ∧
        x.planner = .init { standardConfig with fireThresh } ∧ x.link = .init (mpcConfig fireThresh).link :=
    ⟨_, rfl, rfl, rfl, rfl, rfl⟩
  refine ⟨x, hrun, ?_, hrest⟩
  rw [hplan]
  exact congrArg (fun targets => PlanPhase.planning (List.head? targets)) (seenTarget_track fireThresh)

/-- The plan thread is about to plan a shot that the referee is going to allow. -/
structure Aiming (fireThresh : ℝ) (x : Mpc ℝ) (plan : Plan ℝ) (planner : Planner ℝ) : Prop where
  run : run? (mpcConfig fireThresh) (init (mpcConfig fireThresh) seenTarget 0) seenMoves = some x
  phase : x.plan = .planning (some seenTarget)
  main : x.main = .looping
  planned : x.planner.planOptional realMath seenInput.unset seenInput.now.toNat (some seenTarget.forPlanner)
    x.link.bulletSpeed = some (plan, planner)
  controls : plan.control = true
  fires : plan.fire = true
  allowed : refereeCanFire (x.link.receive (mpcConfig fireThresh).link 5000000 allowedFrame).dm02.referee
    seenInput.now = true

theorem exists_aiming : ∃ fireThresh x plan planner, Aiming fireThresh x plan planner := by
  obtain ⟨fireThresh, plan, planner, hplan, hcontrol, hfire⟩ := exists_fire (.init standardConfig) 0 6000000
    seenTarget.forPlanner 0 seenTarget_inRange fun dt => seenTarget_reachable _ (checkSpeed_mem _).1 dt
  obtain ⟨x, hrun, hphase, hmain, hplanner, hlink⟩ := run?_seenMoves fireThresh
  refine ⟨fireThresh, x, plan, planner, hrun, hphase, hmain, ?_, hcontrol, hfire, ?_⟩
  · rw [hplanner, hlink]
    exact hplan
  · rw [receive_dm02, hlink]
    exact allowedFrame_canFire

/-- The plan thread sends with control for a target that was seen, and shoots at it. -/
theorem standardMpc_fires_seen : ∃ fireThresh moves x before send call cmd,
    run? (mpcConfig fireThresh) (init (mpcConfig fireThresh) seenTarget 0) moves = some x ∧
    x.log = before ++ [.sent .plan send, .fired .plan call (some cmd)] ∧ send.control = true ∧ cmd.fireOn = 1 ∧
    (∃ target plan, send = plan.toSend ∧ Checked (mpcConfig fireThresh) (some target) plan before ∧
      SoundTarget target) ∧
    Allowed (mpcConfig fireThresh) call.now (before ++ [.sent .plan send]) := by
  obtain ⟨fireThresh, x, plan, planner, haiming⟩ := exists_aiming
  obtain ⟨y, before, call, cmd, hshoot, hlog, hon, -⟩ := run?_shootingMoves (mpcConfig fireThresh) rfl haiming.phase
    haiming.planned haiming.controls haiming.fires haiming.allowed
  have hall : run? (mpcConfig fireThresh) (init (mpcConfig fireThresh) seenTarget 0)
      (seenMoves ++ shootingMoves seenInput 5000000 allowedFrame) = some y := by
    rw [run?, List.foldlM_append]
    exact Option.bind_eq_some_iff.mpr ⟨x, haiming.run, hshoot⟩
  obtain ⟨hsends, hfires⟩ := standardMpc_fires (fun M => M⁻¹) .insertion (fun target _ => target.estimate)
    (mpcConfig fireThresh) rfl seenTarget 0 hall
  obtain ⟨target, plan', hsend, hchecked, -, hsound⟩ := hsends before _ _ hlog haiming.controls
  have hfired : y.log = (before ++ [.sent .plan plan.toSend]) ++ .fired .plan call (some cmd) :: [] := by
    rw [hlog, List.append_assoc]
    rfl
  obtain ⟨-, hallowed, -⟩ := hfires _ _ call cmd [] hfired hon
  exact ⟨fireThresh, _, y, before, _, call, cmd, hall, hlog, haiming.controls, hon, ⟨target, plan', hsend, hchecked, hsound⟩,
    hallowed⟩

end Mpc

end SpVision
