import SpVision.Driver.Interlock
import SpVision.Planner.Plan
import SpVision.Tools.ThreadSafeQueue

set_option autoImplicit false

/-!
# The program `standard_mpc`

While the gimbal asks for it, the main loop pushes what the tracker reports, and the plan thread plans for what was
pushed last and commands the gimbal; the link receives. A step is what a thread does between two looks at what it
shares with the others. The log tells what they did, in the order in which it came.
-/
namespace SpVision

/-! ### What the link holds -/

inductive GimbalMode
  | idle | autoAim
  deriving DecidableEq, Repr

/-- What the program reads of `LinkImpl`. -/
structure MpcLink (K : Type) where
  dm02 : Dm02 := {}
  mode : GimbalMode
  bulletSpeed : K

structure MpcLinkConfig (K : Type) where
  driver : DriverConfig
  deltaAck : Bool
  mode : GimbalMode
  bulletSpeedDefault : K

/-! ### `referee_runtime` -/

structure RefereeView where
  valid : Bool := false
  fireAllowed : Bool := false
  enemyTeam : Int32 := 0
  hostTsNs : UInt64 := 0
  deriving DecidableEq, Repr

namespace RefereeView

def fromIo (rs : LinkReferee) : RefereeView :=
  { valid := rs.valid, fireAllowed := rs.fireAllowed, enemyTeam := rs.enemyTeam, hostTsNs := rs.hostTsNs }

def isFresh (ref : RefereeView) (nowNs : UInt64) : Bool :=
  if ref.hostTsNs = 0 then false
  else if nowNs < ref.hostTsNs then false
  else nowNs - ref.hostTsNs ≤ kRefereeStaleNs

def canFire (ref : RefereeView) (nowNs : UInt64) : Bool := ref.valid && ref.isFresh nowNs && ref.fireAllowed

def enemyColor (ref : RefereeView) (nowNs : UInt64) : Option Color :=
  if ¬ (ref.valid && ref.isFresh nowNs) then none
  else if ref.enemyTeam = 1 then some .red
  else if ref.enemyTeam = 2 then some .blue
  else none

end RefereeView

/-! ### The program -/

abbrev MpcTarget (K : Type) : Type := Target (TargetEstimate (TargetState K))

/-- The arguments of `Dm02::send`. -/
structure GimbalSend (K : Type) where
  control : Bool
  fire : Bool
  yaw : K
  yawVel : K
  yawAcc : K
  pitch : K
  pitchVel : K
  pitchAcc : K

/-- Where the plan thread is: before a test, before it reads the queue, or with what it has got so far. -/
inductive PlanPhase (K : Type)
  | looping
  | queue
  | mode
  | front
  | planning (target : Option (MpcTarget K))
  | checking (plan : Plan K)
  | sending (plan : Plan K)
  | firing (plan : Plan K)
  | ended

/-- Where the main loop is. It sends when it has nothing to aim at, and once after the plan thread has been joined. -/
inductive MainPhase (K : Type)
  | looping
  | mode
  | frame
  | pushing (target : Option (MpcTarget K))
  | sending (last : Bool)
  | firing (last : Bool)
  | joining
  | ended

inductive MpcThread
  | link | main | plan
  deriving DecidableEq, Repr

/-- What a thread reads of the clock is in the log. `tracked` has the colour of the enemy and what the tracker reports,
    and `fired` the fire command that follows what is sent. -/
inductive MpcEvent (K : Type)
  | received (now : UInt64) (data : List UInt8)
  | mode (mode : GimbalMode)
  | tracked (now : UInt64) (color : Option Color) (frame : Frame (SolvedArmor K)) (targets : List (MpcTarget K))
  | pushed (target : Option (MpcTarget K))
  | quit
  | read (target : Option (MpcTarget K))
  | planned (now : UInt64)
  | checked (now : UInt64)
  | sent (who : MpcThread) (send : GimbalSend K)
  | fired (who : MpcThread) (call : SendCall) (cmd : Option FireCommand)

def MpcEvent.thread {K : Type} : MpcEvent K → MpcThread
  | .received _ _ => .link
  | .mode _ | .tracked _ _ _ _ | .pushed _ | .quit => .main
  | .read _ | .planned _ | .checked _ => .plan
  | .sent who _ | .fired who _ _ => who

/-- What a step may read from outside: the exit flag, the image as detected and its time, the attitude then, the clock,
    whether the driver is open, and what is in variables that were not set. -/
structure MpcInput (K : Type) where
  exit : Bool
  armors : List (Armor (SolvedArmor K))
  t : ℤ
  solve : Armor (SolvedArmor K) → SolvedArmor K
  now : UInt64
  commandNow : UInt64
  isOpen : Bool
  unset : (K × K × K) × K

inductive MpcMove (K : Type)
  | link (now : UInt64) (data : List UInt8)
  | main (o : MpcInput K)
  | plan (o : MpcInput K)

def MpcMove.thread {K : Type} : MpcMove K → MpcThread
  | .link _ _ => .link
  | .main _ => .main
  | .plan _ => .plan

structure MpcConfig (K : Type) where
  link : MpcLinkConfig K
  tracker : TrackerConfig
  planner : PlannerConfig K
  targets : TargetModel (SolvedArmor K) (TargetEstimate (TargetState K))
  math : Cmath K

/-- What the threads share, what each has for itself, where it is, and the log. -/
structure Mpc (K : Type) where
  link : MpcLink K
  mode : GimbalMode := .idle
  quit : Bool := false
  queue : SafeQueue (Option (MpcTarget K))
  tracker : Tracker (TargetEstimate (TargetState K))
  planner : Planner K
  main : MainPhase K := .looping
  plan : PlanPhase K := .looping
  log : List (MpcEvent K)

section Model

variable {K : Type} [Field K] [LinearOrder K] [IsStrictOrderedRing K] [FloorRing K]

/-! ### The link -/

namespace MpcLink

omit [LinearOrder K] [IsStrictOrderedRing K] [FloorRing K] in
def init (config : MpcLinkConfig K) : MpcLink K := { mode := config.mode, bulletSpeed := 0 }

omit [LinearOrder K] [IsStrictOrderedRing K] [FloorRing K] in
/-- `on_gimbal_state` -/
def onGimbalState (config : MpcLinkConfig K) (link : MpcLink K) (s : GimbalState) : MpcLink K :=
  { link with
    bulletSpeed :=
      if s.bulletSpeedX100 > 0 then (s.bulletSpeedX100.toInt : K) / (100 : ℕ) else config.bulletSpeedDefault
    mode :=
      if s.gimbalMode = 0 then .idle
      else if s.gimbalMode ≥ 1 ∧ s.gimbalMode ≤ 3 then .autoAim
      else link.mode }

omit [LinearOrder K] [IsStrictOrderedRing K] [FloorRing K] in
def receive (config : MpcLinkConfig K) (link : MpcLink K) (now : UInt64) (data : List UInt8) : MpcLink K :=
  let link := { link with dm02 := link.dm02.step config.driver config.deltaAck (.muxFrame now data) }
  match handleMux config.driver config.deltaAck now data with
  | some (.gimbalState s) => link.onGimbalState config s
  | _ => link

end MpcLink

/-- A target of the tracker as the planner takes it. -/
def Target.forPlanner {K : Type} (target : MpcTarget K) : PlannerTarget K :=
  { name := target.name
    estimate := { target.estimate with ekf := target.estimate.ekf.ekfX }
    isConverged := target.estimate.ekf.isConverged }

/-- What is sent of a plan. -/
def Plan.toSend {K : Type} (plan : Plan K) : GimbalSend K :=
  { control := plan.control, fire := plan.fire, yaw := plan.yaw, yawVel := plan.yawVel, yawAcc := plan.yawAcc
    pitch := plan.pitch, pitchVel := plan.pitchVel, pitchAcc := plan.pitchAcc }

omit [LinearOrder K] [IsStrictOrderedRing K] [FloorRing K] in
/-- `gimbal.send(false, false, 0, 0, 0, 0, 0, 0)` -/
def GimbalSend.neutral (K : Type) [Field K] : GimbalSend K := ⟨false, false, 0, 0, 0, 0, 0, 0⟩

namespace Mpc

variable (config : MpcConfig K)

omit [IsStrictOrderedRing K] [FloorRing K] in
/-- The program when its loops start; the tracker has no target yet. -/
def init (first : MpcTarget K) (now : ℤ) : Mpc K :=
  { link := .init config.link
    queue := ({} : SafeQueue (Option (MpcTarget K))).push targetQueue none
    tracker := .init config.tracker first now
    planner := .init config.planner
    log := [.pushed none] }

omit [LinearOrder K] [IsStrictOrderedRing K] [FloorRing K] [Field K] in
/-- What the fire command of `Dm02::send` is, and what for. -/
def fireEvent (x : Mpc K) (who : MpcThread) (control fire : Bool) (o : MpcInput K) : MpcEvent K :=
  let call : SendCall :=
    { control := control, fire := fire, now := o.now, commandNow := o.commandNow, isOpen := o.isOpen }
  .fired who call (dm02SendFire x.link.dm02.referee call)

omit [Field K] [LinearOrder K] [IsStrictOrderedRing K] [FloorRing K] in
/-- The colour of the enemy as the referee has it. -/
def color (link : MpcLink K) (now : UInt64) : Option Color := (RefereeView.fromIo link.dm02.referee).enemyColor now

omit [Field K] [LinearOrder K] [IsStrictOrderedRing K] [FloorRing K] in
def setColor (tracker : Tracker (TargetEstimate (TargetState K))) (color : Option Color) :
    Tracker (TargetEstimate (TargetState K)) :=
  match color with
  | some color => tracker.setEnemyColor color
  | none => tracker.resetEnemyColor config.tracker

omit [Field K] [LinearOrder K] [IsStrictOrderedRing K] [FloorRing K] in
def track (tracker : Tracker (TargetEstimate (TargetState K))) (color : Option Color) (frame : Frame (SolvedArmor K)) :
    Tracker (TargetEstimate (TargetState K)) × List (Armor (SolvedArmor K)) × List (MpcTarget K) :=
  (setColor config tracker color).track config.tracker config.targets frame

omit [LinearOrder K] [IsStrictOrderedRing K] [FloorRing K] in
def mainStep (x : Mpc K) (o : MpcInput K) : Mpc K :=
  match x.main with
  | .looping =>
    if o.exit then { x with quit := true, main := .joining, log := x.log ++ [.quit] } else { x with main := .mode }
  | .mode => { x with mode := x.link.mode, main := .frame, log := x.log ++ [.mode x.link.mode] }
  | .frame =>
    if x.mode = .autoAim then
      let color := color x.link o.now
      let frame : Frame (SolvedArmor K) := { armors := o.armors, t := o.t, solve := o.solve }
      let (tracker, _, targets) := track config x.tracker color frame
      { x with tracker, main := .pushing targets.head?, log := x.log ++ [.tracked o.now color frame targets] }
    else { x with main := .sending false }
  | .pushing target =>
    { x with queue := x.queue.push targetQueue target, main := .looping, log := x.log ++ [.pushed target] }
  | .sending last => { x with main := .firing last, log := x.log ++ [.sent .main (.neutral K)] }
  | .firing last =>
    { x with main := if last then .ended else .looping, log := x.log ++ [x.fireEvent .main false false o] }
  | .joining =>
    match x.plan with
    | .ended => { x with main := .sending true }
    | _ => x
  | .ended => x

/-- A step of the plan thread; none where the planner reads a flight time that was not set. -/
def planStep (x : Mpc K) (o : MpcInput K) : Option (Mpc K) :=
  match x.plan with
  | .looping => some { x with plan := if x.quit then .ended else .queue }
  | .queue => some { x with plan := if x.queue.queue.isEmpty then .looping else .mode }
  | .mode => some { x with plan := if x.mode = .autoAim then .front else .looping }
  | .front =>
    match x.queue.queue with
    -- the thread waits for a push
    | [] => some { x with queue := x.queue.step targetQueue .front }
    | target :: _ => some { x with plan := .planning target, log := x.log ++ [.read target] }
  | .planning target =>
    (x.planner.planOptional config.math o.unset o.now.toNat (target.map Target.forPlanner) x.link.bulletSpeed).map
      fun (plan, planner) => { x with planner, plan := .checking plan, log := x.log ++ [.planned o.now] }
  | .checking plan =>
    let canFire := (RefereeView.fromIo x.link.dm02.referee).canFire o.now
    some { x with plan := .sending { plan with fire := plan.fire && canFire }, log := x.log ++ [.checked o.now] }
  | .sending plan => some { x with plan := .firing plan, log := x.log ++ [.sent .plan plan.toSend] }
  | .firing plan =>
    some { x with plan := .looping, log := x.log ++ [x.fireEvent .plan plan.control plan.fire o] }
  | .ended => some x

def step? (x : Mpc K) : MpcMove K → Option (Mpc K)
  | .link now data =>
    some { x with link := x.link.receive config.link now data, log := x.log ++ [.received now data] }
  | .main o => some (x.mainStep config o)
  | .plan o => x.planStep config o

def run? (x : Mpc K) (moves : List (MpcMove K)) : Option (Mpc K) := moves.foldlM (step? config) x

end Mpc

end Model

end SpVision
