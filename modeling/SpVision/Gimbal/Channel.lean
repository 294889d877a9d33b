import SpVision.Driver.Fields

set_option autoImplicit false

/-!
# The gimbal channel of the device

What `gimbal_channel.c` packs into its messages and what its `on_rx` reads from a command.
-/
namespace SpVision

def gimbalSidFire : UInt16 := 0x0205
def gimbalSidChassis : UInt16 := 0x0206
def gimbalSidRefereeQuery : UInt16 := 0x0207

/-- The switches of `gimbal_config.h`. -/
structure GimbalSwitches where
  stateHasEncoders : Bool := true
  stateHasImu : Bool := true
  deltaAckEnable : Bool := false
  tfminiPublishEnable : Bool := false
  refereePublishEnable : Bool := true
  deriving DecidableEq, Repr

/-! ### Messages -/

/-- `gimbal_state_t`. -/
structure GimbalSample where
  encYaw : Int32
  encPitch : Int32
  yawUdeg : Int32
  pitchUdeg : Int32
  rollUdeg : Int32
  tsUs : UInt64
  deriving DecidableEq, Repr

/-- `gimbal_tfmini_t`. -/
structure TfminiSample where
  distanceCm : UInt16
  strength : UInt16
  tempCdeg : Int16
  status : UInt16
  tsUs : UInt64
  deriving DecidableEq, Repr

/-- `gimbal_referee_t`. -/
structure RefereeSample where
  enemyTeam : Int32
  fireAllowed : Int32
  robotId : Int32
  gameStage : Int32
  status : UInt16
  tsUs : UInt64
  deriving DecidableEq, Repr

/-- `gimbal_delta_t`. -/
structure GimbalDeltaData where
  deltaYawUdeg : Int32
  deltaPitchUdeg : Int32
  status : UInt16
  tsUs : UInt64
  deriving DecidableEq, Repr

structure GimbalFireCmd where
  fireOn : Int32
  fireMode : Int32
  burstCount : Int32
  status : UInt16
  tsUs : UInt64
  deriving DecidableEq, Repr

structure GimbalChassisCmd where
  vxMmS : Int32
  vyMmS : Int32
  wzMdegS : Int32
  mode : Int32
  status : UInt16
  tsUs : UInt64
  deriving DecidableEq, Repr

/-! ### Publishing -/

/-- `GIMBAL_STATE_PACK_EXT` is not defined. -/
def gimbalPackState (sw : GimbalSwitches) (sid : UInt16) (st : GimbalSample) : List UInt8 :=
  writeU16Le sid ++
    (if sw.stateHasEncoders then writeI32Le st.encYaw ++ writeI32Le st.encPitch else []) ++
    (if sw.stateHasImu then writeI32Le st.yawUdeg ++ writeI32Le st.pitchUdeg ++ writeI32Le st.rollUdeg
      else []) ++
    writeU64Le st.tsUs

/-- What is queued for `GIMBAL_SID_STATE`. `getState` is the source, if there is one, with its answer,
    and `nowUs` the clock, if there is one; `none` is `false`. -/
def gimbalChannelPublish (sw : GimbalSwitches) (getState : Option (Option GimbalSample))
    (nowUs : Option UInt64) (opt : Option GimbalSample) : Option (List UInt8) :=
  match opt, getState with
  | some st, _ => some (gimbalPackState sw gimbalSidState st)
  | none, some (some st) =>
    let tsUs := if st.tsUs = 0 then nowUs.getD st.tsUs else st.tsUs
    some (gimbalPackState sw gimbalSidState { st with tsUs := tsUs })
  | none, _ => none

def gimbalChannelPublishTfmini (sw : GimbalSwitches) (data : TfminiSample) : Option (List UInt8) :=
  if ¬ sw.tfminiPublishEnable then none
  else
    some (writeU16Le gimbalSidTfmini ++ (writeU16Le data.distanceCm ++ (writeU16Le data.strength ++
      (writeU16Le data.tempCdeg.toUInt16 ++ (writeU16Le data.status ++ writeU64Le data.tsUs)))))

def gimbalChannelPublishReferee (sw : GimbalSwitches) (data : RefereeSample) : Option (List UInt8) :=
  if ¬ sw.refereePublishEnable then none
  else
    some (writeU16Le gimbalSidReferee ++ (writeI32Le data.enemyTeam ++ (writeI32Le data.fireAllowed ++
      (writeI32Le data.robotId ++ (writeI32Le data.gameStage ++ (writeU16Le data.status ++
        writeU64Le data.tsUs))))))

/-! ### Commands -/

/-- What `on_rx` does: the control of the auto aim, the hooks, and a queued notification. -/
inductive GimbalAction
  | autoAimApplyDelta (d : GimbalDeltaData)
  | onDelta (d : GimbalDeltaData)
  | onFire (cmd : GimbalFireCmd)
  | onChassis (cmd : GimbalChassisCmd)
  | onRefereeQuery
  | queueNotify (sid : UInt16) (payload : List UInt8)
  deriving DecidableEq, Repr

/-- Which of `gimbal_hooks_t` are set. -/
structure GimbalHooks where
  onDelta : Bool := true
  onFire : Bool := true
  onChassis : Bool := true
  onRefereeQuery : Bool := true
  deriving DecidableEq, Repr

def readGimbalDelta (payload : List UInt8) : GimbalDeltaData :=
  { deltaYawUdeg := readI32Le (payload.drop 2), deltaPitchUdeg := readI32Le (payload.drop 6)
    status := readU16Le (payload.drop 10), tsUs := readU64Le (payload.drop 12) }

def readGimbalFireCmd (payload : List UInt8) : GimbalFireCmd :=
  { fireOn := readI32Le (payload.drop 2), fireMode := readI32Le (payload.drop 6)
    burstCount := readI32Le (payload.drop 10), status := readU16Le (payload.drop 14)
    tsUs := readU64Le (payload.drop 16) }

def readGimbalChassisCmd (payload : List UInt8) : GimbalChassisCmd :=
  { vxMmS := readI32Le (payload.drop 2), vyMmS := readI32Le (payload.drop 6)
    wzMdegS := readI32Le (payload.drop 10), mode := readI32Le (payload.drop 14)
    status := readU16Le (payload.drop 18), tsUs := readU64Le (payload.drop 20) }

/-- `on_rx`; `aimOn` is `aim.auto_aim_flag == AIM_ON`. -/
def gimbalOnRx (sw : GimbalSwitches) (hooks : GimbalHooks) (aimOn : Bool) (payload : List UInt8) (len : ℕ) :
    List GimbalAction :=
  if len < 2 then []
  else
    let sid := readU16Le payload
    if sid = gimbalSidDelta then
      if len < 2 + 4 + 4 + 2 + 8 then []
      else
        let d := readGimbalDelta payload
        (if aimOn then .autoAimApplyDelta d :: (if hooks.onDelta then [.onDelta d] else []) else []) ++
          (if sw.deltaAckEnable then [.queueNotify gimbalSidDelta (writeU16Le gimbalSidDelta)] else [])
    else if sid = gimbalSidFire then
      if len < 2 + 4 + 4 + 4 + 2 + 8 then []
      else if hooks.onFire then [.onFire (readGimbalFireCmd payload)] else []
    else if sid = gimbalSidChassis then
      if len < 2 + 4 + 4 + 4 + 4 + 2 + 8 then []
      else if hooks.onChassis then [.onChassis (readGimbalChassisCmd payload)] else []
    else if sid = gimbalSidRefereeQuery then
      if hooks.onRefereeQuery then [.onRefereeQuery] else []
    else []

end SpVision
