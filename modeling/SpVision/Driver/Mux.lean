import SpVision.Comm.MuxCodec

set_option autoImplicit false

/-!
# `Driver::Impl::handle_mux`

The host routes a MUX frame by channel and service id and reads the fields of the
message it carries.
-/
namespace SpVision

/-! ### Reading fields -/

/-- `comm_read_i32_le`. -/
def readI32Le (p : List UInt8) : Int32 := (readU32Le p).toInt32

/-- `comm_read_u64_le`. -/
def readU64Le (p : List UInt8) : UInt64 :=
  [7, 6, 5, 4, 3, 2, 1, 0].foldl (fun value i => (value <<< 8) ||| (p.getD i 0).toUInt64) 0

/-! ### Messages -/

def camChId : UInt8 := 1
def tsChId : UInt8 := 3
def gimbalChId : UInt8 := 4

def camSidEvent : UInt16 := 0x0001
def gimbalSidState : UInt16 := 0x0201
def gimbalSidDelta : UInt16 := 0x0202
def gimbalSidTfmini : UInt16 := 0x0203
def gimbalSidReferee : UInt16 := 0x0204

structure CameraEvent where
  frameId : UInt32 := 0
  deviceTsUs : UInt64 := 0
  hostTsNs : UInt64 := 0
  deriving DecidableEq, Repr

structure GimbalState where
  encYaw : Int32 := 0
  encPitch : Int32 := 0
  yawUdeg : Int32 := 0
  pitchUdeg : Int32 := 0
  rollUdeg : Int32 := 0
  yawCmdCurrent : Int32 := 0
  pitchCmdCurrent : Int32 := 0
  yawMeasCurrent : Int32 := 0
  pitchMeasCurrent : Int32 := 0
  gyroYawUdeps : Int32 := 0
  gyroPitchUdeps : Int32 := 0
  bulletSpeedX100 : Int32 := 0
  bulletCount : Int32 := 0
  gimbalMode : Int32 := 0
  shootState : Int32 := 0
  shooterHeat : Int32 := 0
  shooterHeatLimit : Int32 := 0
  projectileAllowance17mm : Int32 := 0
  projectileAllowance42mm : Int32 := 0
  deviceTsUs : UInt64 := 0
  hostTsNs : UInt64 := 0
  deriving DecidableEq, Repr

structure GimbalTfmini where
  distanceCm : UInt16
  strength : UInt16
  tempCdeg : Int16
  status : UInt16
  deviceTsUs : UInt64
  hostTsNs : UInt64
  deriving DecidableEq, Repr

structure RefereeStatus where
  enemyTeam : Int32
  fireAllowed : Int32
  robotId : Int32
  gameStage : Int32
  status : UInt16
  deviceTsUs : UInt64
  hostTsNs : UInt64
  deriving DecidableEq, Repr

/-- What `handle_mux` hands on: to the time sync, to a `last_*` field and its callback, or to
    `on_mux_raw`. -/
inductive MuxMessage
  | timesync (payload : List UInt8)
  | camera (ev : CameraEvent)
  | gimbalState (st : GimbalState)
  | gimbalTfmini (tf : GimbalTfmini)
  | referee (rs : RefereeStatus)
  | gimbalDeltaAck
  | raw (ch : UInt8) (sid : UInt16) (payload : List UInt8)
  deriving DecidableEq, Repr

/-- What `handle_mux` reads of `Config`. -/
structure DriverConfig where
  timesyncEnable : Bool := true
  gimbalHasEncoders : Bool := true
  gimbalHasImu : Bool := true
  deriving DecidableEq, Repr

/-! ### Payloads -/

def readCameraEvent (pl : List UInt8) (len : ℕ) (now : UInt64) : CameraEvent :=
  let pos := if len ≥ 2 + 4 then 2 + 4 else 2
  { frameId := if len ≥ 2 + 4 then readU32Le (pl.drop 2) else 0
    deviceTsUs := if len ≥ pos + 8 then readU64Le (pl.drop pos) else 0
    hostTsNs := now }

/-- The bytes of the encoder and IMU fields. -/
def DriverConfig.baseBytes (config : DriverConfig) : ℕ :=
  ((if config.gimbalHasEncoders then 2 else 0) + (if config.gimbalHasImu then 3 else 0)) * 4

def readGimbalState (config : DriverConfig) (pl : List UInt8) (len : ℕ) (now : UInt64) : GimbalState :=
  let word (idx : ℕ) : Int32 := readI32Le ((pl.drop 2).drop (4 * idx))
  let imu := if config.gimbalHasEncoders then 2 else 0
  let tsOffset := 2 + config.baseBytes
  let extOffset := tsOffset + 8
  let extWords := (if len > extOffset then len - extOffset else 0) / 4
  -- the words come in order, so the ones behind a missing word are missing too
  let ext (idx : ℕ) : Int32 := if extWords > idx then readI32Le ((pl.drop extOffset).drop (4 * idx)) else 0
  { encYaw := if config.gimbalHasEncoders then word 0 else 0
    encPitch := if config.gimbalHasEncoders then word 1 else 0
    yawUdeg := if config.gimbalHasImu then word imu else 0
    pitchUdeg := if config.gimbalHasImu then word (imu + 1) else 0
    rollUdeg := if config.gimbalHasImu then word (imu + 2) else 0
    deviceTsUs := readU64Le (pl.drop tsOffset)
    yawCmdCurrent := ext 0
    pitchCmdCurrent := ext 1
    yawMeasCurrent := ext 2
    pitchMeasCurrent := ext 3
    gyroYawUdeps := ext 4
    gyroPitchUdeps := ext 5
    bulletSpeedX100 := ext 6
    bulletCount := ext 7
    gimbalMode := ext 8
    shootState := ext 9
    shooterHeat := ext 10
    shooterHeatLimit := ext 11
    projectileAllowance17mm := ext 12
    projectileAllowance42mm := ext 13
    hostTsNs := now }

def readGimbalTfmini (pl : List UInt8) (now : UInt64) : GimbalTfmini :=
  { distanceCm := readU16Le (pl.drop 2), strength := readU16Le (pl.drop 4)
    tempCdeg := (readU16Le (pl.drop 6)).toInt16, status := readU16Le (pl.drop 8)
    deviceTsUs := readU64Le (pl.drop 10), hostTsNs := now }

/-- The length of the layout with a status word. -/
abbrev refereeStatusLen : ℕ := 2 + 4 + 4 + 4 + 4 + 2 + 8

def readReferee (pl : List UInt8) (len : ℕ) (now : UInt64) : RefereeStatus :=
  { enemyTeam := readI32Le (pl.drop 2), fireAllowed := readI32Le (pl.drop 6)
    robotId := readI32Le (pl.drop 10), gameStage := readI32Le (pl.drop 14)
    status := if len ≥ refereeStatusLen then readU16Le (pl.drop 18) else 0
    deviceTsUs := if len ≥ refereeStatusLen then readU64Le (pl.drop 20) else readU64Le (pl.drop 18)
    hostTsNs := now }

/-- `now` is the reading of `now_ns_steady`, and `deltaAck` says whether `on_gimbal_delta_ack` is set.
    `none` is a return without effect. -/
def handleMux (config : DriverConfig) (deltaAck : Bool) (now : UInt64) (data : List UInt8) :
    Option MuxMessage :=
  match muxDecode data data.length with
  | none => none
  | some (hdr, pl) =>
    let len := hdr.len.toNat
    if len < 2 then none
    else
      let sid := readU16Le pl
      let ch := hdr.channel
      if ch = tsChId ∧ config.timesyncEnable then some (.timesync pl)
      else if ch = camChId then
        if sid = camSidEvent then some (.camera (readCameraEvent pl len now)) else some (.raw ch sid pl)
      else if ch ≠ gimbalChId then some (.raw ch sid pl)
      else if sid = gimbalSidState then
        if len < 2 + config.baseBytes + 8 then none else some (.gimbalState (readGimbalState config pl len now))
      else if sid = gimbalSidTfmini then
        if len < 2 + 2 + 2 + 2 + 2 + 8 then none else some (.gimbalTfmini (readGimbalTfmini pl now))
      else if sid = gimbalSidReferee then
        if len < 2 + 4 + 4 + 4 + 4 + 8 then none else some (.referee (readReferee pl len now))
      else if sid = gimbalSidDelta ∧ deltaAck then some .gimbalDeltaAck
      else some (.raw ch sid pl)

/-- The payload of a frame that `mux_decode` accepts, without its MUX header. -/
def muxPayload (data : List UInt8) : List UInt8 := ((muxDecode data data.length).map Prod.snd).getD []

/-- A referee message is accepted only from the gimbal channel and with all its fields there. -/
theorem handleMux_referee {config : DriverConfig} {deltaAck : Bool} {now : UInt64} {data : List UInt8}
    {rs : RefereeStatus} (h : handleMux config deltaAck now data = some (.referee rs)) :
    26 ≤ (muxPayload data).length ∧ readU16Le (muxPayload data) = gimbalSidReferee ∧
      rs = readReferee (muxPayload data) (muxPayload data).length now := by
  unfold handleMux at h
  unfold muxPayload
  cases hdecode : muxDecode data data.length with
  | none =>
    rw [hdecode] at h
    cases h
  | some r =>
    obtain ⟨hdr, pl⟩ := r
    have hlen : pl.length = hdr.len.toNat := (muxEncode_decode hdecode).2.2.1
    rw [hdecode] at h
    dsimp only at h
    by_cases hshort : hdr.len.toNat < 2
    · rw [if_pos hshort] at h
      cases h
    rw [if_neg hshort] at h
    by_cases hts : hdr.channel = tsChId ∧ config.timesyncEnable
    · rw [if_pos hts] at h
      cases h
    rw [if_neg hts] at h
    by_cases hcam : hdr.channel = camChId
    · rw [if_pos hcam] at h
      split_ifs at h <;> cases h
    rw [if_neg hcam] at h
    by_cases hgimbal : hdr.channel ≠ gimbalChId
    · rw [if_pos hgimbal] at h
      cases h
    rw [if_neg hgimbal] at h
    split_ifs at h with hstate hstateLen htfmini htfminiLen hreferee hrefereeLen
    all_goals cases h
    refine ⟨?_, hreferee, ?_⟩
    · simp only [Option.map_some, Option.getD_some, hlen]
      omega
    · simp only [Option.map_some, Option.getD_some, hlen]

end SpVision
