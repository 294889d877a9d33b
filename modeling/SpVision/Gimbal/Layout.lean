import SpVision.Driver.Commands

set_option autoImplicit false

/-!
# Both sides agree on the layouts

Each message that one side builds is read by the other with the same field values.
-/
namespace SpVision

/-- A header under which a payload travels on the gimbal channel. -/
structure MuxHdr.Carries (hdr : MuxHdr) (payload : List UInt8) : Prop where
  sof : hdr.sof = muxSof
  ver : hdr.ver = muxVer
  channel : hdr.channel = gimbalChId
  len : payload.length = hdr.len.toNat

/-- The frame of a carried payload, and what `handle_mux` makes of it. -/
def DecodesTo (config : DriverConfig) (deltaAck : Bool) (now : UInt64) (hdr : MuxHdr) (payload : List UInt8)
    (message : MuxMessage) : Prop :=
  ∃ frame, muxEncode commMuxTxBufferSize hdr payload = some frame ∧
    ∀ rest, handleMux config deltaAck now (frame ++ rest) = some message

/-! ### Device to host -/

/-- The field values of a published state; the groups that are switched off read as 0. -/
def GimbalSample.toState (st : GimbalSample) (sw : GimbalSwitches) (now : UInt64) : GimbalState :=
  { encYaw := if sw.stateHasEncoders then st.encYaw else 0
    encPitch := if sw.stateHasEncoders then st.encPitch else 0
    yawUdeg := if sw.stateHasImu then st.yawUdeg else 0
    pitchUdeg := if sw.stateHasImu then st.pitchUdeg else 0
    rollUdeg := if sw.stateHasImu then st.rollUdeg else 0
    deviceTsUs := st.tsUs
    hostTsNs := now }

def TfminiSample.toTfmini (data : TfminiSample) (now : UInt64) : GimbalTfmini :=
  { distanceCm := data.distanceCm, strength := data.strength, tempCdeg := data.tempCdeg
    status := data.status, deviceTsUs := data.tsUs, hostTsNs := now }

def RefereeSample.toReferee (data : RefereeSample) (now : UInt64) : RefereeStatus :=
  { enemyTeam := data.enemyTeam, fireAllowed := data.fireAllowed, robotId := data.robotId
    gameStage := data.gameStage, status := data.status, deviceTsUs := data.tsUs, hostTsNs := now }

variable {config : DriverConfig} {deltaAck : Bool} {now : UInt64} {hdr : MuxHdr} {payload : List UInt8}

theorem MuxHdr.Carries.decode (h : hdr.Carries payload) (hlen : payload.length ≤ 504) :
    ∃ frame, muxEncode commMuxTxBufferSize hdr payload = some frame ∧
      ∀ rest, muxDecode (frame ++ rest) (frame ++ rest).length = some (hdr, payload) := by
  cases hencode : muxEncode commMuxTxBufferSize hdr payload with
  | none =>
    rcases (muxEncode_eq_none_iff _ _ _).mp hencode with hsof | hver | hroom
    · exact absurd h.sof hsof
    · exact absurd h.ver hver
    · rw [← h.len] at hroom
      simp only [commMuxTxBufferSize, muxHdrSize] at hroom
      omega
  | some frame => exact ⟨frame, rfl, muxDecode_encode h.len hencode⟩

theorem MuxHdr.Carries.handleMux (h : hdr.Carries payload) {data : List UInt8}
    (hdecode : muxDecode data data.length = some (hdr, payload)) (hlen : 2 ≤ payload.length) :
    handleMux config deltaAck now data =
      if readU16Le payload = gimbalSidState then
        if payload.length < 2 + config.baseBytes + 8 then none
        else some (.gimbalState (readGimbalState config payload payload.length now))
      else if readU16Le payload = gimbalSidTfmini then
        if payload.length < 18 then none else some (.gimbalTfmini (readGimbalTfmini payload now))
      else if readU16Le payload = gimbalSidReferee then
        if payload.length < 26 then none
        else some (.referee (readReferee payload payload.length now))
      else if readU16Le payload = gimbalSidDelta ∧ deltaAck then some .gimbalDeltaAck
      else some (.raw gimbalChId (readU16Le payload) payload) := by
  have hts : ¬ (gimbalChId = tsChId ∧ config.timesyncEnable = true) := fun hts => absurd hts.1 (by decide)
  unfold SpVision.handleMux
  rw [hdecode]
  dsimp only
  rw [h.channel, ← h.len, if_neg (by omega), if_neg hts, if_neg (by decide), if_neg (by decide)]

theorem gimbalPackState_length (sw : GimbalSwitches) (sid : UInt16) (st : GimbalSample)
    (henc : config.gimbalHasEncoders = sw.stateHasEncoders) (himu : config.gimbalHasImu = sw.stateHasImu) :
    (gimbalPackState sw sid st).length = 2 + config.baseBytes + 8 := by
  unfold gimbalPackState DriverConfig.baseBytes
  rw [henc, himu]
  cases sw.stateHasEncoders <;> cases sw.stateHasImu <;> simp

theorem readGimbalState_pack (sw : GimbalSwitches) (sid : UInt16) (st : GimbalSample)
    (henc : config.gimbalHasEncoders = sw.stateHasEncoders) (himu : config.gimbalHasImu = sw.stateHasImu) :
    readGimbalState config (gimbalPackState sw sid st) (gimbalPackState sw sid st).length now =
      st.toState sw now := by
  rw [gimbalPackState_length sw sid st henc himu]
  unfold readGimbalState gimbalPackState GimbalSample.toState DriverConfig.baseBytes
  rw [henc, himu]
  cases sw.stateHasEncoders <;> cases sw.stateHasImu <;> simp

theorem readGimbalTfmini_publish (now : UInt64) {sw : GimbalSwitches} {data : TfminiSample}
    (h : gimbalChannelPublishTfmini sw data = some payload) :
    readU16Le payload = gimbalSidTfmini ∧ payload.length = 18 ∧
      readGimbalTfmini payload now = data.toTfmini now := by
  unfold gimbalChannelPublishTfmini at h
  split_ifs at h
  cases h
  refine ⟨by simp, by simp, ?_⟩
  unfold readGimbalTfmini TfminiSample.toTfmini
  simp

theorem readReferee_publish (now : UInt64) {sw : GimbalSwitches} {data : RefereeSample}
    (h : gimbalChannelPublishReferee sw data = some payload) :
    readU16Le payload = gimbalSidReferee ∧ payload.length = 28 ∧
      readReferee payload 28 now = data.toReferee now := by
  unfold gimbalChannelPublishReferee at h
  split_ifs at h
  cases h
  refine ⟨by simp, by simp, ?_⟩
  unfold readReferee RefereeSample.toReferee
  simp

theorem gimbalPackState_sid (sw : GimbalSwitches) (sid : UInt16) (st : GimbalSample) :
    readU16Le (gimbalPackState sw sid st) = sid := by
  unfold gimbalPackState
  rw [List.append_assoc, List.append_assoc]
  exact readU16Le_writeU16Le sid _

theorem decodesTo_state (sw : GimbalSwitches) (st : GimbalSample)
    (henc : config.gimbalHasEncoders = sw.stateHasEncoders) (himu : config.gimbalHasImu = sw.stateHasImu)
    (hcarries : hdr.Carries (gimbalPackState sw gimbalSidState st)) :
    DecodesTo config deltaAck now hdr (gimbalPackState sw gimbalSidState st) (.gimbalState (st.toState sw now)) := by
  have hlen := gimbalPackState_length sw gimbalSidState st henc himu
  have hbase : config.baseBytes ≤ 20 := by
    unfold DriverConfig.baseBytes
    split_ifs <;> omega
  obtain ⟨frame, hframe, hdecode⟩ := hcarries.decode (by omega)
  refine ⟨frame, hframe, fun rest => ?_⟩
  rw [hcarries.handleMux (hdecode rest) (by omega), if_pos (gimbalPackState_sid sw _ st), if_neg (by omega),
    readGimbalState_pack sw _ st henc himu]

theorem gimbalChannelPublish_pack {sw : GimbalSwitches} {getState : Option (Option GimbalSample)}
    {nowUs : Option UInt64} {opt : Option GimbalSample}
    (h : gimbalChannelPublish sw getState nowUs opt = some payload) :
    ∃ st, payload = gimbalPackState sw gimbalSidState st := by
  unfold gimbalChannelPublish at h
  rcases opt with - | st
  · rcases getState with - | - | st
    · cases h
    · cases h
    · exact ⟨_, (Option.some.inj h).symm⟩
  · exact ⟨st, (Option.some.inj h).symm⟩

/-- What the device publishes of its state comes out at the host, whatever the source and the clock gave. -/
theorem gimbalChannelPublish_decodes {sw : GimbalSwitches} {getState : Option (Option GimbalSample)}
    {nowUs : Option UInt64} {opt : Option GimbalSample}
    (hpublish : gimbalChannelPublish sw getState nowUs opt = some payload)
    (henc : config.gimbalHasEncoders = sw.stateHasEncoders) (himu : config.gimbalHasImu = sw.stateHasImu)
    (hcarries : hdr.Carries payload) :
    ∃ st, payload = gimbalPackState sw gimbalSidState st ∧
      DecodesTo config deltaAck now hdr payload (.gimbalState (st.toState sw now)) := by
  obtain ⟨st, rfl⟩ := gimbalChannelPublish_pack hpublish
  exact ⟨st, rfl, decodesTo_state sw st henc himu hcarries⟩

theorem decodesTo_tfmini {sw : GimbalSwitches} {data : TfminiSample}
    (hpublish : gimbalChannelPublishTfmini sw data = some payload) (hcarries : hdr.Carries payload) :
    DecodesTo config deltaAck now hdr payload (.gimbalTfmini (data.toTfmini now)) := by
  obtain ⟨hsid, hlen, hread⟩ := readGimbalTfmini_publish now hpublish
  obtain ⟨frame, hframe, hdecode⟩ := hcarries.decode (by omega)
  refine ⟨frame, hframe, fun rest => ?_⟩
  rw [hcarries.handleMux (hdecode rest) (by omega), hsid, if_neg (by decide), if_pos rfl, if_neg (by omega),
    hread]

theorem decodesTo_referee {sw : GimbalSwitches} {data : RefereeSample}
    (hpublish : gimbalChannelPublishReferee sw data = some payload) (hcarries : hdr.Carries payload) :
    DecodesTo config deltaAck now hdr payload (.referee (data.toReferee now)) := by
  obtain ⟨hsid, hlen, hread⟩ := readReferee_publish now hpublish
  obtain ⟨frame, hframe, hdecode⟩ := hcarries.decode (by omega)
  refine ⟨frame, hframe, fun rest => ?_⟩
  rw [hcarries.handleMux (hdecode rest) (by omega), hsid, if_neg (by decide), if_neg (by decide), if_pos rfl,
    if_neg (by omega), hlen, hread]

/-! ### Host to device -/

/-- The command as the device sees it, with the time stamp the driver chose. -/
def GimbalDelta.toData (cmd : GimbalDelta) (clock : CommandClock) : GimbalDeltaData :=
  { deltaYawUdeg := cmd.deltaYawUdeg, deltaPitchUdeg := cmd.deltaPitchUdeg, status := cmd.status
    tsUs := commandTsUs clock cmd.hostTsNs cmd.deviceTsUs }

def FireCommand.toCmd (cmd : FireCommand) (clock : CommandClock) : GimbalFireCmd :=
  { fireOn := cmd.fireOn, fireMode := cmd.fireMode, burstCount := cmd.burstCount, status := cmd.status
    tsUs := commandTsUs clock cmd.hostTsNs cmd.deviceTsUs }

def ChassisCommand.toCmd (cmd : ChassisCommand) (clock : CommandClock) : GimbalChassisCmd :=
  { vxMmS := cmd.vxMmS, vyMmS := cmd.vyMmS, wzMdegS := cmd.wzMdegS, mode := cmd.mode, status := cmd.status
    tsUs := commandTsUs clock cmd.hostTsNs cmd.deviceTsUs }

variable (sw : GimbalSwitches) (hooks : GimbalHooks) (aimOn : Bool) (clock : CommandClock)

theorem gimbalOnRx_sendGimbalDelta (cmd : GimbalDelta) :
    gimbalOnRx sw hooks true (sendGimbalDelta clock cmd) (sendGimbalDelta clock cmd).length =
      [.autoAimApplyDelta (cmd.toData clock)] ++ (if hooks.onDelta then [.onDelta (cmd.toData clock)] else []) ++
        if sw.deltaAckEnable then [.queueNotify gimbalSidDelta (writeU16Le gimbalSidDelta)] else [] := by
  have hlen : (sendGimbalDelta clock cmd).length = 20 := by simp [sendGimbalDelta]
  have hsid : readU16Le (sendGimbalDelta clock cmd) = gimbalSidDelta := by simp [sendGimbalDelta]
  have hread : readGimbalDelta (sendGimbalDelta clock cmd) = cmd.toData clock := by
    unfold readGimbalDelta sendGimbalDelta GimbalDelta.toData
    simp
  unfold gimbalOnRx
  dsimp only
  rw [hlen, hsid, hread, if_neg (by decide), if_pos rfl, if_neg (by decide), if_pos rfl]
  rfl

theorem gimbalOnRx_sendFireCommand (cmd : FireCommand) :
    gimbalOnRx sw hooks aimOn (sendFireCommand clock cmd) (sendFireCommand clock cmd).length =
      if hooks.onFire then [.onFire (cmd.toCmd clock)] else [] := by
  have hlen : (sendFireCommand clock cmd).length = 24 := by simp [sendFireCommand]
  have hsid : readU16Le (sendFireCommand clock cmd) = gimbalSidFire := by simp [sendFireCommand]
  have hread : readGimbalFireCmd (sendFireCommand clock cmd) = cmd.toCmd clock := by
    unfold readGimbalFireCmd sendFireCommand FireCommand.toCmd
    simp
  unfold gimbalOnRx
  dsimp only
  rw [hlen, hsid, hread, if_neg (by decide), if_neg (by decide), if_pos rfl, if_neg (by decide)]

theorem gimbalOnRx_sendChassisCommand (cmd : ChassisCommand) :
    gimbalOnRx sw hooks aimOn (sendChassisCommand clock cmd) (sendChassisCommand clock cmd).length =
      if hooks.onChassis then [.onChassis (cmd.toCmd clock)] else [] := by
  have hlen : (sendChassisCommand clock cmd).length = 28 := by simp [sendChassisCommand]
  have hsid : readU16Le (sendChassisCommand clock cmd) = gimbalSidChassis := by simp [sendChassisCommand]
  have hread : readGimbalChassisCmd (sendChassisCommand clock cmd) = cmd.toCmd clock := by
    unfold readGimbalChassisCmd sendChassisCommand ChassisCommand.toCmd
    simp
  unfold gimbalOnRx
  dsimp only
  rw [hlen, hsid, hread, if_neg (by decide), if_neg (by decide), if_neg (by decide), if_pos rfl,
    if_neg (by decide)]

/-- Host and device agree on every message. What the device publishes with a set of switches is decoded by
    a host configured alike to the same field values, and a command of the host reaches the device's
    hooks with the values and the time stamp the driver sent. -/
theorem host_device_layouts_agree :
    (∀ (sw : GimbalSwitches) (config : DriverConfig) (deltaAck : Bool) (now : UInt64),
      (∀ (st : GimbalSample) (hdr : MuxHdr), config.gimbalHasEncoders = sw.stateHasEncoders →
        config.gimbalHasImu = sw.stateHasImu → hdr.Carries (gimbalPackState sw gimbalSidState st) →
          DecodesTo config deltaAck now hdr (gimbalPackState sw gimbalSidState st)
            (.gimbalState (st.toState sw now))) ∧
      (∀ data : TfminiSample, sw.tfminiPublishEnable → ∃ payload,
        gimbalChannelPublishTfmini sw data = some payload ∧ ∀ hdr : MuxHdr, hdr.Carries payload →
          DecodesTo config deltaAck now hdr payload (.gimbalTfmini (data.toTfmini now))) ∧
      ∀ data : RefereeSample, sw.refereePublishEnable → ∃ payload,
        gimbalChannelPublishReferee sw data = some payload ∧ ∀ hdr : MuxHdr, hdr.Carries payload →
          DecodesTo config deltaAck now hdr payload (.referee (data.toReferee now))) ∧
    ∀ (sw : GimbalSwitches) (hooks : GimbalHooks) (clock : CommandClock),
      (∀ cmd : GimbalDelta,
        gimbalOnRx sw hooks true (sendGimbalDelta clock cmd) (sendGimbalDelta clock cmd).length =
          [.autoAimApplyDelta (cmd.toData clock)] ++
            (if hooks.onDelta then [.onDelta (cmd.toData clock)] else []) ++
            if sw.deltaAckEnable then [.queueNotify gimbalSidDelta (writeU16Le gimbalSidDelta)] else []) ∧
      (∀ (aimOn : Bool) (cmd : FireCommand),
        gimbalOnRx sw hooks aimOn (sendFireCommand clock cmd) (sendFireCommand clock cmd).length =
          if hooks.onFire then [.onFire (cmd.toCmd clock)] else []) ∧
      ∀ (aimOn : Bool) (cmd : ChassisCommand),
        gimbalOnRx sw hooks aimOn (sendChassisCommand clock cmd) (sendChassisCommand clock cmd).length =
          if hooks.onChassis then [.onChassis (cmd.toCmd clock)] else [] := by
  refine ⟨fun sw config deltaAck now => ⟨?_, ?_, ?_⟩, fun sw hooks clock => ⟨?_, ?_, ?_⟩⟩
  · intro st hdr henc himu hcarries
    exact decodesTo_state sw st henc himu hcarries
  · intro data henable
    obtain ⟨payload, hpublish⟩ : ∃ payload, gimbalChannelPublishTfmini sw data = some payload :=
      ⟨_, if_neg (not_not.mpr henable)⟩
    exact ⟨payload, hpublish, fun hdr hcarries => decodesTo_tfmini hpublish hcarries⟩
  · intro data henable
    obtain ⟨payload, hpublish⟩ : ∃ payload, gimbalChannelPublishReferee sw data = some payload :=
      ⟨_, if_neg (not_not.mpr henable)⟩
    exact ⟨payload, hpublish, fun hdr hcarries => decodesTo_referee hpublish hcarries⟩
  · exact gimbalOnRx_sendGimbalDelta sw hooks clock
  · exact fun aimOn => gimbalOnRx_sendFireCommand sw hooks aimOn clock
  · exact fun aimOn => gimbalOnRx_sendChassisCommand sw hooks aimOn clock

/-- A state with the encoder group alone, with negative readings. -/
theorem encoder_state_decodes : ∃ hdr : MuxHdr,
    DecodesTo { gimbalHasImu := false } false 5 hdr
      (gimbalPackState { stateHasImu := false } gimbalSidState ⟨-1, -2, 3, 4, 5, 6⟩)
      (.gimbalState { encYaw := -1, encPitch := -2, deviceTsUs := 6, hostTsNs := 5 }) :=
  ⟨{ sof := muxSof, ver := muxVer, channel := gimbalChId, flags := 0, len := 18, sid := gimbalSidState
     seq := 1, rsv := 0 },
    (host_device_layouts_agree.1 { stateHasImu := false } { gimbalHasImu := false } false 5).1
      ⟨-1, -2, 3, 4, 5, 6⟩ _ rfl rfl ⟨rfl, rfl, rfl, by decide⟩⟩

end SpVision
