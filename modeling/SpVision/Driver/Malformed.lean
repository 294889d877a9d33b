import SpVision.Library.Guarded
import SpVision.Driver.State
import SpVision.Sync.Runs

set_option autoImplicit false

/-!
# Malformed messages

`handle_mux` once more with each read of the payload guarded by `hdr.len`: no guard ever
fails. A message shorter than its kind requires changes nothing that others read.
-/
namespace SpVision

/-! ### Guarded reads -/

theorem getD_take {α : Type} {n i : ℕ} (xs : List α) (fallback : α) (h : i < n) :
    (xs.take n).getD i fallback = xs.getD i fallback := by
  rw [List.getD_eq_getElem?_getD, List.getD_eq_getElem?_getD, List.getElem?_take_of_lt h]

theorem readsU16Le : Guarded.Reads 2 readU16Le := by
  intro xs
  unfold readU16Le
  rw [getD_take xs 0 (by decide), getD_take xs 0 (by decide)]

theorem readsU32Le : Guarded.Reads 4 readU32Le := by
  intro xs
  unfold readU32Le
  rw [getD_take xs 0 (by decide), getD_take xs 0 (by decide), getD_take xs 0 (by decide),
    getD_take xs 0 (by decide)]

theorem readsI32Le : Guarded.Reads 4 readI32Le := fun xs => congrArg UInt32.toInt32 (readsU32Le xs)

theorem readsU64Le : Guarded.Reads 8 readU64Le := by
  intro xs
  have hbyte : ∀ i ∈ [7, 6, 5, 4, 3, 2, 1, 0], (xs.take 8).getD i 0 = xs.getD i 0 := fun i hi =>
    getD_take xs 0 (by revert i; decide)
  unfold readU64Le
  exact List.foldl_ext _ _ _ fun value i hi => by rw [hbyte i hi]


def readCameraEvent? (pl : List UInt8) (len : ℕ) (now : UInt64) : Option CameraEvent := do
  let pos := if len ≥ 2 + 4 then 2 + 4 else 2
  let frameId ← Guarded.when (len ≥ 2 + 4) (Guarded.read len 4 readU32Le pl 2) 0
  let deviceTsUs ← Guarded.when (len ≥ pos + 8) (Guarded.read len 8 readU64Le pl pos) 0
  return { frameId := frameId, deviceTsUs := deviceTsUs, hostTsNs := now }

def readGimbalState? (config : DriverConfig) (pl : List UInt8) (len : ℕ) (now : UInt64) : Option GimbalState := do
  let word (idx : ℕ) : Option Int32 := Guarded.read len 4 readI32Le pl (2 + 4 * idx)
  let imu := if config.gimbalHasEncoders then 2 else 0
  let encYaw ← Guarded.when config.gimbalHasEncoders (word 0) 0
  let encPitch ← Guarded.when config.gimbalHasEncoders (word 1) 0
  let yawUdeg ← Guarded.when config.gimbalHasImu (word imu) 0
  let pitchUdeg ← Guarded.when config.gimbalHasImu (word (imu + 1)) 0
  let rollUdeg ← Guarded.when config.gimbalHasImu (word (imu + 2)) 0
  let tsOffset := 2 + config.baseBytes
  let deviceTsUs ← Guarded.read len 8 readU64Le pl tsOffset
  let extOffset := tsOffset + 8
  let extWords := (if len > extOffset then len - extOffset else 0) / 4
  let ext (idx : ℕ) : Option Int32 :=
    Guarded.when (extWords > idx) (Guarded.read len 4 readI32Le pl (extOffset + 4 * idx)) 0
  let yawCmdCurrent ← ext 0
  let pitchCmdCurrent ← ext 1
  let yawMeasCurrent ← ext 2
  let pitchMeasCurrent ← ext 3
  let gyroYawUdeps ← ext 4
  let gyroPitchUdeps ← ext 5
  let bulletSpeedX100 ← ext 6
  let bulletCount ← ext 7
  let gimbalMode ← ext 8
  let shootState ← ext 9
  let shooterHeat ← ext 10
  let shooterHeatLimit ← ext 11
  let projectileAllowance17mm ← ext 12
  let projectileAllowance42mm ← ext 13
  return {
    encYaw := encYaw, encPitch := encPitch, yawUdeg := yawUdeg, pitchUdeg := pitchUdeg, rollUdeg := rollUdeg
    deviceTsUs := deviceTsUs, yawCmdCurrent := yawCmdCurrent, pitchCmdCurrent := pitchCmdCurrent
    yawMeasCurrent := yawMeasCurrent, pitchMeasCurrent := pitchMeasCurrent, gyroYawUdeps := gyroYawUdeps
    gyroPitchUdeps := gyroPitchUdeps, bulletSpeedX100 := bulletSpeedX100, bulletCount := bulletCount
    gimbalMode := gimbalMode, shootState := shootState, shooterHeat := shooterHeat
    shooterHeatLimit := shooterHeatLimit, projectileAllowance17mm := projectileAllowance17mm
    projectileAllowance42mm := projectileAllowance42mm, hostTsNs := now }

def readGimbalTfmini? (pl : List UInt8) (len : ℕ) (now : UInt64) : Option GimbalTfmini := do
  let distanceCm ← Guarded.read len 2 readU16Le pl 2
  let strength ← Guarded.read len 2 readU16Le pl 4
  let tempCdeg ← Guarded.read len 2 readU16Le pl 6
  let status ← Guarded.read len 2 readU16Le pl 8
  let deviceTsUs ← Guarded.read len 8 readU64Le pl 10
  return { distanceCm := distanceCm, strength := strength, tempCdeg := tempCdeg.toInt16, status := status
           deviceTsUs := deviceTsUs, hostTsNs := now }

def readReferee? (pl : List UInt8) (len : ℕ) (now : UInt64) : Option RefereeStatus := do
  let enemyTeam ← Guarded.read len 4 readI32Le pl 2
  let fireAllowed ← Guarded.read len 4 readI32Le pl 6
  let robotId ← Guarded.read len 4 readI32Le pl 10
  let gameStage ← Guarded.read len 4 readI32Le pl 14
  let status ← Guarded.when (len ≥ refereeStatusLen) (Guarded.read len 2 readU16Le pl 18) 0
  let deviceTsUs ← Guarded.read len 8 readU64Le pl (if len ≥ refereeStatusLen then 20 else 18)
  return { enemyTeam := enemyTeam, fireAllowed := fireAllowed, robotId := robotId, gameStage := gameStage
           status := status, deviceTsUs := deviceTsUs, hostTsNs := now }

section Reads

variable {config : DriverConfig} {len : ℕ} (pl : List UInt8) (now : UInt64)

theorem readCameraEvent?_eq : readCameraEvent? pl len now = some (readCameraEvent pl len now) := by
  unfold readCameraEvent? readCameraEvent
  dsimp only
  rw [Guarded.when_eq 0 fun h => Guarded.read_eq readsU32Le pl h,
    Guarded.when_eq 0 fun h => Guarded.read_eq readsU64Le pl h]
  rfl

theorem readGimbalState?_eq (hlen : 2 + config.baseBytes + 8 ≤ len) :
    readGimbalState? config pl len now = some (readGimbalState config pl len now) := by
  have hword (c : Prop) [Decidable c] (idx : ℕ) (h : c → 4 * idx + 4 ≤ config.baseBytes) :
      Guarded.when c (Guarded.read len 4 readI32Le pl (2 + 4 * idx)) 0 =
        some (if c then readI32Le ((pl.drop 2).drop (4 * idx)) else 0) := by
    refine Guarded.when_eq 0 fun hc => ?_
    have hfits := h hc
    rw [Guarded.read_eq readsI32Le pl (by omega), List.drop_drop]
  have henc (idx : ℕ) (hidx : idx < 2) (h : config.gimbalHasEncoders = true) : 4 * idx + 4 ≤ config.baseBytes := by
    rw [DriverConfig.baseBytes, if_pos h]
    omega
  have himu (idx : ℕ) (hidx : idx < 3) (h : config.gimbalHasImu = true) :
      4 * ((if config.gimbalHasEncoders then 2 else 0) + idx) + 4 ≤ config.baseBytes := by
    rw [DriverConfig.baseBytes, if_pos h]
    omega
  have himu0 : config.gimbalHasImu = true → 4 * (if config.gimbalHasEncoders then 2 else 0) + 4 ≤ config.baseBytes :=
    himu 0 (by omega)
  have hext (idx : ℕ) :
      Guarded.when ((if len > 2 + config.baseBytes + 8 then len - (2 + config.baseBytes + 8) else 0) / 4 > idx)
        (Guarded.read len 4 readI32Le pl (2 + config.baseBytes + 8 + 4 * idx)) 0 =
      some (if (if len > 2 + config.baseBytes + 8 then len - (2 + config.baseBytes + 8) else 0) / 4 > idx then
        readI32Le ((pl.drop (2 + config.baseBytes + 8)).drop (4 * idx)) else 0) := by
    refine Guarded.when_eq 0 fun h => ?_
    have hfits : 2 + config.baseBytes + 8 + 4 * idx + 4 ≤ len := by
      split_ifs at h <;> omega
    rw [Guarded.read_eq readsI32Le pl hfits, List.drop_drop]
  have hts := Guarded.read_eq readsU64Le pl hlen
  unfold readGimbalState? readGimbalState
  dsimp only
  rw [hword _ 0 (henc 0 (by omega)), hword _ 1 (henc 1 (by omega)), hword _ _ himu0,
    hword _ _ (himu 1 (by omega)), hword _ _ (himu 2 (by omega)), hts]
  simp only [hext]
  rfl

theorem readGimbalTfmini?_eq (hlen : 18 ≤ len) : readGimbalTfmini? pl len now = some (readGimbalTfmini pl now) := by
  unfold readGimbalTfmini? readGimbalTfmini
  rw [Guarded.read_eq readsU16Le pl (by omega), Guarded.read_eq readsU16Le pl (by omega),
    Guarded.read_eq readsU16Le pl (by omega), Guarded.read_eq readsU16Le pl (by omega),
    Guarded.read_eq readsU64Le pl (by omega)]
  rfl

theorem readReferee?_eq (hlen : 26 ≤ len) : readReferee? pl len now = some (readReferee pl len now) := by
  have hstatus : Guarded.when (len ≥ refereeStatusLen) (Guarded.read len 2 readU16Le pl 18) 0 =
      some (if len ≥ refereeStatusLen then readU16Le (pl.drop 18) else 0) :=
    Guarded.when_eq 0 fun h => Guarded.read_eq readsU16Le pl (Nat.le_trans (by decide) h)
  have hts : Guarded.read len 8 readU64Le pl (if len ≥ refereeStatusLen then 20 else 18) =
      some (if len ≥ refereeStatusLen then readU64Le (pl.drop 20) else readU64Le (pl.drop 18)) := by
    split_ifs with hlong
    · exact Guarded.read_eq readsU64Le pl hlong
    · exact Guarded.read_eq readsU64Le pl hlen
  unfold readReferee? readReferee
  rw [Guarded.read_eq readsI32Le pl (by omega), Guarded.read_eq readsI32Le pl (by omega),
    Guarded.read_eq readsI32Le pl (by omega), Guarded.read_eq readsI32Le pl (by omega), hstatus, hts]
  rfl

end Reads

/-- `handleMux` with guarded reads. -/
def handleMux? (config : DriverConfig) (deltaAck : Bool) (now : UInt64) (data : List UInt8) :
    Option (Option MuxMessage) :=
  match muxDecode data data.length with
  | none => some none
  | some (hdr, pl) =>
    let len := hdr.len.toNat
    if len < 2 then some none
    else do
      let sid ← Guarded.read len 2 readU16Le pl 0
      let ch := hdr.channel
      if ch = tsChId ∧ config.timesyncEnable then some (some (.timesync pl))
      else if ch = camChId then
        if sid = camSidEvent then (readCameraEvent? pl len now).map fun ev => some (.camera ev)
        else some (some (.raw ch sid pl))
      else if ch ≠ gimbalChId then some (some (.raw ch sid pl))
      else if sid = gimbalSidState then
        if len < 2 + config.baseBytes + 8 then some none
        else (readGimbalState? config pl len now).map fun st => some (.gimbalState st)
      else if sid = gimbalSidTfmini then
        if len < 2 + 2 + 2 + 2 + 2 + 8 then some none
        else (readGimbalTfmini? pl len now).map fun tf => some (.gimbalTfmini tf)
      else if sid = gimbalSidReferee then
        if len < 2 + 4 + 4 + 4 + 4 + 8 then some none
        else (readReferee? pl len now).map fun rs => some (.referee rs)
      else if sid = gimbalSidDelta ∧ deltaAck then some (some .gimbalDeltaAck)
      else some (some (.raw ch sid pl))

theorem handleMux?_eq (config : DriverConfig) (deltaAck : Bool) (now : UInt64) (data : List UInt8) :
    handleMux? config deltaAck now data = some (handleMux config deltaAck now data) := by
  unfold handleMux? handleMux
  rcases muxDecode data data.length with - | ⟨hdr, pl⟩
  · rfl
  dsimp only
  by_cases hshort : hdr.len.toNat < 2
  · rw [if_pos hshort, if_pos hshort]
  rw [if_neg hshort, if_neg hshort, Guarded.read_eq readsU16Le pl (by omega), List.drop_zero]
  simp only [Option.bind_eq_bind, Option.bind_some]
  by_cases hts : hdr.channel = tsChId ∧ config.timesyncEnable
  · rw [if_pos hts, if_pos hts]
  rw [if_neg hts, if_neg hts]
  by_cases hcam : hdr.channel = camChId
  · rw [if_pos hcam, if_pos hcam]
    split_ifs
    · rw [readCameraEvent?_eq, Option.map_some]
    · rfl
  rw [if_neg hcam, if_neg hcam]
  by_cases hch : hdr.channel ≠ gimbalChId
  · rw [if_pos hch, if_pos hch]
  rw [if_neg hch, if_neg hch]
  split_ifs with hstate hstateLen htfmini htfminiLen hreferee hrefereeLen hdelta
  · rfl
  · rw [readGimbalState?_eq pl now (by omega), Option.map_some]
  · rfl
  · rw [readGimbalTfmini?_eq pl now (by omega), Option.map_some]
  · rfl
  · rw [readReferee?_eq pl now (by omega), Option.map_some]
  · rfl
  · rfl

/-- `TimeSync.onMux` with guarded reads. -/
def TimeSync.onMux? (ts : TimeSync) (now now' : UInt64) (pl : List UInt8) (len : ℕ) :
    Option (TimeSync × Option (List UInt8)) :=
  if len < 2 then some (ts, none)
  else do
    let sid ← Guarded.read len 2 readU16Le pl 0
    if sid = tsSidReq then
      if len < 2 + 2 + 8 then some (ts, none)
      else do
        let seq ← Guarded.read len 2 readU16Le pl 2
        return (ts, some (tsResp seq now now'))
    else if sid ≠ tsSidResp then some (ts, none)
    else if len < 2 + 2 + 8 + 8 then some (ts, none)
    else do
      let seq ← Guarded.read len 2 readU16Le pl 2
      let t1 ← Guarded.read len 8 readU64Le pl 4
      let t2 ← Guarded.read len 8 readU64Le pl 12
      let t0 := ts.lookup seq
      if t0 = 0 then some (ts, none) else some (ts.onResp t0 t1 t2 now, none)

theorem TimeSync.onMux?_eq (ts : TimeSync) (now now' : UInt64) (pl : List UInt8) (len : ℕ) :
    ts.onMux? now now' pl len = some (ts.onMux now now' pl len) := by
  unfold onMux? onMux
  dsimp only
  by_cases hshort : len < 2
  · rw [if_pos hshort, if_pos hshort]
  rw [if_neg hshort, if_neg hshort, Guarded.read_eq readsU16Le pl (by omega), List.drop_zero]
  simp only [Option.bind_eq_bind, Option.bind_some]
  by_cases hreq : readU16Le pl = tsSidReq
  · rw [if_pos hreq, if_pos hreq]
    by_cases hlen : len < 2 + 2 + 8
    · rw [if_pos hlen, if_pos hlen]
    · rw [if_neg hlen, if_neg hlen, Guarded.read_eq readsU16Le pl (by omega)]
      rfl
  rw [if_neg hreq, if_neg hreq]
  by_cases hresp : readU16Le pl ≠ tsSidResp
  · rw [if_pos hresp, if_pos hresp]
  rw [if_neg hresp, if_neg hresp]
  by_cases hlen : len < 2 + 2 + 8 + 8
  · rw [if_pos hlen, if_pos hlen]
  rw [if_neg hlen, if_neg hlen, Guarded.read_eq readsU16Le pl (by omega), Guarded.read_eq readsU64Le pl (by omega),
    Guarded.read_eq readsU64Le pl (by omega), Option.bind_some, Option.bind_some, Option.bind_some]
  unfold readTsResp
  split_ifs <;> rfl

namespace DriverState

variable (cfg : DriverSettings) (cb : DriverCallbacks)

/-- `DriverState.onTimesyncMux` with guarded reads. -/
def onTimesyncMux? (d : DriverState) (clock : MuxClock) (pl : List UInt8) :
    Option (DriverState × Option TimeSyncStatus) := do
  let r ← d.ts.onMux? clock.nowUs clock.nowUs' pl pl.length
  let d := { d with ts := r.1 }
  if cb.onTimesync ∧ d.ts.mappingVersion ≠ d.tsVersionSeen then
    some ({ d with tsVersionSeen := d.ts.mappingVersion }, some d.ts.status)
  else some (d, none)

/-- `DriverState.handleMux` with guarded reads. -/
def handleMux? (d : DriverState) (clock : MuxClock) (data : List UInt8) :
    Option (DriverState × Option TimeSyncStatus) :=
  (SpVision.handleMux? cfg.toDriverConfig cb.onGimbalDeltaAck clock.nowNs data).bind fun message =>
    match message with
    | some (.timesync pl) => d.onTimesyncMux? cb clock pl
    | some (.camera ev) => some ({ d with lastCamera := some ev }, none)
    | some (.gimbalState st) => some ({ d with lastGimbal := some st }, none)
    | some (.gimbalTfmini tf) => some ({ d with lastTfmini := some tf }, none)
    | some (.referee rs) => some ({ d with lastReferee := some rs }, none)
    | some .gimbalDeltaAck => some (d, none)
    | some (.raw _ _ _) => some (d, none)
    | none => some (d, none)

variable {cfg cb}

theorem onTimesyncMux?_eq (d : DriverState) (clock : MuxClock) (pl : List UInt8) :
    d.onTimesyncMux? cb clock pl = some (d.onTimesyncMux cb clock pl) := by
  unfold onTimesyncMux? onTimesyncMux
  rw [TimeSync.onMux?_eq, Option.bind_eq_bind, Option.bind_some]
  dsimp only
  split_ifs <;> rfl

theorem handleMux?_eq (d : DriverState) (clock : MuxClock) (data : List UInt8) :
    d.handleMux? cfg cb clock data = some (d.handleMux cfg cb clock data) := by
  unfold handleMux? handleMux
  rw [SpVision.handleMux?_eq, Option.bind_some]
  rcases SpVision.handleMux cfg.toDriverConfig cb.onGimbalDeltaAck clock.nowNs data with - | message
  · rfl
  · cases message
    case timesync pl => exact d.onTimesyncMux?_eq clock pl
    all_goals rfl

end DriverState

/-! ### Short messages -/

/-- The least length of a message of its kind. -/
def muxMinLen (config : DriverConfig) (ch : UInt8) (sid : UInt16) : ℕ :=
  if ch = tsChId ∧ config.timesyncEnable then
    if sid = tsSidReq then 2 + 2 + 8 else if sid = tsSidResp then 2 + 2 + 8 + 8 else 2
  else if ch = camChId then if sid = camSidEvent then 2 + 4 + 8 else 2
  else if ch ≠ gimbalChId then 2
  else if sid = gimbalSidState then 2 + config.baseBytes + 8
  else if sid = gimbalSidTfmini then 2 + 2 + 2 + 2 + 2 + 8
  else if sid = gimbalSidReferee then 2 + 4 + 4 + 4 + 4 + 8
  else 2

/-- A byte string that is no MUX frame, or one whose message is too short for its kind. -/
def MuxTooShort (config : DriverConfig) (data : List UInt8) : Prop :=
  ∀ hdr pl, muxDecode data data.length = some (hdr, pl) →
    hdr.len.toNat < muxMinLen config hdr.channel (readU16Le pl)

/-- What a message may change and a short one does not; the mapping, the offset and the version are fields of
    the time sync. -/
structure DriverState.Untouched (d d' : DriverState) : Prop where
  gimbal : d'.lastGimbal = d.lastGimbal
  tfmini : d'.lastTfmini = d.lastTfmini
  referee : d'.lastReferee = d.lastReferee
  timesync : d'.ts = d.ts

theorem TimeSync.onMux_short (ts : TimeSync) (now now' : UInt64) (pl : List UInt8) {len : ℕ}
    (h : len < if readU16Le pl = tsSidReq then 2 + 2 + 8 else if readU16Le pl = tsSidResp then 2 + 2 + 8 + 8 else 2) :
    ts.onMux now now' pl len = (ts, none) := by
  unfold onMux
  dsimp only
  split_ifs at h ⊢
  all_goals first | rfl | omega

/-- A short message is dropped, is handed to the time sync, which drops it, or is a camera event. -/
theorem handleMux_short {config : DriverConfig} {deltaAck : Bool} {now : UInt64} {data : List UInt8}
    (h : MuxTooShort config data) : handleMux config deltaAck now data = none ∨
      (∃ ev, handleMux config deltaAck now data = some (.camera ev)) ∨
      ∃ pl, handleMux config deltaAck now data = some (.timesync pl) ∧
        pl.length < if readU16Le pl = tsSidReq then 2 + 2 + 8
          else if readU16Le pl = tsSidResp then 2 + 2 + 8 + 8 else 2 := by
  unfold handleMux
  cases hdecode : muxDecode data data.length with
  | none => exact .inl rfl
  | some r =>
    obtain ⟨hdr, pl⟩ := r
    have hlen : pl.length = hdr.len.toNat := (muxEncode_decode hdecode).2.2.1
    have hshort := h hdr pl hdecode
    unfold muxMinLen at hshort
    dsimp only
    by_cases htwo : hdr.len.toNat < 2
    · exact .inl (if_pos htwo)
    rw [if_neg htwo]
    by_cases hts : hdr.channel = tsChId ∧ config.timesyncEnable = true
    · rw [if_pos hts] at hshort ⊢
      exact .inr (.inr ⟨pl, rfl, hlen ▸ hshort⟩)
    rw [if_neg hts] at hshort ⊢
    by_cases hcam : hdr.channel = camChId
    · rw [if_pos hcam] at hshort ⊢
      split_ifs at hshort ⊢
      · exact .inr (.inl ⟨_, rfl⟩)
      · omega
    rw [if_neg hcam] at hshort ⊢
    by_cases hch : hdr.channel ≠ gimbalChId
    · rw [if_pos hch] at hshort
      exact absurd hshort htwo
    rw [if_neg hch] at hshort ⊢
    by_cases hstate : readU16Le pl = gimbalSidState
    · rw [if_pos hstate] at hshort ⊢
      exact .inl (if_pos hshort)
    rw [if_neg hstate] at hshort ⊢
    by_cases htfmini : readU16Le pl = gimbalSidTfmini
    · rw [if_pos htfmini] at hshort ⊢
      exact .inl (if_pos hshort)
    rw [if_neg htfmini] at hshort ⊢
    by_cases hreferee : readU16Le pl = gimbalSidReferee
    · rw [if_pos hreferee] at hshort ⊢
      exact .inl (if_pos hshort)
    rw [if_neg hreferee] at hshort
    exact absurd hshort htwo

theorem DriverState.handleMux_short {cfg : DriverSettings} {cb : DriverCallbacks} (d : DriverState)
    (clock : MuxClock) {data : List UInt8} (h : MuxTooShort cfg.toDriverConfig data) :
    d.Untouched (d.handleMux cfg cb clock data).1 := by
  unfold DriverState.handleMux
  rcases SpVision.handleMux_short h with
    hnone | ⟨ev, hcamera⟩ | ⟨pl, htimesync, hlen⟩
  · rw [hnone]
    exact ⟨rfl, rfl, rfl, rfl⟩
  · rw [hcamera]
    exact ⟨rfl, rfl, rfl, rfl⟩
  · rw [htimesync]
    change d.Untouched (d.onTimesyncMux cb clock pl).1
    unfold onTimesyncMux
    rw [d.ts.onMux_short clock.nowUs clock.nowUs' pl hlen]
    dsimp only
    split_ifs <;> exact ⟨rfl, rfl, rfl, rfl⟩

/-- Malformed messages are harmless. With every byte string, configuration and state each read of the payload
    lies below `hdr.len`, which is the number of bytes there are, and a message too short for its kind
    leaves the last messages and the time sync as they were. -/
theorem handle_mux_malformed_harmless (cfg : DriverSettings) (cb : DriverCallbacks) (d : DriverState)
    (clock : MuxClock) (data : List UInt8) :
    d.handleMux? cfg cb clock data = some (d.handleMux cfg cb clock data) ∧
      (∀ hdr pl, muxDecode data data.length = some (hdr, pl) → pl.length = hdr.len.toNat) ∧
        (MuxTooShort cfg.toDriverConfig data → d.Untouched (d.handleMux cfg cb clock data).1) :=
  ⟨d.handleMux?_eq clock data, fun _ _ hdecode => (muxEncode_decode hdecode).2.2.1, d.handleMux_short clock⟩

/-- A TFMINI message without its last byte. -/
def shortTfminiFrame : List UInt8 :=
  (muxEncode commMuxTxBufferSize
    { sof := muxSof, ver := muxVer, channel := gimbalChId, flags := 0, len := 17, sid := gimbalSidTfmini
      seq := 1, rsv := 0 }
    (writeU16Le gimbalSidTfmini ++ List.replicate 15 1)).getD []

theorem short_tfmini_untouched :
    DriverState.Untouched {} (DriverState.handleMux {} {} {} ⟨0, 0, 0⟩ shortTfminiFrame).1 := by
  refine (handle_mux_malformed_harmless {} {} {} ⟨0, 0, 0⟩ shortTfminiFrame).2.2 ?_
  intro hdr pl hdecode
  have hframe : (muxDecode shortTfminiFrame shortTfminiFrame.length).map
      (fun r => (r.1.len, r.1.channel, readU16Le r.2)) = some (17, gimbalChId, gimbalSidTfmini) := by
    decide +kernel
  rw [hdecode, Option.map_some, Option.some.injEq, Prod.mk.injEq, Prod.mk.injEq] at hframe
  obtain ⟨hlen, hchannel, hsid⟩ := hframe
  rw [hlen, hchannel, hsid]
  decide

end SpVision
