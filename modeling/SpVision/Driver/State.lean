import SpVision.Sync.TimeSync

set_option autoImplicit false

/-!
# The state of the driver

`Driver::Impl` between the calls of `open`, `close`, `poll` and `tick`. The uproto context
is modelled elsewhere: here a poll hands on MUX frames, and a tick may send a request of
the time sync.
-/
namespace SpVision

structure TimeSyncStatus where
  valid : Bool := false
  offsetUs : Int64 := 0
  rttUs : UInt32 := 0
  version : UInt32 := 0
  lastDeviceTimeUs : UInt64 := 0
  lastHostTimeUs : UInt64 := 0
  deriving DecidableEq, Repr

namespace TimeSync

def status (ts : TimeSync) : TimeSyncStatus :=
  { valid := ts.mappingValid, offsetUs := ts.offsetUs, rttUs := ts.rttUsLast, version := ts.mappingVersion
    lastDeviceTimeUs := ts.lastDeviceTimeUs, lastHostTimeUs := ts.lastHostTimeUs }

/-- `now_device_us`, with its reading of the clock. -/
def nowDeviceUs (ts : TimeSync) (now : UInt64) : UInt64 :=
  if ¬ ts.mappingValid then now else (now.toInt64 + ts.offsetUs).toUInt64

end TimeSync

/-- What the driver reads of `Config`. -/
structure DriverSettings extends DriverConfig where
  timesyncPeriodMs : UInt32 := 1000
  timesyncMaxRttUs : UInt32 := 0
  timesyncInitiator : Bool := true

/-- Which of the callbacks that change the course of `handle_mux` are set. -/
structure DriverCallbacks where
  onGimbalDeltaAck : Bool := false
  onTimesync : Bool := false

/-- The readings of the clock while a frame is handled: `now_ns_steady` and the two of `on_mux`. -/
structure MuxClock where
  nowNs : UInt64
  nowUs : UInt64
  nowUs' : UInt64
  deriving DecidableEq, Repr

structure DriverState where
  isOpen : Bool := false
  ts : TimeSync := .init 1000 true 0
  tsVersionSeen : UInt32 := 0
  lastGimbal : Option GimbalState := none
  lastTfmini : Option GimbalTfmini := none
  lastCamera : Option CameraEvent := none
  lastReferee : Option RefereeStatus := none

namespace DriverState

variable (cfg : DriverSettings) (cb : DriverCallbacks)

/-- The end of `init_uproto`. -/
def initTimesync (d : DriverState) : DriverState :=
  let ts := (d.ts.setPeriodMs cfg.timesyncPeriodMs).setInitiator cfg.timesyncInitiator
  { d with ts := ts.setMaxRttUs cfg.timesyncMaxRttUs }

/-- `Driver::open`; `ok` is the answer of the transport. -/
def driverOpen (d : DriverState) (ok : Bool) : DriverState :=
  if ¬ ok then d else initTimesync cfg { d with isOpen := true }

/-- `Driver::close`. -/
def driverClose (d : DriverState) : DriverState := { d with isOpen := false }

/-- `Driver::tick` as far as the time sync goes. -/
def driverTick (d : DriverState) (now t0 : UInt64) : DriverState :=
  if ¬ d.isOpen then d
  else if cfg.timesyncEnable then { d with ts := (d.ts.tick now t0).1 }
  else d

/-- The branch of `handle_mux` for the time sync, with the status given to `on_timesync`. -/
def onTimesyncMux (d : DriverState) (clock : MuxClock) (pl : List UInt8) : DriverState × Option TimeSyncStatus :=
  let d := { d with ts := (d.ts.onMux clock.nowUs clock.nowUs' pl pl.length).1 }
  if cb.onTimesync ∧ d.ts.mappingVersion ≠ d.tsVersionSeen then
    ({ d with tsVersionSeen := d.ts.mappingVersion }, some d.ts.status)
  else (d, none)

/-- `handle_mux` on the state of the driver, with the status given to `on_timesync`. -/
def handleMux (d : DriverState) (clock : MuxClock) (data : List UInt8) : DriverState × Option TimeSyncStatus :=
  match SpVision.handleMux cfg.toDriverConfig cb.onGimbalDeltaAck clock.nowNs data with
  | some (.timesync pl) => d.onTimesyncMux cb clock pl
  | some (.camera ev) => ({ d with lastCamera := some ev }, none)
  | some (.gimbalState st) => ({ d with lastGimbal := some st }, none)
  | some (.gimbalTfmini tf) => ({ d with lastTfmini := some tf }, none)
  | some (.referee rs) => ({ d with lastReferee := some rs }, none)
  | some .gimbalDeltaAck => (d, none)
  | some (.raw _ _ _) => (d, none)
  | none => (d, none)

/-- A MUX frame that `Driver::poll` hands on. -/
def onFrame (d : DriverState) (clock : MuxClock) (data : List UInt8) : DriverState × Option TimeSyncStatus :=
  if ¬ d.isOpen then (d, none) else d.handleMux cfg cb clock data

variable {cfg cb}

/-- A frame means nothing to the time sync, or is a payload of it. -/
theorem onFrame_cases (d : DriverState) (clock : MuxClock) (data : List UInt8) :
    ((d.onFrame cfg cb clock data).1.ts = d.ts ∧
      (d.onFrame cfg cb clock data).1.tsVersionSeen = d.tsVersionSeen ∧ (d.onFrame cfg cb clock data).2 = none) ∨
    ∃ pl, d.onFrame cfg cb clock data = d.onTimesyncMux cb clock pl := by
  by_cases hopen : d.isOpen
  · have hframe : d.onFrame cfg cb clock data = d.handleMux cfg cb clock data := if_neg (not_not.mpr hopen)
    rw [hframe]
    unfold handleMux
    rcases SpVision.handleMux cfg.toDriverConfig cb.onGimbalDeltaAck clock.nowNs data with - | message
    · exact .inl ⟨rfl, rfl, rfl⟩
    · cases message
      case timesync pl => exact .inr ⟨pl, rfl⟩
      all_goals exact .inl ⟨rfl, rfl, rfl⟩
  · have hframe : d.onFrame cfg cb clock data = (d, none) := if_pos hopen
    rw [hframe]
    exact .inl ⟨rfl, rfl, rfl⟩

end DriverState

end SpVision
