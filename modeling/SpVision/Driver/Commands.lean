import SpVision.Driver.Fields
import SpVision.Driver.Interlock
import SpVision.Gimbal.Channel

set_option autoImplicit false

/-!
# The commands of the driver

The payloads that the driver gives to `send_mux` on the gimbal channel. The time stamp comes
from the command or from the time sync, whose answers are those of a `CommandClock`.
-/
namespace SpVision

/-- `GimbalDelta` of the driver. -/
structure GimbalDelta where
  deltaYawUdeg : Int32 := 0
  deltaPitchUdeg : Int32 := 0
  status : UInt16 := 0
  hostTsNs : UInt64 := 0
  deviceTsUs : UInt64 := 0
  deriving DecidableEq, Repr

structure ChassisCommand where
  vxMmS : Int32 := 0
  vyMmS : Int32 := 0
  wzMdegS : Int32 := 0
  mode : Int32 := 0
  status : UInt16 := 0
  hostTsNs : UInt64 := 0
  deviceTsUs : UInt64 := 0
  deriving DecidableEq, Repr

/-- What a command reads of the driver: `timesync_enable`, `status().valid`, `now_device_us()` and
    `host_ns_to_device_us`, which computes in floating point. -/
structure CommandClock where
  timesyncEnable : Bool
  valid : Bool
  nowDeviceUs : UInt64
  hostNsToDeviceUs : UInt64 → Option UInt64

/-- `ts_us` of the three commands. -/
def commandTsUs (clock : CommandClock) (hostTsNs deviceTsUs : UInt64) : UInt64 :=
  if deviceTsUs ≠ 0 then deviceTsUs
  else if hostTsNs ≠ 0 then (clock.hostNsToDeviceUs hostTsNs).getD 0
  else if clock.timesyncEnable ∧ clock.valid then clock.nowDeviceUs
  else 0

def sendGimbalDelta (clock : CommandClock) (cmd : GimbalDelta) : List UInt8 :=
  writeU16Le gimbalSidDelta ++ (writeI32Le cmd.deltaYawUdeg ++ (writeI32Le cmd.deltaPitchUdeg ++
    (writeU16Le cmd.status ++ writeU64Le (commandTsUs clock cmd.hostTsNs cmd.deviceTsUs))))

def sendFireCommand (clock : CommandClock) (cmd : FireCommand) : List UInt8 :=
  writeU16Le gimbalSidFire ++ (writeI32Le cmd.fireOn ++ (writeI32Le cmd.fireMode ++
    (writeI32Le cmd.burstCount ++ (writeU16Le cmd.status ++
      writeU64Le (commandTsUs clock cmd.hostTsNs cmd.deviceTsUs)))))

def sendChassisCommand (clock : CommandClock) (cmd : ChassisCommand) : List UInt8 :=
  writeU16Le gimbalSidChassis ++ (writeI32Le cmd.vxMmS ++ (writeI32Le cmd.vyMmS ++
    (writeI32Le cmd.wzMdegS ++ (writeI32Le cmd.mode ++ (writeU16Le cmd.status ++
      writeU64Le (commandTsUs clock cmd.hostTsNs cmd.deviceTsUs))))))

end SpVision
