/-
# `Capture` — audio devices, and what a capture backend answers

The backends of the source talk to the sound systems; to the engine they are
what they answer, and every answer is possible.
-/
import Mathlib.Data.List.Sort

namespace Larmindon

inductive DeviceType where
  | application
  | input
  | monitor
  deriving DecidableEq, Repr

structure AudioDevice where
  id : String
  name : String
  deviceType : DeviceType
  isDefault : Bool
  applicationName : Option String
  deriving DecidableEq, Repr

/-- The capture session as the engine describes it to the watcher. -/
structure ActiveSessionInfo where
  deviceId : Option String := none
  applicationName : Option String := none
  deviceType : Option DeviceType := none
  deriving DecidableEq, Repr

structure AudioStreamMetadata where
  sampleRate : ℕ
  channels : ℕ
  sampleFormat : String
  deriving DecidableEq, Repr

/-- The default monitor, or any monitor, or any input. -/
def selectDefaultDevice (devices : List AudioDevice) : Option String :=
  ((devices.find? fun d => d.deviceType = .monitor ∧ d.isDefault).map (·.id)).or <|
  ((devices.find? fun d => d.deviceType = .monitor).map (·.id)).or <|
  (devices.find? fun d => d.deviceType = .input).map (·.id)

def DeviceType.priority : DeviceType → ℕ
  | .application => 0
  | .input => 1
  | .monitor => 2

/-- Devices of one type stay in their order. -/
def sortDevicesByPriority (devices : List AudioDevice) : List AudioDevice :=
  devices.mergeSort fun a b => a.deviceType.priority ≤ b.deviceType.priority

/-- What a capture backend answers while the engine is at one command: `enumerate_devices` to select
a device, the same to look one up, and `start`. -/
structure CaptureAnswers where
  select : Except String (List AudioDevice)
  enumerate : Except String (List AudioDevice)
  start : Except String AudioStreamMetadata
  deriving Repr

/-- The session info on a device, with what is known of it. -/
def ActiveSessionInfo.on (deviceId : String) (answer : Except String (List AudioDevice)) :
    ActiveSessionInfo :=
  let deviceInfo : Option AudioDevice := match answer with
    | .ok devices => devices.find? fun d => d.id = deviceId
    | .error _ => none
  { deviceId := some deviceId
    applicationName := deviceInfo.bind (·.applicationName)
    deviceType := deviceInfo.map (·.deviceType) }

end Larmindon
