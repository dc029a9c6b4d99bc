/-
# `Watcher` — the watcher of devices beside the engine

The watcher keeps a map of the devices that the registry of PipeWire announces.
When a device goes away, and the session info says that it is the one captured,
the watcher looks for a monitor and sends the engine a `Reconnect` to it, through
the channel the commands of the UI come through.

    registry ──▶ watcher ──▶ commands ──▶ engine
                    ▲     UI ──▲             │
                    └──── session info ◀─────┘

Both threads see each other at few points only.  The watcher stops at these:

    checking    the entry is removed, the session info is not yet read
    sending     decided on a monitor, the `Reconnect` is not yet sent
    emitting    in front of `emit_devices_changed`
    idle        in front of the next event of the registry

The order in which a `HashMap` gives its values is whatever it is: an input.
-/
import Mathlib.Data.List.AList
import Larmindon.AudioEngine

namespace Larmindon

variable {F St σ ρ : Type}

/-! ## Devices of the registry -/

/-- `device_from_props`, from the properties of a global of the registry. -/
def deviceFromProps (globalId : ℕ) (props : List (String × String)) : Option AudioDevice :=
  let nodeId := (props.lookup "object.serial").getD (toString globalId)
  let described (unknown : String) :=
    ((props.lookup "node.description").or (props.lookup "node.name")).getD unknown
  match props.lookup "media.class" with
  | some "Stream/Output/Audio" =>
      let appName :=
        ((props.lookup "application.name").or (props.lookup "node.name")).getD "Unknown App"
      some
        { id := nodeId
          name := "[app] " ++ appName
          deviceType := .application
          isDefault := false
          applicationName := some appName }
  | some "Audio/Source" =>
      some
        { id := nodeId
          name := "[in] " ++ described "Unknown Input"
          deviceType := .input
          isDefault := false
          applicationName := none }
  | some "Audio/Sink" =>
      some
        { id := nodeId
          name := "[out] Monitor of " ++ described "Unknown Output"
          deviceType := .monitor
          isDefault := false
          applicationName := none }
  | _ => none

structure DeviceEntry where
  device : AudioDevice
  nodeName : Option String

/-- The monitor to fall back to, among the entries in their order: one of the default sink's name,
or any. -/
def fallbackMonitor (defaultSinkName : Option String) (entries : List DeviceEntry) : Option String :=
  ((entries.find? fun e => e.device.deviceType = .monitor ∧ defaultSinkName = e.nodeName).or
    (entries.find? fun e => e.device.deviceType = .monitor)).map (·.device.id)

/-! ## The watcher -/

inductive WatcherPhase where
  | idle
  | checking (entry : DeviceEntry)
  | sending (monitorId : String)
  | emitting

structure Watcher where
  /-- By the ids of the registry. -/
  devices : AList fun _ : ℕ => DeviceEntry
  /-- Nothing sets it. -/
  defaultSinkName : Option String
  phase : WatcherPhase
  /-- The devices that have left the map; nothing reads them but the theorems. -/
  removed : List String

namespace Watcher

def new : Watcher := ⟨∅, none, .idle, []⟩

/-- The entries in an order of their ids. -/
def values (w : Watcher) (order : List ℕ) : List DeviceEntry :=
  order.filterMap fun id => w.devices.lookup id

/-- The device under an id, before its entry is replaced or removed. -/
def leaves (w : Watcher) (id : ℕ) : List String :=
  ((w.devices.lookup id).map (·.device.id)).toList

/-- A global appears in the registry. -/
def global (w : Watcher) (id : ℕ) (props : List (String × String)) : Watcher :=
  match deviceFromProps id props with
  | none => w
  | some device =>
      { w with
        devices := w.devices.insert id ⟨device, props.lookup "node.name"⟩
        phase := .emitting
        removed := w.removed ++ w.leaves id }

/-- A global goes away, up to the look at the session info. -/
def globalRemove (w : Watcher) (id : ℕ) : Watcher :=
  { w with
    devices := w.devices.erase id
    phase := match w.devices.lookup id with
      | some entry => .checking entry
      | none => .emitting
    removed := w.removed ++ w.leaves id }

/-- What the watcher falls back to, from what it reads. -/
def decide (w : Watcher) (info : ActiveSessionInfo) (order : List ℕ) : Option String :=
  match w.phase with
  | .checking entry =>
      if info.deviceId = some entry.device.id then fallbackMonitor w.defaultSinkName (w.values order)
      else none
  | .idle | .sending _ | .emitting => none

/-- From the look at the session info to the sending. -/
def check (w : Watcher) (info : ActiveSessionInfo) (order : List ℕ) : Watcher :=
  { w with
    phase := match w.decide info order with
      | some monitorId => .sending monitorId
      | none => .emitting }

/-- `emit_devices_changed`. -/
def emitDevicesChanged (w : Watcher) (order : List ℕ) : List AudioDevice :=
  sortDevicesByPriority <| (w.values order).map fun e =>
    match w.defaultSinkName, e.nodeName with
    | some dn, some nn =>
        if e.device.deviceType = .monitor ∧ nn = dn then { e.device with isDefault := true }
        else e.device
    | _, _ => e.device

/-- A device is in the map. -/
def Holds (w : Watcher) (deviceId : String) : Prop :=
  ∃ id entry, w.devices.lookup id = some entry ∧ entry.device.id = deviceId

/-- A device has been removed from the map, and is not in it. -/
structure Gone (w : Watcher) (deviceId : String) : Prop where
  removed : deviceId ∈ w.removed
  absent : ¬ w.Holds deviceId

end Watcher

/-! ## The watcher, the UI and the engine -/

/-- The watcher beside the engine, with the commands that are in the channel. -/
structure Watched (F St σ ρ : Type) where
  world : World F St σ ρ
  watcher : Watcher
  commands : List (Command F)

inductive WatchedMove (F : Type) where
  /-- The UI sends a command, which is no `Reconnect`. -/
  | ui (c : Command F)
  /-- The engine takes the next command. -/
  | receive (a : CaptureAnswers)
  /-- Any other move of the engine or its thread. -/
  | engine (m : Move F)
  | global (id : ℕ) (props : List (String × String))
  | globalRemove (id : ℕ)
  | check (order : List ℕ)
  | send
  | emit (order : List ℕ)

inductive SinkEvent (F : Type) where
  | engine (e : EngineEvent F)
  | onDevicesChanged (devices : List AudioDevice)

def Command.isReconnect : Command F → Bool
  | .reconnect _ => true
  | .listDevices | .start _ _ | .stop | .updateSettings _ => false

def Move.isReceive : Move F → Bool
  | .receive _ _ => true
  | .join | .openCapture _ | .spawn | .switchSource _ | .thread _ => false

namespace Watched

def new (diagEnabled : Bool) : Watched F St σ ρ where
  world := .new diagEnabled
  watcher := .new
  commands := []

variable [F32 F]

/-- A move of the engine. -/
def engineMove (P : Platform F St σ ρ) (w : Watched F St σ ρ) (m : Move F) :
    Option (Watched F St σ ρ × List (SinkEvent F)) :=
  (w.world.step P m).map fun (world, evs) => ({ w with world }, evs.map .engine)

def step (P : Platform F St σ ρ) :
    Mealy.Step (Watched F St σ ρ) (WatchedMove F) (SinkEvent F) := fun w m =>
  match m with
  | .ui c => if c.isReconnect then none else some ({ w with commands := w.commands ++ [c] }, [])
  | .receive a =>
      match w.commands with
      | [] => none
      | c :: commands => engineMove P { w with commands } (.receive c a)
  | .engine m => if m.isReceive then none else engineMove P w m
  | .global id props =>
      match w.watcher.phase with
      | .idle => some ({ w with watcher := w.watcher.global id props }, [])
      | .checking _ | .sending _ | .emitting => none
  | .globalRemove id =>
      match w.watcher.phase with
      | .idle => some ({ w with watcher := w.watcher.globalRemove id }, [])
      | .checking _ | .sending _ | .emitting => none
  | .check order =>
      match w.watcher.phase with
      | .checking _ =>
          if order.Perm w.watcher.devices.keys then
            some ({ w with watcher := w.watcher.check w.world.engine.activeSessionInfo order }, [])
          else none
      | .idle | .sending _ | .emitting => none
  | .send =>
      match w.watcher.phase with
      | .sending monitorId =>
          some ({ w with
            watcher := { w.watcher with phase := .emitting }
            commands := w.commands ++ [.reconnect monitorId] }, [])
      | .idle | .checking _ | .emitting => none
  | .emit order =>
      match w.watcher.phase with
      | .emitting =>
          if order.Perm w.watcher.devices.keys then
            some ({ w with watcher := { w.watcher with phase := .idle } },
              [.onDevicesChanged (w.watcher.emitDevicesChanged order)])
          else none
      | .idle | .checking _ | .sending _ => none

/-- A step of the two, with what it comes from. -/
inductive Turn (P : Platform F St σ ρ) (w : Watched F St σ ρ) :
    WatchedMove F → Watched F St σ ρ → List (SinkEvent F) → Prop
  | ui {c} (h : c.isReconnect = false) :
      Turn P w (.ui c) { w with commands := w.commands ++ [c] } []
  | receive {c commands} (h : w.commands = c :: commands) (hd : w.world.doing = .idle)
      (a : CaptureAnswers) :
      Turn P w (.receive a) { w with world := (w.world.receive a c).1, commands }
        ((w.world.receive a c).2.map .engine)
  | engine {m world evs} (hm : m.isReceive = false) (h : World.Turn P w.world m world evs) :
      Turn P w (.engine m) { w with world } (evs.map .engine)
  | global (h : w.watcher.phase = .idle) (id : ℕ) (props : List (String × String)) :
      Turn P w (.global id props) { w with watcher := w.watcher.global id props } []
  | globalRemove (h : w.watcher.phase = .idle) (id : ℕ) :
      Turn P w (.globalRemove id) { w with watcher := w.watcher.globalRemove id } []
  | check {entry order} (h : w.watcher.phase = .checking entry)
      (ho : order.Perm w.watcher.devices.keys) :
      Turn P w (.check order)
        { w with watcher := w.watcher.check w.world.engine.activeSessionInfo order } []
  | send {monitorId} (h : w.watcher.phase = .sending monitorId) :
      Turn P w .send
        { w with
          watcher := { w.watcher with phase := .emitting }
          commands := w.commands ++ [.reconnect monitorId] } []
  | emit {order} (h : w.watcher.phase = .emitting) (ho : order.Perm w.watcher.devices.keys) :
      Turn P w (.emit order) { w with watcher := { w.watcher with phase := .idle } }
        [.onDevicesChanged (w.watcher.emitDevicesChanged order)]

theorem turn_of_step {P : Platform F St σ ρ} {w w' : Watched F St σ ρ} {m : WatchedMove F}
    {evs : List (SinkEvent F)} (h : step P w m = some (w', evs)) : Turn P w m w' evs := by
  cases m with
  | ui c =>
      simp only [step] at h
      split at h
      · cases h
      case isFalse hc =>
        cases h
        exact .ui (Bool.not_eq_true _ ▸ hc)
  | receive a =>
      simp only [step] at h
      split at h
      · cases h
      case h_2 c commands hcommands =>
        obtain ⟨⟨world, evs₁⟩, hstep, heq⟩ := Option.map_eq_some_iff.mp h
        cases heq
        cases World.turn_of_step hstep with
        | receive hd => exact .receive hcommands hd a
  | engine m =>
      simp only [step] at h
      split at h
      · cases h
      case isFalse hm =>
        obtain ⟨⟨world, evs₁⟩, hstep, heq⟩ := Option.map_eq_some_iff.mp h
        cases heq
        exact .engine (Bool.not_eq_true _ ▸ hm) (World.turn_of_step hstep)
  | global id props =>
      simp only [step] at h
      split at h
      case h_1 hidle =>
        cases h
        exact .global hidle id props
      all_goals cases h
  | globalRemove id =>
      simp only [step] at h
      split at h
      case h_1 hidle =>
        cases h
        exact .globalRemove hidle id
      all_goals cases h
  | check order =>
      simp only [step] at h
      split at h
      case h_1 entry hchecking =>
        split at h
        case isTrue ho =>
          cases h
          exact .check hchecking ho
        case isFalse => cases h
      all_goals cases h
  | send =>
      simp only [step] at h
      split at h
      case h_1 monitorId hsending =>
        cases h
        exact .send hsending
      all_goals cases h
  | emit order =>
      simp only [step] at h
      split at h
      case h_1 hemitting =>
        split at h
        case isTrue ho =>
          cases h
          exact .emit hemitting ho
        case isFalse => cases h
      all_goals cases h

end Watched

end Larmindon
