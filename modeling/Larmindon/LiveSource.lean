/-
# `LiveSource` — which capture a `Reconnect` stops

The watcher decides on a `Reconnect` when the device captured is removed.  The
engine applies it later, to whatever it captures then: the command names the
device to go to, not the one to leave.  So a `Start` that the engine takes in
between, on a device that is there, is undone (`reconnect_steals`).

A `Reconnect` is due when it is the next command that ends a capture, of those
in the channel and the one the watcher is about to send.  A device is gone when
it has been removed from the map and is not in it.  The invariant is that what
is captured while a `Reconnect` is due is gone (`Safe`); four moves can break it:

    a capture begins       on a device that is not gone, with a `Reconnect` due
    a global appears       of the device captured, with a `Reconnect` due
    the watcher decides    and the device captured is in the map a second time
    the watcher decides    and the engine just switches to a device never removed

In every run without these, a `Reconnect` stops the capture of a device that is
gone (`reconnect_stops_gone`).
-/
import Larmindon.Coherence
import Larmindon.Watcher

namespace Larmindon

variable {F St σ ρ : Type}

/-! ## The device captured -/

namespace World

/-- The device captured: by the stream the engine holds, or by the one it just started. -/
def capturing (w : World F St σ ρ) : Option String :=
  match w.doing with
  | .spawning _ _ stream | .switching stream => some stream.deviceId
  | .idle | .joining _ | .starting _ _ => w.engine.activeStream.map (·.deviceId)

/-- The engine is about to say in the session info what it captures. -/
def switches (w : World F St σ ρ) : Bool :=
  match w.doing with
  | .switching _ => true
  | .idle | .joining _ | .starting _ _ | .spawning _ _ _ => false

/-- The device that a move begins to capture. -/
def opens (w : World F St σ ρ) : Move F → Option String
  | .receive (.reconnect deviceId) a =>
      match w.engine.activeBuffer, a.start with
      | some _, .ok _ => some deviceId
      | _, _ => none
  | .openCapture a =>
      match w.doing with
      | .starting deviceId _ =>
          match AudioEngine.openCapture deviceId a with
          | .ok (_, stream) => some stream.deviceId
          | .error _ => none
      | .idle | .joining _ | .spawning _ _ _ | .switching _ => none
  | _ => none

end World

/-- What the session info says of the capture, wherever the engine stands. -/
inductive AudioEngine.Named (e : AudioEngine F St σ ρ) : Doing F → Prop
  | idle (h : ∀ stream, e.activeStream = some stream →
      e.activeSessionInfo.deviceId = some stream.deviceId) : Named e .idle
  | joining {next} (h : e.activeStream = none) : Named e (.joining next)
  | starting {deviceId settings} (h : e.activeStream = none)
      (hi : e.activeSessionInfo.deviceId = none) : Named e (.starting deviceId settings)
  | spawning {settings info stream} (h : info.deviceId = some stream.deviceId)
      (hi : e.activeSessionInfo.deviceId = none) : Named e (.spawning settings info stream)
  | switching {stream} : Named e (.switching stream)

/-- Where nothing is captured, the session info may say anything. -/
theorem AudioEngine.Named.idle_of_none {e : AudioEngine F St σ ρ} (h : e.activeStream = none) :
    e.Named .idle := by
  refine .idle ?_
  intro stream hstream
  rw [h] at hstream
  cases hstream

namespace World

/-- Except for a device that the engine just switches to, the session info names what is captured. -/
theorem capturing_named {w : World F St σ ρ} (h : w.engine.Named w.doing) {d : String}
    (hd : w.capturing = some d) (hs : w.switches = false)
    (hi : w.engine.activeSessionInfo.deviceId ≠ none) :
    w.engine.activeSessionInfo.deviceId = some d := by
  obtain ⟨engine, doing, ids⟩ := w
  cases h with
  | idle h =>
      obtain ⟨stream, hstream, rfl⟩ := Option.map_eq_some_iff.mp hd
      exact h stream hstream
  | joining h =>
      obtain ⟨stream, hstream, -⟩ := Option.map_eq_some_iff.mp hd
      rw [h] at hstream
      cases hstream
  | starting _ hnone => exact absurd hnone hi
  | spawning _ hnone => exact absurd hnone hi
  | switching => cases hs

theorem named_receive {w : World F St σ ρ} (h : w.engine.Named .idle) (hd : w.doing = .idle)
    (c : Command F) (a : CaptureAnswers) :
    (w.receive a c).1.engine.Named (w.receive a c).1.doing := by
  cases h with
  | idle h =>
      cases c with
      | listDevices =>
          show w.engine.Named w.doing
          rw [hd]
          exact .idle h
      | start deviceId settings => exact .joining rfl
      | stop => exact .joining rfl
      | updateSettings settings =>
          show (w.engine.updateSettings settings).Named w.doing
          rw [hd]
          exact .idle h
      | reconnect deviceId =>
          rw [receive]
          split
          · rw [hd]
            exact .idle h
          · split
            · exact .switching
            · show w.engine.dropCapture.Named w.doing
              rw [hd]
              exact .idle_of_none rfl

/-- What is captured behind a command. -/
theorem capturing_receive {w : World F St σ ρ} (hd : w.doing = .idle) (c : Command F)
    (a : CaptureAnswers) {d : String} (h : (w.receive a c).1.capturing = some d) :
    (w.capturing = some d ∧ (c = .listDevices ∨ (∃ s, c = .updateSettings s) ∨
      ∃ deviceId, c = .reconnect deviceId)) ∨ w.opens (.receive c a) = some d := by
  obtain ⟨engine, doing, ids⟩ := w
  obtain rfl : doing = .idle := hd
  cases c with
  | listDevices => exact .inl ⟨h, .inl rfl⟩
  | start deviceId settings => cases h
  | stop => cases h
  | updateSettings settings => exact .inl ⟨h, .inr (.inl ⟨settings, rfl⟩)⟩
  | reconnect deviceId =>
      rw [receive] at h
      simp only at h
      split at h
      · exact .inl ⟨h, .inr (.inr ⟨deviceId, rfl⟩)⟩
      case h_2 hbuffer =>
        split at h
        case h_1 metadata hm =>
          right
          simp only [opens, hbuffer, hm]
          exact h
        · cases h

variable [F32 F]

theorem named_turn {P : Platform F St σ ρ} {w w' : World F St σ ρ} {m : Move F}
    {evs : List (EngineEvent F)} (ht : Turn P w m w' evs) (h : w.engine.Named w.doing) :
    w'.engine.Named w'.doing := by
  cases ht with
  | receive hd c a => exact named_receive (hd ▸ h) hd c a
  | @join next _ _ hd hj =>
      rw [hd] at h
      obtain ⟨-, cachedBackend, cachedBackendId, cachedVad, rfl, -⟩ := AudioEngine.join_spec hj
      cases h with
      | joining h =>
          cases next with
          | none => exact .idle_of_none h
          | some s => exact .starting h rfl
  | opened hd ho =>
      rw [hd] at h
      cases h with
      | starting h hi => exact .spawning (AudioEngine.openCapture_info ho) hi
  | failed hd =>
      rw [hd] at h
      cases h with
      | starting h => exact .idle_of_none h
  | spawn hd =>
      rw [hd] at h
      cases h with
      | spawning h =>
          refine .idle ?_
          intro stream hstream
          cases hstream
          exact h
  | switchSource hd a =>
      refine .idle ?_
      intro stream hstream
      cases hstream
      rfl
  | thread _ hturn =>
      show AudioEngine.Named _ w.doing
      generalize w.doing = doing at h ⊢
      cases h with
      | idle h => exact .idle h
      | joining h => exact .joining h
      | starting h hi => exact .starting h hi
      | spawning h hi => exact .spawning h hi
      | switching => exact .switching

/-- Behind any other move, what is captured was captured before, or begins to be. -/
theorem capturing_turn {P : Platform F St σ ρ} {w w' : World F St σ ρ} {m : Move F}
    {evs : List (EngineEvent F)} (ht : Turn P w m w' evs) (hm : m.isReceive = false) {d : String}
    (h : w'.capturing = some d) : w.capturing = some d ∨ w.opens m = some d := by
  obtain ⟨engine, doing, ids⟩ := w
  cases ht with
  | receive => cases hm
  | @join next _ _ hd hj =>
      obtain rfl : doing = .joining next := hd
      obtain ⟨-, cachedBackend, cachedBackendId, cachedVad, rfl, -⟩ := AudioEngine.join_spec hj
      left
      cases next with
      | none => exact h
      | some s => exact h
  | @opened deviceId settings info stream a hd ho =>
      obtain rfl : doing = .starting deviceId settings := hd
      right
      simp only [opens, ho]
      exact h
  | @failed deviceId settings a hd =>
      obtain rfl : doing = .starting deviceId settings := hd
      exact .inl h
  | @spawn settings info stream hd =>
      obtain rfl : doing = .spawning settings info stream := hd
      exact .inl h
  | @switchSource stream hd a =>
      obtain rfl : doing = .switching stream := hd
      exact .inl h
  | thread =>
      left
      cases doing <;> exact h

end World

/-! ## The device map -/

namespace Watcher

/-- What holds of an entry of the map holds of what is found under its id. -/
theorem exists_entries_iff (w : Watcher) (p : DeviceEntry → Prop) :
    (∃ e ∈ w.devices.entries, p e.2) ↔ ∃ id entry, w.devices.lookup id = some entry ∧ p entry := by
  constructor
  · rintro ⟨⟨id, entry⟩, he, hp⟩
    exact ⟨id, entry, AList.mem_lookup_iff.mpr he, hp⟩
  · rintro ⟨id, entry, he, hp⟩
    exact ⟨⟨id, entry⟩, AList.mem_lookup_iff.mp he, hp⟩

instance (w : Watcher) (d : String) : Decidable (w.Holds d) :=
  decidable_of_iff (∃ e ∈ w.devices.entries, e.2.device.id = d)
    (w.exists_entries_iff fun entry => entry.device.id = d)

instance (w : Watcher) (d : String) : Decidable (w.Gone d) :=
  decidable_of_iff (d ∈ w.removed ∧ ¬ w.Holds d)
    ⟨fun h => ⟨h.1, h.2⟩, fun h => ⟨h.removed, h.absent⟩⟩

theorem Gone.globalRemove {w : Watcher} {d : String} (h : w.Gone d) (id : ℕ) :
    (w.globalRemove id).Gone d := by
  refine ⟨List.mem_append_left _ h.removed, ?_⟩
  rintro ⟨id', entry, he, hd⟩
  rcases eq_or_ne id' id with rfl | hne
  · rw [Watcher.globalRemove, AList.lookup_erase] at he
    cases he
  · rw [Watcher.globalRemove, AList.lookup_erase_ne hne] at he
    exact h.absent ⟨id', entry, he, hd⟩

/-- A device stays gone when another one appears. -/
theorem Gone.global {w : Watcher} {d : String} (h : w.Gone d) {id : ℕ}
    {props : List (String × String)} (hne : ∀ device ∈ deviceFromProps id props, device.id ≠ d) :
    (w.global id props).Gone d := by
  rw [Watcher.global]
  split
  · exact h
  case h_2 device hdevice =>
    refine ⟨List.mem_append_left _ h.removed, ?_⟩
    rintro ⟨id', entry, he, hd⟩
    rcases eq_or_ne id' id with rfl | hid
    · rw [AList.lookup_insert] at he
      cases he
      exact hne device hdevice hd
    · rw [AList.lookup_insert_ne hid] at he
      exact h.absent ⟨id', entry, he, hd⟩

theorem removed_of_checking {w : Watcher} {id : ℕ} {entry : DeviceEntry}
    (h : (w.globalRemove id).phase = .checking entry) :
    entry.device.id ∈ (w.globalRemove id).removed := by
  simp only [Watcher.globalRemove] at h ⊢
  split at h
  case h_1 entry' hlookup =>
    cases h
    exact List.mem_append_right _ (by rw [leaves, hlookup]; exact List.mem_singleton_self _)
  · cases h

end Watcher

/-! ## A `Reconnect` that is due -/

/-- The watcher is about to send a `Reconnect`. -/
def WatcherPhase.sends : WatcherPhase → Bool
  | .sending _ => true
  | .idle | .checking _ | .emitting => false

/-- Of the commands in the channel, and the `Reconnect` that is about to be sent if there is one, the
first that ends a capture is a `Reconnect`. -/
def awaitsReconnect (sends : Bool) : List (Command F) → Bool
  | [] => sends
  | .reconnect _ :: _ => true
  | .start _ _ :: _ | .stop :: _ => false
  | .listDevices :: cs | .updateSettings _ :: cs => awaitsReconnect sends cs

/-- A command of the UI makes no `Reconnect` due. -/
theorem awaitsReconnect_ui {sends : Bool} {c : Command F} (hc : c.isReconnect = false)
    {cs : List (Command F)} (h : awaitsReconnect sends (cs ++ [c]) = true) :
    awaitsReconnect sends cs = true := by
  induction cs with
  | nil =>
      cases c with
      | reconnect deviceId => cases hc
      | start deviceId settings => cases h
      | stop => cases h
      | listDevices => exact h
      | updateSettings settings => exact h
  | cons c' cs ih =>
      cases c' with
      | reconnect deviceId => rfl
      | start deviceId settings => exact h
      | stop => exact h
      | listDevices => exact ih h
      | updateSettings settings => exact ih h

/-- Sending the `Reconnect` changes nothing. -/
theorem awaitsReconnect_send (deviceId : String) (cs : List (Command F)) :
    awaitsReconnect false (cs ++ [.reconnect deviceId]) = awaitsReconnect true cs := by
  induction cs with
  | nil => rfl
  | cons c cs ih =>
      cases c with
      | reconnect deviceId => rfl
      | start deviceId settings => rfl
      | stop => rfl
      | listDevices => exact ih
      | updateSettings settings => exact ih

namespace Watched

def reconnectDue (w : Watched F St σ ρ) : Bool :=
  awaitsReconnect w.watcher.phase.sends w.commands

/-- None of the moves that make a `Reconnect` due for the capture of a device that is not gone. -/
def Undisturbed (w : Watched F St σ ρ) : WatchedMove F → Prop
  | .receive a => awaitsReconnect w.watcher.phase.sends w.commands.tail = true →
      ∀ c ∈ w.commands.head?, ∀ d ∈ w.world.opens (.receive c a), w.watcher.Gone d
  | .engine m => w.reconnectDue = true → ∀ d ∈ w.world.opens m, w.watcher.Gone d
  | .global id props => w.reconnectDue = true →
      ∀ device ∈ deviceFromProps id props, w.world.capturing ≠ some device.id
  | .check order => (w.watcher.decide w.world.engine.activeSessionInfo order).isSome →
      awaitsReconnect true w.commands = true → ∀ d ∈ w.world.capturing,
        ¬ w.watcher.Holds d ∧ (w.world.switches = true → d ∈ w.watcher.removed)
  | .ui _ | .globalRemove _ | .send | .emit _ => True

instance (w : Watched F St σ ρ) : ∀ m, Decidable (w.Undisturbed m)
  | .receive _ | .engine _ | .global _ _ => inferInstanceAs (Decidable (_ → _))
  | .check _ => inferInstanceAs (Decidable (_ → _ → _))
  | .ui _ | .globalRemove _ | .send | .emit _ => isTrue trivial

/-- While a `Reconnect` is due, what is captured is gone. -/
structure Safe (w : Watched F St σ ρ) : Prop where
  named : w.world.engine.Named w.world.doing
  checked : ∀ entry, w.watcher.phase = .checking entry → entry.device.id ∈ w.watcher.removed
  gone : w.reconnectDue = true → ∀ d, w.world.capturing = some d → w.watcher.Gone d

/-- The watcher goes on, and no `Reconnect` becomes due. -/
theorem Safe.goesOn {w : Watched F St σ ρ} (h : w.Safe) {phase : WatcherPhase}
    {commands : List (Command F)} (hphase : ∀ entry, phase ≠ .checking entry)
    (hdue : awaitsReconnect phase.sends commands = true → w.reconnectDue = true) :
    Safe { w with watcher := { w.watcher with phase }, commands } := by
  refine ⟨h.named, fun entry he => absurd he (hphase entry), ?_⟩
  intro hd d hcapturing
  obtain ⟨hremoved, habsent⟩ := h.gone (hdue hd) d hcapturing
  exact ⟨hremoved, habsent⟩

/-- What the watcher decides on, it decides for the device that it just removed. -/
theorem Safe.removed_of_decide {w : Watched F St σ ρ} (h : w.Safe) {info : ActiveSessionInfo}
    {order : List ℕ} (hd : (w.watcher.decide info order).isSome) :
    ∃ d ∈ w.watcher.removed, info.deviceId = some d := by
  rw [Watcher.decide] at hd
  split at hd
  case h_1 entry hentry =>
    split at hd
    case isTrue hinfo => exact ⟨_, h.checked entry hentry, hinfo⟩
    case isFalse => cases hd
  all_goals cases hd

/-- A watcher that is between two decisions. -/
theorem phase_globalRemove (w : Watcher) (id : ℕ) : (w.globalRemove id).phase.sends = false := by
  rw [Watcher.globalRemove]
  cases w.devices.lookup id <;> rfl

theorem phase_global {w : Watcher} (h : w.phase = .idle) (id : ℕ) (props : List (String × String)) :
    (w.global id props).phase.sends = false ∧ ∀ entry, (w.global id props).phase ≠ .checking entry := by
  rw [Watcher.global]
  split
  · rw [h]
    exact ⟨rfl, fun entry he => by cases he⟩
  · exact ⟨rfl, fun entry he => by cases he⟩

theorem Safe.receive {w : Watched F St σ ρ} (h : w.Safe) {c : Command F} {commands : List (Command F)}
    (hq : w.commands = c :: commands) (hd : w.world.doing = .idle) {a : CaptureAnswers}
    (hc : w.Undisturbed (.receive a)) :
    Safe { w with world := (w.world.receive a c).1, commands } := by
  refine ⟨World.named_receive (hd ▸ h.named) hd c a, h.checked, ?_⟩
  intro hdue d hcapturing
  rcases World.capturing_receive hd c a hcapturing with ⟨hbefore, hcommand⟩ | hopens
  · refine h.gone ?_ d hbefore
    rw [reconnectDue, hq]
    rcases hcommand with rfl | ⟨s, rfl⟩ | ⟨deviceId, rfl⟩
    · exact hdue
    · exact hdue
    · rfl
  · refine hc ?_ c ?_ d hopens
    · rw [hq]
      exact hdue
    · rw [hq]
      rfl

theorem Safe.check {w : Watched F St σ ρ} (h : w.Safe) {entry : DeviceEntry}
    (hentry : w.watcher.phase = .checking entry) {order : List ℕ}
    (hc : w.Undisturbed (.check order)) :
    Safe { w with watcher := w.watcher.check w.world.engine.activeSessionInfo order } := by
  cases hdecide : w.watcher.decide w.world.engine.activeSessionInfo order with
  | none =>
      rw [Watcher.check, hdecide]
      refine h.goesOn (fun entry' he => by cases he) ?_
      intro hdue
      rw [reconnectDue, hentry]
      exact hdue
  | some monitorId =>
      have hphase : (w.watcher.check w.world.engine.activeSessionInfo order).phase =
          .sending monitorId := by
        rw [Watcher.check, hdecide]
      refine ⟨h.named, ?_, ?_⟩
      · intro entry' he
        rw [hphase] at he
        cases he
      · intro hdue d hcapturing
        rw [reconnectDue, hphase] at hdue
        have hsome : (w.watcher.decide w.world.engine.activeSessionInfo order).isSome := by
          rw [hdecide]
          rfl
        obtain ⟨habsent, hswitches⟩ := hc hsome hdue d hcapturing
        refine ⟨?_, habsent⟩
        cases hs : w.world.switches with
        | true => exact hswitches hs
        | false =>
            -- the session info names what is captured, and it names the device just removed
            obtain ⟨d', hremoved, hinfo⟩ := h.removed_of_decide hsome
            have hnamed := World.capturing_named h.named hcapturing hs (by
              rw [hinfo]
              exact Option.some_ne_none d')
            rw [hinfo] at hnamed
            cases hnamed
            exact hremoved

variable [F32 F]

/-- Every move but the four. -/
theorem Safe.turn {P : Platform F St σ ρ} {w w' : Watched F St σ ρ} {m : WatchedMove F}
    {evs : List (SinkEvent F)} (h : w.Safe) (hc : w.Undisturbed m) (ht : Turn P w m w' evs) :
    w'.Safe := by
  cases ht with
  | ui hui => exact ⟨h.named, h.checked, fun hdue => h.gone (awaitsReconnect_ui hui hdue)⟩
  | receive hq hd a => exact h.receive hq hd hc
  | engine hm hturn =>
      refine ⟨World.named_turn hturn h.named, h.checked, ?_⟩
      intro hdue d hcapturing
      rcases World.capturing_turn hturn hm hcapturing with hbefore | hopens
      · exact h.gone hdue d hbefore
      · exact hc hdue d hopens
  | global hidle id props =>
      obtain ⟨hsends, hchecking⟩ := phase_global hidle id props
      refine ⟨h.named, fun entry he => absurd he (hchecking entry), ?_⟩
      intro hdue d hcapturing
      rw [reconnectDue, hsends] at hdue
      have hdue : w.reconnectDue = true := by
        rw [reconnectDue, hidle]
        exact hdue
      refine (h.gone hdue d hcapturing).global ?_
      rintro device hdevice rfl
      exact hc hdue device hdevice hcapturing
  | globalRemove hidle id =>
      refine ⟨h.named, fun entry he => Watcher.removed_of_checking he, ?_⟩
      intro hdue d hcapturing
      rw [reconnectDue, phase_globalRemove] at hdue
      refine (h.gone ?_ d hcapturing).globalRemove id
      rw [reconnectDue, hidle]
      exact hdue
  | check hentry ho => exact h.check hentry hc
  | send hsending =>
      refine h.goesOn (fun entry he => by cases he) ?_
      intro hdue
      rw [reconnectDue, hsending]
      exact (awaitsReconnect_send _ w.commands).symm.trans hdue
  | emit hemitting ho =>
      refine h.goesOn (fun entry he => by cases he) ?_
      intro hdue
      rw [reconnectDue, hemitting]
      exact hdue

/-- A `Reconnect` steals no live source.  In every run of the UI, the watcher and the engine without
a move that makes a `Reconnect` due for the capture of a device that is not gone: when the engine
applies a `Reconnect`, the device it stops capturing has been removed from the watcher's map and is
not in it. -/
theorem reconnect_stops_gone {P : Platform F St σ ρ} {diagEnabled : Bool}
    {moves : List (WatchedMove F)} {w : Watched F St σ ρ} {evs : List (SinkEvent F)}
    (hrun : Mealy.run (step P) (new diagEnabled) moves = some (w, evs))
    (hc : Mealy.Along (step P) Undisturbed (new diagEnabled) moves)
    {deviceId : String} {commands : List (Command F)} {a : CaptureAnswers} {w' : Watched F St σ ρ}
    {evs' : List (SinkEvent F)} (hq : w.commands = .reconnect deviceId :: commands)
    (hstep : step P w (.receive a) = some (w', evs')) {stream : AudioStream}
    (hstream : w.world.engine.activeStream = some stream) : w.watcher.Gone stream.deviceId := by
  have hsafe : w.Safe := by
    refine Mealy.run_along (P := fun _ w _ => w.Safe) ?_ ?_ hc hrun
    · intro is w₁ os m w₂ os' hsafe hm hstep
      exact hsafe.turn hm (turn_of_step hstep)
    · refine ⟨.idle_of_none rfl, ?_, ?_⟩
      · intro entry he
        cases he
      · intro hdue
        cases hdue
  cases turn_of_step hstep with
  | receive _ hd a =>
      refine hsafe.gone ?_ _ ?_
      · rw [reconnectDue, hq]
        rfl
      · rw [World.capturing, hd, hstream]
        rfl

/-! ## Two runs -/

section Runs

open World (still onDevice captures)

/-- An application, a microphone and a sink, by their properties. -/
def player : List (String × String) :=
  [("media.class", "Stream/Output/Audio"), ("object.serial", "41"), ("application.name", "Player")]

def microphone : List (String × String) :=
  [("media.class", "Audio/Source"), ("object.serial", "42"), ("node.name", "alsa_input.usb")]

def speakers : List (String × String) :=
  [("media.class", "Audio/Sink"), ("object.serial", "43"), ("node.name", "alsa_output.pci")]

/-- The registry announces all three. -/
def announced : List (WatchedMove F) :=
  [.global 7 player, .emit [7], .global 8 microphone, .emit [7, 8], .global 9 speakers,
    .emit [7, 8, 9]]

/-- The engine starts a session, on what a `Start` in front of it names. -/
def startsSession : List (WatchedMove F) :=
  [.receive captures, .engine .join, .engine (.openCapture captures), .engine .spawn]

/-- The application that is captured goes away. -/
theorem reconnect_stops_gone_player :
    let moves : List (WatchedMove ℝ) := announced ++
      .ui (.start (some "41") (onDevice 0.5 0.3)) :: startsSession ++
      [.globalRemove 7, .check [9, 8], .send]
    ∃ w evs, Mealy.run (step still) (new true) moves = some (w, evs) ∧
      w.world.engine.activeStream = some ⟨"41", 48000⟩ ∧ w.watcher.Gone "41" := by
  intro moves
  have hrun : Mealy.run (step still) (new true) moves = some (_, _) := rfl
  have hc : Mealy.Along (step still) Undisturbed (new true) moves := by
    decide +kernel
  exact ⟨_, _, hrun, rfl, reconnect_stops_gone (a := captures) hrun hc rfl rfl rfl⟩

/-- The application goes away while a `Start` on the microphone is in the channel: the engine starts
the session on the microphone, and the `Reconnect` takes it away. -/
theorem reconnect_steals :
    ∃ w evs w' evs', Mealy.run (step still) (new true) (announced ++
        .ui (.start (some "41") (onDevice 0.5 0.3)) :: startsSession ++
        [.globalRemove 7, .ui (.start (some "42") (onDevice 0.5 0.3)), .check [9, 8], .send,
          .receive captures, .engine (.thread .panic), .engine .join, .engine (.openCapture captures),
          .engine .spawn]) = some (w, evs) ∧
      w.commands = [.reconnect "43"] ∧ w.world.engine.activeStream = some ⟨"42", 48000⟩ ∧
      step still w (.receive captures) = some (w', evs') ∧ w'.world.engine.activeStream = none ∧
      w.watcher.Holds "42" ∧ ¬ w.watcher.Gone "42" := by
  have hrun : Mealy.run (step still) (new true) (announced ++
      .ui (.start (some "41") (onDevice (0.5 : ℝ) 0.3)) :: startsSession ++
      [.globalRemove 7, .ui (.start (some "42") (onDevice 0.5 0.3)), .check [9, 8], .send,
        .receive captures, .engine (.thread .panic), .engine .join, .engine (.openCapture captures),
        .engine .spawn]) = some (_, _) := rfl
  refine ⟨_, _, _, _, hrun, rfl, rfl, rfl, rfl, ⟨8, _, rfl, rfl⟩, ?_⟩
  intro hgone
  exact hgone.absent ⟨8, _, rfl, rfl⟩

end Runs

end Watched

end Larmindon
