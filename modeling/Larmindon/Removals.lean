/-
# `Removals` — which removals the watcher reacts to

When the device captured is removed, the watcher sends a `Reconnect` to a
monitor, if there is one.  It knows the device captured by the session info, and
the engine writes that only when it has applied the `Reconnect` before.  In the
gap a second removal is lost: of the monitor that the engine is about to go to,
or has just gone to (`removal_lost`).

For a session that a `Reconnect` moved, the device is *followed* when one of
these holds, and the invariant is that it is:

    it is in the map
    no monitor is in the map
    a `Reconnect` is in the channel, or about to be sent
    it was just removed, and the watcher has not yet looked at the session info

Three moves can break it:

    the engine goes to a device that is not followed
    the watcher looks at the session info while the engine switches
    a global appears, and what it leaves is a monitor but not the device captured

The last is no removal at all: a monitor that comes when the device is gone.  In
every run without these, a removal has been answered, or there was no monitor to
answer with (`removals_answered`).  Whether a session was moved is a history
variable (`moves`): no step reads it.
-/
import Larmindon.LiveSource

namespace Larmindon

variable {F St σ ρ : Type}

/-! ## Monitors -/

namespace Watcher

/-- A monitor is in the map. -/
def HasMonitor (w : Watcher) : Prop :=
  ∃ id entry, w.devices.lookup id = some entry ∧ entry.device.deviceType = .monitor

instance (w : Watcher) : Decidable w.HasMonitor :=
  decidable_of_iff (∃ e ∈ w.devices.entries, e.2.device.deviceType = .monitor)
    (w.exists_entries_iff fun entry => entry.device.deviceType = .monitor)

/-- Without the entry under an id. -/
def without (w : Watcher) (id : ℕ) : Watcher := { w with devices := w.devices.erase id }

theorem lookup_without {w : Watcher} {id id' : ℕ} {entry : DeviceEntry} :
    (w.without id).devices.lookup id' = some entry ↔
      id' ≠ id ∧ w.devices.lookup id' = some entry := by
  rcases eq_or_ne id' id with rfl | hne
  · simp [without]
  · simp [without, AList.lookup_erase_ne hne, hne]

/-- An order of the ids gives every entry. -/
theorem mem_values {w : Watcher} {order : List ℕ} (ho : order.Perm w.devices.keys) {id : ℕ}
    {entry : DeviceEntry} (h : w.devices.lookup id = some entry) : entry ∈ w.values order := by
  refine List.mem_filterMap.mpr ⟨id, ?_, h⟩
  refine ho.mem_iff.mpr (AList.mem_keys.mp (AList.lookup_isSome.mp ?_))
  rw [h]
  rfl

theorem fallbackMonitor_none {defaultSinkName : Option String} {entries : List DeviceEntry}
    (h : fallbackMonitor defaultSinkName entries = none) :
    ∀ e ∈ entries, e.device.deviceType ≠ .monitor := by
  intro e he hmonitor
  have hany := (Option.or_eq_none_iff.mp (Option.map_eq_none_iff.mp h)).2
  exact List.find?_eq_none.mp hany e he (decide_eq_true hmonitor)

/-- Deciding on nothing for the device that the session info names: there is no monitor. -/
theorem no_monitor_of_decide {w : Watcher} {entry : DeviceEntry} (h : w.phase = .checking entry)
    {info : ActiveSessionInfo} (hinfo : info.deviceId = some entry.device.id) {order : List ℕ}
    (ho : order.Perm w.devices.keys) (hd : w.decide info order = none) : ¬ w.HasMonitor := by
  rintro ⟨id, e, he, hmonitor⟩
  rw [decide, h] at hd
  simp only [hinfo, if_true] at hd
  exact fallbackMonitor_none hd e (mem_values ho he) hmonitor

end Watcher

/-- The watcher has just removed the device, and has not yet looked at the session info. -/
def WatcherPhase.checks (deviceId : String) : WatcherPhase → Bool
  | .checking entry => entry.device.id = deviceId
  | .idle | .sending _ | .emitting => false

/-! ## The stream and the buffer -/

namespace World

/-- A stream that is held, or just started, has a buffer to fill. -/
structure Backed (w : World F St σ ρ) : Prop where
  held : ∀ stream, w.engine.activeStream = some stream → w.engine.activeBuffer.isSome
  started : w.switches = true → w.engine.activeBuffer.isSome

theorem Backed.of_activeStream_none {w : World F St σ ρ} (h : w.engine.activeStream = none)
    (hs : w.switches = false) : w.Backed := by
  refine ⟨?_, ?_⟩
  · intro stream hstream
    rw [h] at hstream
    cases hstream
  · intro hswitches
    rw [hs] at hswitches
    cases hswitches

theorem Backed.receive {w : World F St σ ρ} (h : w.Backed) (hd : w.doing = .idle) (c : Command F)
    (a : CaptureAnswers) : (w.receive a c).1.Backed := by
  obtain ⟨engine, doing, ids⟩ := w
  obtain rfl : doing = .idle := hd
  cases c with
  | listDevices => exact h
  | start deviceId settings => exact .of_activeStream_none rfl rfl
  | stop => exact .of_activeStream_none rfl rfl
  | updateSettings settings => exact ⟨h.held, h.started⟩
  | reconnect deviceId =>
      rw [World.receive]
      cases hbuffer : engine.activeBuffer with
      | none => exact h
      | some buffer =>
          cases hstart : a.start with
          | error e => exact .of_activeStream_none rfl rfl
          | ok metadata =>
              refine ⟨by rintro stream ⟨⟩, ?_⟩
              intro _
              show engine.activeBuffer.isSome
              rw [hbuffer]
              rfl

theorem Backed.turn [F32 F] {P : Platform F St σ ρ} {w w' : World F St σ ρ} {m : Move F}
    {evs : List (EngineEvent F)} (h : w.Backed) (hn : w.engine.Named w.doing)
    (ht : Turn P w m w' evs) : w'.Backed := by
  obtain ⟨engine, doing, ids⟩ := w
  cases ht with
  | receive hd c a => exact h.receive hd c a
  | @join next _ _ hd hj =>
      obtain rfl : doing = .joining next := hd
      obtain ⟨-, cachedBackend, cachedBackendId, cachedVad, rfl, -⟩ := AudioEngine.join_spec hj
      cases hn with
      | joining hnone => cases next <;> exact .of_activeStream_none hnone rfl
  | opened hd ho => exact ⟨h.held, by rintro ⟨⟩⟩
  | failed hd message => exact ⟨h.held, by rintro ⟨⟩⟩
  | spawn hd => exact ⟨fun _ _ => rfl, by rintro ⟨⟩⟩
  | @switchSource stream hd a =>
      obtain rfl : doing = .switching stream := hd
      exact ⟨fun _ _ => h.started rfl, by rintro ⟨⟩⟩
  | thread ht hturn => exact ⟨h.held, h.started⟩

/-- Behind a `Reconnect`, something is captured only where the `Reconnect` began to capture it. -/
theorem opens_of_reconnect {w : World F St σ ρ} (h : w.Backed) (hd : w.doing = .idle)
    {deviceId : String} {a : CaptureAnswers} {d : String}
    (hc : (w.receive a (.reconnect deviceId)).1.capturing = some d) :
    w.opens (.receive (.reconnect deviceId) a) = some d := by
  obtain ⟨engine, doing, ids⟩ := w
  obtain rfl : doing = .idle := hd
  rw [receive] at hc
  rw [opens]
  cases hbuffer : engine.activeBuffer with
  | none =>
      simp only [hbuffer] at hc
      obtain ⟨stream, hstream, -⟩ := Option.map_eq_some_iff.mp hc
      have hsome := h.held stream hstream
      rw [hbuffer] at hsome
      cases hsome
  | some buffer =>
      simp only [hbuffer] at hc ⊢
      cases hstart : a.start with
      | error e =>
          rw [hstart] at hc
          cases hc
      | ok metadata =>
          rw [hstart] at hc
          exact hc

end World

namespace Watched

/-! ## Sessions that were moved, and devices that are followed -/

/-- Whether the capture was last begun by a `Reconnect`. -/
def moves (w : Watched F St σ ρ) (m : WatchedMove F) (moved : Bool) : Bool :=
  match m with
  | .receive a => moved || w.commands.head?.any fun c => (w.world.opens (.receive c a)).isSome
  | .engine m => moved && (w.world.opens m).isNone
  | .ui _ | .global _ _ | .globalRemove _ | .check _ | .send | .emit _ => moved

/-- A `Reconnect` is in the channel, or about to be sent. -/
def reconnectPending (w : Watched F St σ ρ) : Bool :=
  w.watcher.phase.sends || w.commands.any (·.isReconnect)

/-- The device is in the map, or there is no monitor, or a `Reconnect` comes; or the watcher is about
to look whether the device that it removed is this one. -/
def Followed (w : Watched F St σ ρ) (d : String) : Prop :=
  w.watcher.Holds d ∨ ¬ w.watcher.HasMonitor ∨ w.reconnectPending = true ∨
    w.watcher.phase.checks d = true

instance (w : Watched F St σ ρ) (d : String) : Decidable (w.Followed d) :=
  inferInstanceAs (Decidable (_ ∨ _))

/-- None of the moves that leave the device of a moved session without being followed. -/
def Notices (s : Watched F St σ ρ × Bool) : WatchedMove F → Prop
  | .receive a => ∀ c ∈ s.1.commands.head?, ∀ d ∈ s.1.world.opens (.receive c a),
      Followed { s.1 with commands := s.1.commands.tail } d
  | .check _ => ∀ d ∈ s.1.world.capturing, s.1.world.switches = true →
      s.1.watcher.phase.checks d = true → s.1.world.engine.activeSessionInfo.deviceId = some d ∨
        s.1.watcher.Holds d ∨ ¬ s.1.watcher.HasMonitor ∨ s.1.commands.any (·.isReconnect) = true
  | .global id props => s.2 = true → ∀ d ∈ s.1.world.capturing, ∀ device ∈ deviceFromProps id props,
      s.1.commands.any (·.isReconnect) = true ∨ device.id = d ∨ (s.1.watcher.without id).Holds d ∨
        device.deviceType ≠ .monitor ∧ ¬ (s.1.watcher.without id).HasMonitor
  | .ui _ | .engine _ | .globalRemove _ | .send | .emit _ => True

instance (s : Watched F St σ ρ × Bool) : ∀ m, Decidable (Notices s m)
  | .receive _ | .check _ => inferInstanceAs (Decidable (∀ _ ∈ _, _))
  | .global _ _ => inferInstanceAs (Decidable (_ → _))
  | .ui _ | .engine _ | .globalRemove _ | .send | .emit _ => isTrue trivial

/-- The device of a moved session is followed. -/
structure Tended (s : Watched F St σ ρ × Bool) : Prop where
  named : s.1.world.engine.Named s.1.world.doing
  backed : s.1.world.Backed
  fresh : ∀ settings info stream, s.1.world.doing = .spawning settings info stream → s.2 = false
  followed : s.2 = true → ∀ d, s.1.world.capturing = some d → s.1.Followed d

/-! ## What the moves of the watcher leave followed -/

/-- With the watcher between two events, a device is followed for one of three reasons. -/
theorem Followed.idle {w : Watched F St σ ρ} {d : String} (h : w.Followed d)
    (hp : w.watcher.phase = .idle) :
    w.watcher.Holds d ∨ ¬ w.watcher.HasMonitor ∨ w.commands.any (·.isReconnect) = true := by
  rcases h with hholds | hnone | hpending | hchecks
  · exact .inl hholds
  · exact .inr (.inl hnone)
  · rw [reconnectPending, hp] at hpending
    exact .inr (.inr hpending)
  · rw [hp] at hchecks
    cases hchecks

/-- What leaves the map as it is, and keeps what the watcher and the channel have of a device. -/
theorem Followed.mono {w w' : Watched F St σ ρ} {d : String} (h : w.Followed d)
    (hdevices : w'.watcher.devices = w.watcher.devices)
    (hpending : w.reconnectPending = true → w'.reconnectPending = true)
    (hchecks : w.watcher.phase.checks d = true → w'.watcher.phase.checks d = true) :
    w'.Followed d := by
  rw [Followed, Watcher.Holds, Watcher.HasMonitor, hdevices]
  exact h.imp_right (Or.imp_right (Or.imp hpending hchecks))

theorem Followed.of_commands {w : Watched F St σ ρ} {d : String}
    (h : w.commands.any (·.isReconnect) = true) : w.Followed d := by
  refine .inr (.inr (.inl ?_))
  rw [reconnectPending, h, Bool.or_true]

/-- A removal: either of an entry of the device, and the watcher is about to look, or of another. -/
theorem Followed.globalRemove {w : Watched F St σ ρ} {d : String} (h : w.Followed d)
    (hp : w.watcher.phase = .idle) (id : ℕ) :
    Followed { w with watcher := w.watcher.globalRemove id } d := by
  have hlookup {id' : ℕ} {entry : DeviceEntry} :
      (w.watcher.globalRemove id).devices.lookup id' = some entry ↔
        id' ≠ id ∧ w.watcher.devices.lookup id' = some entry := Watcher.lookup_without
  rcases h.idle hp with ⟨id', entry, hentry, hd⟩ | hnone | hcommands
  · rcases eq_or_ne id' id with rfl | hne
    · refine .inr (.inr (.inr ?_))
      have hphase : (w.watcher.globalRemove id').phase = .checking entry := by
        rw [Watcher.globalRemove, hentry]
      show (w.watcher.globalRemove id').phase.checks d = true
      rw [hphase]
      exact decide_eq_true hd
    · exact .inl ⟨id', entry, hlookup.mpr ⟨hne, hentry⟩, hd⟩
  · refine .inr (.inl ?_)
    rintro ⟨id', entry, hentry, hmonitor⟩
    exact hnone ⟨id', entry, (hlookup.mp hentry).2, hmonitor⟩
  · exact .of_commands hcommands

theorem Followed.global {s : Watched F St σ ρ × Bool} (h : s.2 = true) {d : String}
    (hc : s.1.world.capturing = some d) (hf : s.1.Followed d) {id : ℕ}
    {props : List (String × String)} (hn : Notices s (.global id props)) :
    Followed { s.1 with watcher := s.1.watcher.global id props } d := by
  rcases s with ⟨w, moved⟩
  cases hdevice : deviceFromProps id props with
  | none =>
      have hsame : w.watcher.global id props = w.watcher := by
        rw [Watcher.global, hdevice]
      rw [hsame]
      exact hf
  | some device =>
      have hglobal : (w.watcher.global id props).devices =
          w.watcher.devices.insert id ⟨device, props.lookup "node.name"⟩ := by
        rw [Watcher.global, hdevice]
      have hother {id' : ℕ} {entry : DeviceEntry} (hne : id' ≠ id) :
          (w.watcher.global id props).devices.lookup id' = some entry ↔
            (w.watcher.without id).devices.lookup id' = some entry := by
        rw [hglobal, AList.lookup_insert_ne hne, Watcher.lookup_without]
        exact (and_iff_right hne).symm
      have hnew : (w.watcher.global id props).devices.lookup id =
          some ⟨device, props.lookup "node.name"⟩ := by
        rw [hglobal, AList.lookup_insert]
      rcases hn h d hc device hdevice with hcommands | hd | ⟨id', entry, hentry, hd⟩ | ⟨htype, hnone⟩
      · exact .of_commands hcommands
      · exact .inl ⟨id, _, hnew, hd⟩
      · have hne := (Watcher.lookup_without.mp hentry).1
        exact .inl ⟨id', entry, (hother hne).mpr hentry, hd⟩
      · refine .inr (.inl ?_)
        rintro ⟨id', entry, hentry, hmonitor⟩
        rcases eq_or_ne id' id with rfl | hne
        · rw [hnew] at hentry
          cases hentry
          exact htype hmonitor
        · exact hnone ⟨id', entry, (hother hne).mp hentry, hmonitor⟩

/-- Unless the engine is switching, the session info names the device of a moved session. -/
theorem Tended.names {s : Watched F St σ ρ × Bool} (h : Tended s) (hm : s.2 = true) {d : String}
    (hd : s.1.world.capturing = some d) (hs : s.1.world.switches = false) :
    s.1.world.engine.activeSessionInfo.deviceId = some d := by
  rcases s with ⟨⟨⟨engine, doing, ids⟩, watcher, commands⟩, moved⟩
  cases h.named with
  | idle hinfo =>
      obtain ⟨stream, hstream, rfl⟩ := Option.map_eq_some_iff.mp hd
      exact hinfo stream hstream
  | joining hnone =>
      obtain ⟨stream, hstream, -⟩ := Option.map_eq_some_iff.mp hd
      rw [hnone] at hstream
      cases hstream
  | starting hnone =>
      obtain ⟨stream, hstream, -⟩ := Option.map_eq_some_iff.mp hd
      rw [hnone] at hstream
      cases hstream
  | spawning =>
      have hfresh : moved = false := h.fresh _ _ _ rfl
      rw [hfresh] at hm
      cases hm
  | switching => cases hs

/-- The watcher looks at the session info. -/
theorem Tended.check {s : Watched F St σ ρ × Bool} (h : Tended s) (hm : s.2 = true)
    {entry : DeviceEntry} (hentry : s.1.watcher.phase = .checking entry) {order : List ℕ}
    (ho : order.Perm s.1.watcher.devices.keys) (hn : Notices s (.check order)) {d : String}
    (hd : s.1.world.capturing = some d) :
    Followed { s.1 with
      watcher := s.1.watcher.check s.1.world.engine.activeSessionInfo order } d := by
  rcases s with ⟨w, moved⟩
  -- it decides on nothing: then no removal of the device captured is what it looked at
  have hstays (hf : w.watcher.Holds d ∨ ¬ w.watcher.HasMonitor ∨
      w.commands.any (·.isReconnect) = true) :
      Followed { w with
        watcher := w.watcher.check w.world.engine.activeSessionInfo order } d := by
    rcases hf with hholds | hnone | hcommands
    · exact .inl hholds
    · exact .inr (.inl hnone)
    · exact .of_commands hcommands
  cases hdecide : w.watcher.decide w.world.engine.activeSessionInfo order with
  | some monitorId =>
      refine .inr (.inr (.inl ?_))
      show ((w.watcher.check w.world.engine.activeSessionInfo order).phase.sends || _) = true
      rw [Watcher.check, hdecide]
      rfl
  | none =>
      refine hstays ?_
      rcases h.followed hm d hd with hholds | hnone | hpending | hchecks
      · exact .inl hholds
      · exact .inr (.inl hnone)
      · have hphase : w.watcher.phase = .checking entry := hentry
        rw [reconnectPending, hphase] at hpending
        exact .inr (.inr hpending)
      · have hchecked := hchecks
        rw [hentry] at hchecked
        obtain rfl : entry.device.id = d := of_decide_eq_true hchecked
        have hinfo : w.world.engine.activeSessionInfo.deviceId = some entry.device.id ∨
            w.watcher.Holds entry.device.id ∨ ¬ w.watcher.HasMonitor ∨
              w.commands.any (·.isReconnect) = true := by
          cases hs : w.world.switches with
          | true => exact hn _ hd hs hchecks
          | false => exact .inl (h.names hm hd hs)
        rcases hinfo with hinfo | hrest
        · exact .inr (.inl (Watcher.no_monitor_of_decide hentry hinfo ho hdecide))
        · exact hrest

/-- The engine takes a command. -/
theorem Tended.receive {s : Watched F St σ ρ × Bool} (h : Tended s) {c : Command F}
    {commands : List (Command F)} (hq : s.1.commands = c :: commands) (hd : s.1.world.doing = .idle)
    {a : CaptureAnswers} (hn : Notices s (.receive a)) (hm : s.1.moves (.receive a) s.2 = true)
    {d : String} (hc : (s.1.world.receive a c).1.capturing = some d) :
    Followed { s.1 with world := (s.1.world.receive a c).1, commands } d := by
  rcases s with ⟨w, moved⟩
  have hqueue : w.commands = c :: commands := hq
  have hopened (hopens : w.world.opens (.receive c a) = some d) :
      Followed { w with world := (w.world.receive a c).1, commands } d := by
    have hf := hn c (by rw [hqueue]; rfl) d hopens
    rw [hqueue] at hf
    exact hf
  -- any other command: what is captured is as before, and so is what comes
  have hsame (hbefore : w.world.capturing = some d) (hr : c.isReconnect = false)
      (hnone : w.world.opens (.receive c a) = none) :
      Followed { w with world := (w.world.receive a c).1, commands } d := by
    have hmoved : moved = true := by
      rw [moves, hqueue, List.head?_cons, Option.any_some, hnone] at hm
      simpa using hm
    refine (h.followed hmoved d hbefore).mono rfl ?_ id
    intro hpending
    rw [reconnectPending, hqueue, List.any_cons, hr, Bool.false_or] at hpending
    exact hpending
  cases c with
  | reconnect deviceId => exact hopened (World.opens_of_reconnect h.backed hd hc)
  | _ =>
      rcases World.capturing_receive hd _ a hc with ⟨hbefore, -⟩ | hopens
      · exact hsame hbefore rfl rfl
      · exact hopened hopens

/-- Behind a command, no session is about to be spawned. -/
theorem doing_receive {w : World F St σ ρ} (hd : w.doing = .idle) (c : Command F)
    (a : CaptureAnswers) : ∀ settings info stream,
      (w.receive a c).1.doing ≠ .spawning settings info stream := by
  rintro settings info stream hs
  obtain ⟨engine, doing, ids⟩ := w
  obtain rfl : doing = .idle := hd
  cases c with
  | reconnect deviceId =>
      rw [World.receive] at hs
      cases hbuffer : engine.activeBuffer with
      | none =>
          simp only [hbuffer] at hs
          cases hs
      | some buffer =>
          cases hstart : a.start with
          | error e =>
              simp only [hbuffer, hstart] at hs
              cases hs
          | ok metadata =>
              simp only [hbuffer, hstart] at hs
              cases hs
  | _ => cases hs

variable [F32 F]

/-- Any other move of the engine: what is captured in a moved session was captured before, and a
session about to be spawned is not a moved one. -/
theorem Tended.engine {s : Watched F St σ ρ × Bool} {P : Platform F St σ ρ} {m : Move F}
    {world : World F St σ ρ} {evs : List (EngineEvent F)} (h : Tended s) (hr : m.isReceive = false)
    (ht : World.Turn P s.1.world m world evs) :
    Tended ({ s.1 with world }, s.1.moves (.engine m) s.2) := by
  rcases s with ⟨w, moved⟩
  refine ⟨World.named_turn ht h.named, h.backed.turn h.named ht, ?_, ?_⟩
  · intro settings info stream hspawning
    show (moved && (w.world.opens m).isNone) = false
    cases ht with
    | receive => cases hr
    | @join next _ _ hd hj => cases next <;> cases hspawning
    | @opened _ _ _ _ a hd ho =>
        have hopens : (w.world.opens (.openCapture a)).isNone = false := by
          rw [World.opens, hd]
          simp only [ho]
          rfl
        rw [hopens, Bool.and_false]
    | failed => cases hspawning
    | spawn => cases hspawning
    | switchSource => cases hspawning
    | thread =>
        have hmoved : moved = false := h.fresh settings info stream hspawning
        rw [hmoved, Bool.false_and]
  · intro hm d hcapturing
    obtain ⟨hmoved, hnone⟩ := Bool.and_eq_true_iff.mp hm
    rcases World.capturing_turn ht hr hcapturing with hbefore | hopens
    · exact h.followed hmoved d hbefore
    · have hopens : w.world.opens m = some d := hopens
      rw [hopens] at hnone
      cases hnone

/-- Every move but the three. -/
theorem Tended.turn {P : Platform F St σ ρ} {s : Watched F St σ ρ × Bool} {w' : Watched F St σ ρ}
    {m : WatchedMove F} {evs : List (SinkEvent F)} (h : Tended s) (hn : Notices s m)
    (ht : Turn P s.1 m w' evs) : Tended (w', s.1.moves m s.2) := by
  rcases s with ⟨w, moved⟩
  cases ht with
  | ui hui =>
      refine ⟨h.named, h.backed, h.fresh, ?_⟩
      intro hm d hd
      refine (h.followed hm d hd).mono rfl ?_ id
      intro hpending
      have hpending : (w.watcher.phase.sends || w.commands.any (·.isReconnect)) = true := hpending
      rw [reconnectPending, List.any_append, ← Bool.or_assoc, hpending, Bool.true_or]
  | receive hq hd a =>
      refine ⟨World.named_receive (hd ▸ h.named) hd _ a, h.backed.receive hd _ a, ?_, ?_⟩
      · intro settings info stream hspawning
        exact absurd hspawning (doing_receive hd _ a settings info stream)
      · intro hm d hcapturing
        exact h.receive hq hd hn hm hcapturing
  | engine hr hturn => exact h.engine hr hturn
  | global hidle id props =>
      refine ⟨h.named, h.backed, h.fresh, ?_⟩
      intro hm d hd
      exact Followed.global (s := (w, moved)) hm hd (h.followed hm d hd) hn
  | globalRemove hidle id =>
      exact ⟨h.named, h.backed, h.fresh, fun hm d hd => (h.followed hm d hd).globalRemove hidle id⟩
  | check hentry ho =>
      exact ⟨h.named, h.backed, h.fresh, fun hm d hd => h.check hm hentry ho hn hd⟩
  | send hsending =>
      refine ⟨h.named, h.backed, h.fresh, fun hm d hd => .of_commands ?_⟩
      simp [Command.isReconnect]
  | emit hemitting ho =>
      refine ⟨h.named, h.backed, h.fresh, ?_⟩
      intro hm d hd
      have hphase : w.watcher.phase = .emitting := hemitting
      refine (h.followed hm d hd).mono rfl ?_ ?_
      · intro hpending
        rw [reconnectPending, hphase] at hpending
        exact hpending
      · intro hchecks
        rw [hphase] at hchecks
        cases hchecks

/-- The machine with the history variable beside it. -/
def tracked (P : Platform F St σ ρ) : Mealy.Step (Watched F St σ ρ × Bool) (WatchedMove F) (SinkEvent F) :=
  Mealy.track (step P) moves

/-- No removal is lost but by the three moves.  In every run of the registry, the watcher, the UI and
the engine, with the history variable kept along it: when none of them is on the way, then in every
session that a `Reconnect` moved, with no command in the channel and the watcher done with its last
event, if the device captured is not in the map, no monitor is. -/
theorem removals_answered {P : Platform F St σ ρ} {diagEnabled : Bool}
    {ms : List (WatchedMove F)} {w : Watched F St σ ρ} {evs : List (SinkEvent F)}
    (hrun : Mealy.run (step P) (new diagEnabled) ms = some (w, evs)) :
    ∃ moved, Mealy.run (tracked P) (new diagEnabled, false) ms = some ((w, moved), evs) ∧
      (Mealy.Along (tracked P) Notices (new diagEnabled, false) ms → w.commands = [] →
        (w.watcher.phase = .idle ∨ w.watcher.phase = .emitting) → moved = true →
        ∀ d, w.world.capturing = some d → ¬ w.watcher.Holds d → ¬ w.watcher.HasMonitor) := by
  obtain ⟨moved, htracked⟩ := Mealy.run_track moves hrun false
  refine ⟨moved, htracked, ?_⟩
  intro hc hempty hphase hm d hd habsent
  have htended : Tended (w, moved) := by
    refine Mealy.run_along (P := fun _ s _ => Tended s) ?_ ?_ hc htracked
    · rintro is ⟨w₁, moved₁⟩ os m ⟨w₂, moved₂⟩ os' h hm hstep
      obtain ⟨hs, rfl⟩ := Mealy.track_step hstep
      exact h.turn hm (turn_of_step hs)
    · exact ⟨.idle_of_none rfl, .of_activeStream_none rfl rfl, fun _ _ _ _ => rfl, by rintro ⟨⟩⟩
  rcases htended.followed hm d hd with hholds | hmonitor | hpending | hchecks
  · exact absurd hholds habsent
  · exact hmonitor
  · have hqueue : w.commands = [] := hempty
    rw [reconnectPending, hqueue] at hpending
    rcases hphase with hidle | hemitting
    · rw [hidle] at hpending
      cases hpending
    · rw [hemitting] at hpending
      cases hpending
  · rcases hphase with hidle | hemitting
    · rw [hidle] at hchecks
      cases hchecks
    · rw [hemitting] at hchecks
      cases hchecks

/-! ## Two runs -/

section Runs

open World (still onDevice captures)

/-- A second sink. -/
def headphones : List (String × String) :=
  [("media.class", "Audio/Sink"), ("object.serial", "44"), ("node.name", "alsa_output.usb")]

/-- A session on an application, with two sinks about, and the application goes away. -/
def playerLost : List (WatchedMove F) :=
  [.global 7 player, .emit [7], .global 9 speakers, .emit [7, 9], .global 10 headphones,
    .emit [7, 9, 10], .ui (.start (some "41") (onDevice 0.5 0.3))] ++ startsSession ++
    [.globalRemove 7, .check [9, 10], .send, .emit [9, 10]]

/-- The engine applies the `Reconnect`. -/
def appliesReconnect : List (WatchedMove F) := [.receive captures, .engine (.switchSource captures)]

/-- Then the speakers go away, and the headphones. -/
def sinksLost : List (WatchedMove F) :=
  playerLost ++ appliesReconnect ++ [.globalRemove 9, .check [10], .send, .emit [10]] ++
    appliesReconnect ++ [.globalRemove 10, .check [], .emit []]

/-- The session is moved to the speakers and, when these go away too, to the headphones; and when these
go away there is no monitor left. -/
theorem removals_answered_twice :
    ∃ w evs, Mealy.run (step still) (new true) (sinksLost (F := ℝ)) = some (w, evs) ∧
      w.world.capturing = some "44" ∧ ¬ w.watcher.Holds "44" ∧ ¬ w.watcher.HasMonitor := by
  have hrun : Mealy.run (step still) (new true) (sinksLost (F := ℝ)) = some (_, _) := rfl
  have hc : Mealy.Along (tracked still) Notices (new true, false) (sinksLost (F := ℝ)) := by
    decide +kernel
  obtain ⟨moved, htracked, hanswered⟩ := removals_answered hrun
  have hmoved : moved = true := by
    cases htracked
    rfl
  refine ⟨_, _, hrun, rfl, by decide +kernel, ?_⟩
  exact hanswered hc rfl (.inl rfl) hmoved "44" rfl (by decide +kernel)

/-- The speakers go away before the engine has applied the `Reconnect` to them: the session ends up
on a device that is gone, with another sink about and no command on the way. -/
theorem removal_lost :
    ∃ w evs, Mealy.run (tracked still) (new true, false) (playerLost ++
        [.globalRemove 9, .check [10], .emit [10]] ++ appliesReconnect : List (WatchedMove ℝ)) =
          some ((w, true), evs) ∧
      w.commands = [] ∧ w.watcher.phase = .idle ∧ w.world.doing = .idle ∧
      w.world.capturing = some "43" ∧ ¬ w.watcher.Holds "43" ∧ w.watcher.HasMonitor := by
  exact ⟨_, _, rfl, rfl, rfl, rfl, rfl, by decide +kernel, by decide +kernel⟩

end Runs

end Watched

end Larmindon
