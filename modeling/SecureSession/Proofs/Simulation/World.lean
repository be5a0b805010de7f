import SecureSession.Proofs.Simulation.Network
import SecureSession.Simulation.World

/-! # Steps of a world

A world is sound if its devices and its network are, and nothing waits in an outbox. A step
lets one device act at a time: the others stay as they are, and what the device sends is
put on its links (`World.Acted`). The steps that handshakes are made of are told in terms
of the effect on that device. -/

namespace SecureSession

/-! ### Steps in turn -/

theorem WorldStep.bind_eq {α β : Type} (x : WorldStep α) (f : α → WorldStep β) (w : World) :
    (x >>= f) w =
      match x w with
      | .ok a w => f a w
      | .error e w => .error e w := by
  show EStateM.bind x f w = _
  unfold EStateM.bind
  cases x w <;> rfl

theorem WorldStep.bind_eq_ok {α β : Type} {x : WorldStep α} {f : α → WorldStep β} {b : β}
    {w w' : World} (h : (x >>= f) w = .ok b w') : ∃ a v, x w = .ok a v ∧ f a v = .ok b w' := by
  rw [WorldStep.bind_eq] at h
  cases hx : x w with
  | error e v =>
    rw [hx] at h
    cases h
  | ok a v =>
    rw [hx] at h
    exact ⟨a, v, rfl, h⟩

theorem WorldStep.modifyGet_eq {α : Type} (f : World → α × World) (w : World) :
    (modifyGet f : WorldStep α) w = .ok (f w).1 (f w).2 := rfl

namespace World

/-! ### Sound worlds -/

/-- Whether every device is at its address and sound, every message is sound, and no
message waits in an outbox. -/
structure IsSound (suite : Suite) (w : World) : Prop where
  devices : ∀ a d, w.devices.get? a = some d → d.address = a ∧ d.IsSound suite
  network : w.network.IsSound suite
  outbox : ∀ a, (w.recording a).outbox = []

/-- Whether two worlds differ in their clocks, random bytes and conversation numbers at most. -/
structure Same (w w' : World) : Prop where
  devices : w'.devices = w.devices
  recordings : w'.recordings = w.recordings
  network : w'.network = w.network

/-- What has changed once one device has acted, and sent some messages. -/
structure Acted (suite : Suite) (a : Address) (d : Device)
    (sent : List (Address × HandshakeMessage)) (w w' : World) : Prop where
  sound : w'.IsSound suite
  device : w'.devices.get? a = some d
  others : ∀ b, b ≠ a → w'.devices.get? b = w.devices.get? b
  messages : ∀ l, w'.network.messages l = w.network.messages l ++ Network.posted a l sent
  busy : ∀ l ∈ w'.network.busyLinks, l ∈ w.network.busyLinks ∨ ∃ x ∈ sent, l = ⟨a, x.1⟩

/-- How a step on a device ends: its result, or its failure as one of the device. -/
def finish {α : Type} (a : Address) (r : Except SessionError α) (w : World) :
    EStateM.Result WorldError World α :=
  match r with
  | .ok x => .ok x w
  | .error e => .error (.session a e) w

/-- The messages that a step of a device sends. -/
def sentBy : Except SessionError HandshakeOutcome → List (Address × HandshakeMessage)
  | .ok o => SessionAction.sent o.actions
  | .error _ => []

/-- What a device sends, the effect of its step sends. -/
theorem mem_sentBy {d d' : Device} {f : Except SessionError Effect}
    {r : Except SessionError HandshakeOutcome} (h : d.Comes f r d') {x : Address × HandshakeMessage}
    (hx : x ∈ sentBy r) : ∃ f', f = .ok f' ∧ x ∈ f'.sent := by
  cases h with
  | refused | struck => cases hx
  | done keeps contents status sent => exact ⟨_, rfl, sent ▸ hx⟩

theorem error_of_map_status {r : Except SessionError HandshakeOutcome} {e : SessionError}
    (h : r.map HandshakeOutcome.status = .error e) : r = .error e := by
  cases r with
  | ok o => cases h
  | error e' => exact congrArg _ (Except.error.inj h)

variable {suite : Suite} {w w' : World}

theorem isSound_ofSeed (seed : UInt64) (config : SessionConfig) :
    (ofSeed seed config).IsSound suite :=
  ⟨nofun, Network.isSound_empty, fun _ => rfl⟩

theorem Same.isSound (hsame : w.Same w') (h : w.IsSound suite) : w'.IsSound suite := by
  obtain ⟨hdevices, hrecordings, hnetwork⟩ := hsame
  refine ⟨fun a d hd => h.devices a d (hdevices ▸ hd), hnetwork ▸ h.network, fun a => ?_⟩
  rw [recording, hrecordings]
  exact h.outbox a

theorem Acted.of_same {a : Address} {d : Device} {sent : List (Address × HandshakeMessage)}
    {w₀ : World} (hsame : w₀.Same w) (h : Acted suite a d sent w w') : Acted suite a d sent w₀ w' :=
  ⟨h.sound, h.device, hsame.devices ▸ h.others, hsame.network ▸ h.messages, hsame.network ▸ h.busy⟩

/-- A sound world with another sound device at an address. -/
theorem IsSound.setDevice (h : w.IsSound suite) {a : Address} {d : Device}
    (haddress : d.address = a) (hd : d.IsSound suite) : (w.setDevice a d).IsSound suite := by
  refine ⟨fun b d' hd' => ?_, h.network, h.outbox⟩
  rw [World.setDevice, SortedMap.get?_insert] at hd'
  split at hd'
  · cases hd'
    subst b
    exact ⟨haddress, hd⟩
  · exact h.devices b d' hd'

theorem acted_setDevice (h : w.IsSound suite) {a : Address} {d : Device} (haddress : d.address = a)
    (hd : d.IsSound suite) : Acted suite a d [] w (w.setDevice a d) where
  sound := h.setDevice haddress hd
  device := SortedMap.get?_insert_self ..
  others _ hb := SortedMap.get?_insert_of_ne _ hb _
  messages _ := (List.append_nil _).symm
  busy _ hl := .inl hl

/-! ### Letting a device act -/

theorem device_eq {a : Address} {d : Device} (hd : w.devices.get? a = some d) :
    w.device a = .ok d := by
  rw [device, hd]

/-- The record that a device has of another is the one in its contents. -/
theorem session_eq (h : w.IsSound suite) {x : Address} {d : Device} (hd : w.devices.get? x = some d)
    (y : Address) : w.session x y = .ok (d.contents.record y) := by
  simp only [session, device_eq hd, (h.devices x d hd).2.readable.load_eq, Except.mapError, bind,
    Except.bind]
  rfl

/-- Two devices have converged if their live sessions with each other mirror each other. -/
theorem converged_eq (hsound : w.IsSound suite) {x y : Address} {d e : Device}
    (hd : w.devices.get? x = some d) (he : w.devices.get? y = some e) : w.converged x y = .ok
      (match (d.contents.record y).current, (e.contents.record x).current with
      | some ours, some theirs => ours.ratchet.mirrors theirs.ratchet
      | _, _ => false) := by
  simp only [converged, session_eq hsound hd, session_eq hsound he, bind, Except.bind]
  cases (d.contents.record y).current <;> cases (e.contents.record x).current <;> rfl

theorem useDevice_eq {α : Type} {a : Address} {d : Device} (hd : w.devices.get? a = some d)
    (f : Device → α × Device) : useDevice a f w = .ok (f d).1 (w.setDevice a (f d).2) := by
  rw [useDevice, device_eq hd]

theorem useDevice_unknown {α : Type} {a : Address} (hd : w.devices.get? a = none)
    (f : Device → α × Device) : useDevice a f w = .error (.unknownDevice a) w := by
  rw [useDevice, device, hd]

theorem onDevice_eq {α : Type} {a : Address} {d : Device} (hd : w.devices.get? a = some d)
    (f : Device → Except SessionError α × Device) :
    onDevice a f w = finish a (f d).1 (w.setDevice a (f d).2) := by
  simp only [onDevice, WorldStep.bind_eq, useDevice_eq hd]
  cases (f d).1 <;> rfl

theorem onDevice_unknown {α : Type} {a : Address} (hd : w.devices.get? a = none)
    (f : Device → Except SessionError α × Device) :
    onDevice a f w = .error (.unknownDevice a) w := by
  simp only [onDevice, WorldStep.bind_eq, useDevice_unknown hd]

/-- A step that lets a device act and carries out what it asks for. -/
def act (a : Address) (f : Device → Except SessionError HandshakeOutcome × Device) :
    WorldStep HandshakeStatus := do
  settle a (← onDevice a f)

theorem act_unknown {a : Address} (hd : w.devices.get? a = none)
    (f : Device → Except SessionError HandshakeOutcome × Device) :
    act a f w = .error (.unknownDevice a) w := by
  simp only [act, WorldStep.bind_eq, onDevice_unknown hd]

/-- A device that acts soundly leaves the world sound, and its messages are on their links. -/
theorem act_spec (h : w.IsSound suite) {a : Address} {d : Device} (hd : w.devices.get? a = some d)
    {f : Device → Except SessionError HandshakeOutcome × Device} (hf : d.Succeeds suite (f d)) :
    ∃ w', act a f w = finish a ((f d).1.map HandshakeOutcome.status) w' ∧
      Acted suite a (f d).2 (sentBy (f d).1) w w' := by
  have haddress : (f d).2.address = a := hf.keeps.address.trans (h.devices a d hd).1
  have hact : act a f w = _ := WorldStep.bind_eq (onDevice a f) (settle a) w
  rw [onDevice_eq hd] at hact
  rcases hr : f d with ⟨r, d'⟩
  rw [hr] at hf haddress hact
  cases r with
  | error e => exact ⟨w.setDevice a d', hact, acted_setDevice h haddress hf.sound⟩
  | ok o =>
    have houtbox :
        (Dispatch.run (Recording.sink a) o.actions ((w.setDevice a d').recording a)).2.outbox =
        SessionAction.mail a o.actions := by
      rw [outbox_run, show (w.setDevice a d').recording a = w.recording a from rfl, h.outbox a,
        List.nil_append]
    have hsent := hf.sent o rfl
    refine ⟨_, hact, ⟨fun b e hb => ?_, ?_, fun b => ?_⟩, ?_, fun b hb => ?_, fun l => ?_,
      fun l hl => ?_⟩
    · exact (h.setDevice haddress hf.sound).devices b e hb
    · rw [houtbox]
      exact h.network.sendAll fun e he => (Network.mem_mail hsent he).2
    · simp only [recording]
      rw [SortedMap.get?_insert]
      split
      · rfl
      · exact h.outbox b
    · exact SortedMap.get?_insert_self ..
    · exact SortedMap.get?_insert_of_ne _ hb _
    · rw [houtbox]
      exact Network.messages_sendAll_mail _ a hsent l
    · rw [houtbox] at hl
      rcases Network.mem_busyLinks_sendAll _ hl with ⟨e, he, rfl⟩ | hl
      · exact .inr (Network.mem_mail hsent he).1
      · exact .inl hl

/-! ### Conversations and prekeys -/

theorem threadId_spec (a b : String) (w : World) :
    ∃ id w', threadId a b w = .ok id w' ∧ w.Same w' := by
  cases h : w.threads.get? (Conversation.between a b) with
  | some id => exact ⟨id, w, by simp only [threadId, WorldStep.modifyGet_eq, h], rfl, rfl, rfl⟩
  | none =>
    refine ⟨w.nextThread, { w with
      threads := w.threads.insert (Conversation.between a b) w.nextThread
      nextThread := w.nextThread + 1 }, ?_, rfl, rfl, rfl⟩
    simp only [threadId, WorldStep.modifyGet_eq, h]

theorem drawIdentity_spec (suite : Suite) (w : World) :
    ∃ identity w', drawIdentity suite w = .ok identity w' ∧ w.Same w' ∧ suite.Owns identity :=
  ⟨_, _, rfl, ⟨rfl, rfl, rfl⟩, suite.owns_keyPair _⟩

end World

end SecureSession
