import SecureSession.Proofs.Simulation.World

/-! # Calls on a world

A world changes by calls. Each call keeps a sound world sound, fails by design or for want of a
device, and leaves alone the devices it does not touch and the links between them. -/

namespace SecureSession

/-- Whether a step of a world fails as handshakes do by design. -/
def WorldError.IsDesigned : WorldError → Prop
  | session _ e => e.IsDesigned
  | _ => False

/-- Whether a step of a world fails by design, or for want of a ratchet that starts. -/
def WorldError.IsExplained (suite : Suite) : WorldError → Prop
  | session _ e => e.IsExplained suite
  | _ => False

theorem WorldError.IsExplained.isDesigned {suite : Suite} {e : WorldError} (h : e.IsExplained suite)
    (hs : suite.Starts) : e.IsDesigned := by
  cases e with
  | session a e => exact SessionError.IsExplained.isDesigned h hs
  | unknownDevice | invariant => exact h

namespace World

/-- The world in which a step ends, failed or not. -/
def ending {α : Type} : EStateM.Result WorldError World α → World
  | .ok _ w => w
  | .error _ w => w

theorem ending_map {α β : Type} (x : WorldStep α) (f : α → β) (w : World) :
    ending ((do return f (← x) : WorldStep β) w) = ending (x w) := by
  rw [WorldStep.bind_eq]
  cases x w <;> rfl

/-- What a step answers, or how it fails. -/
def answer {α : Type} : EStateM.Result WorldError World α → Except WorldError α
  | .ok a _ => .ok a
  | .error e _ => .error e

theorem eq_ok_of_answer {α : Type} {r : EStateM.Result WorldError World α} {a : α}
    (h : answer r = .ok a) : r = .ok a (ending r) := by
  cases r with
  | ok a' w => cases h; rfl
  | error e w => cases h

/-- A call on a world. -/
inductive Call
  | addAccount (name : String) (devices : Nat)
  | threadId (a b : String)
  | establishFromBundle (source target : Address)
  | sendFirstMessage (source target : Address)
  | acknowledge (source target : Address)
  | initiate (source target : Address)
  | deliver (l : Link)
  | rotateIdentity (name : String)
  | failNextCommit (a : Address)
  | advance (milliseconds : UInt64)
deriving DecidableEq

namespace Call

variable (suite : Suite)

/-- The step of a call. It answers with the status of the handshake, if it is a step of one. -/
def run : Call → WorldStep (Option HandshakeStatus)
  | addAccount name devices => do
    let _ ← World.addAccount suite name devices
    return none
  | threadId a b => do
    let _ ← World.threadId a b
    return none
  | establishFromBundle source target =>
    return some (← World.establishFromBundle suite source target)
  | sendFirstMessage source target => do
    let _ ← World.sendFirstMessage source target
    return none
  | acknowledge source target => do
    let _ ← World.acknowledge source target
    return none
  | initiate source target => return some (← World.initiate suite source target)
  | deliver l => World.deliver suite l
  | rotateIdentity name => do
    World.rotateIdentity suite name
    return none
  | failNextCommit a => do
    World.failNextCommit a
    return none
  | advance milliseconds => do
    World.advance milliseconds
    return none

/-- The devices that a call changes. -/
def Touches : Call → Address → Prop
  | addAccount name _, a | rotateIdentity name, a => a.name = name
  | establishFromBundle source target, a => a = source ∨ a = target
  | sendFirstMessage source _, a | acknowledge source _, a | initiate source _, a => a = source
  | deliver l, a => a = l.target
  | failNextCommit b, a => a = b
  | threadId .., _ | advance _, _ => False

/-- The devices that a call needs, and sends messages between. A message
is needed to deliver one. -/
def Needs (w : World) : Call → Address → Prop
  | establishFromBundle source target, a | sendFirstMessage source target, a
  | acknowledge source target, a | initiate source target, a => a = source ∨ a = target
  | deliver l, a => l ∈ w.network.busyLinks ∧ (a = l.source ∨ a = l.target)
  | failNextCommit b, a => a = b
  | addAccount .., _ | threadId .., _ | rotateIdentity _, _ | advance _, _ => False

end Call

/-! ### What all calls have in common -/

/-- How a step ends that touches and needs the given devices: the world stays sound, a failure is by
design or for want of a device, and everything else is left alone. -/
structure Ends (suite : Suite) (touches needs : Address → Prop) {α : Type} (w : World)
    (r : EStateM.Result WorldError World α) : Prop where
  sound : (ending r).IsSound suite
  fails : ∀ e w', r = .error e w' →
    e.IsExplained suite ∨ ∃ a, e = .unknownDevice a ∧ needs a ∧ w.devices.get? a = none
  registered : ∀ a, (w.devices.get? a).isSome → ((ending r).devices.get? a).isSome
  device : ∀ a, ¬touches a → (ending r).devices.get? a = w.devices.get? a
  messages : ∀ l, ¬touches l.source → ¬touches l.target →
    (ending r).network.messages l = w.network.messages l
  busy : ∀ l ∈ (ending r).network.busyLinks,
    l ∈ w.network.busyLinks ∨ needs l.source ∧ needs l.target

section Ends
variable {suite : Suite} {touches needs : Address → Prop} {w w' : World} {α : Type}

theorem Ends.of_eq {β : Type} {r : EStateM.Result WorldError World α}
    {r' : EStateM.Result WorldError World β} (h : Ends suite touches needs w r)
    (hending : ending r' = ending r) (herror : ∀ e w', r' = .error e w' → r = .error e w') :
    Ends suite touches needs w r' :=
  ⟨hending ▸ h.sound, fun e w' he => h.fails e w' (herror e w' he), hending ▸ h.registered,
    hending ▸ h.device, hending ▸ h.messages, hending ▸ h.busy⟩

theorem Ends.mono {r : EStateM.Result WorldError World α} (h : Ends suite touches needs w r)
    {touches' needs' : Address → Prop} (ht : ∀ a, touches a → touches' a)
    (hn : ∀ a, needs a → needs' a) : Ends suite touches' needs' w r where
  sound := h.sound
  fails e w' he := (h.fails e w' he).imp_right fun ⟨a, ha, hneeds, hget⟩ =>
    ⟨a, ha, hn a hneeds, hget⟩
  registered := h.registered
  device a ha := h.device a fun hta => ha (ht a hta)
  messages l hs ht' := h.messages l (fun h => hs (ht _ h)) fun h => ht' (ht _ h)
  busy l hl := (h.busy l hl).imp_right fun ⟨hs, ht⟩ => ⟨hn _ hs, hn _ ht⟩

/-- A step in a world that differs in clocks and numbers only. -/
theorem Ends.of_same {w₀ : World} (hsame : w₀.Same w) {r : EStateM.Result WorldError World α}
    (h : Ends suite touches needs w r) : Ends suite touches needs w₀ r := by
  obtain ⟨hdevices, -, hnetwork⟩ := hsame
  obtain ⟨sound, fails, registered, device, messages, busy⟩ := h
  rw [hdevices] at fails registered device
  rw [hnetwork] at messages busy
  exact ⟨sound, fails, registered, device, messages, busy⟩

theorem ends_same (h : w.IsSound suite) (hsame : w.Same w') (x : α) :
    Ends suite touches needs w (.ok x w') := by
  refine ⟨hsame.isSound h, fun _ _ he => (nomatch he), fun a ha => ?_, fun a _ => ?_,
    fun l _ _ => ?_, fun l hl => .inl ?_⟩
  · exact hsame.devices ▸ ha
  · exact congrArg (·.get? a) hsame.devices
  · exact congrArg (·.messages l) hsame.network
  · exact hsame.network ▸ hl

theorem ends_unknown (h : w.IsSound suite) {a : Address} (hneeds : needs a)
    (ha : w.devices.get? a = none) : Ends suite touches needs w
      (.error (.unknownDevice a) w : EStateM.Result WorldError World α) where
  sound := h
  fails e w' he := by
    cases he
    exact .inr ⟨a, rfl, hneeds, ha⟩
  registered _ ha := ha
  device _ _ := rfl
  messages _ _ _ := rfl
  busy _ hl := .inl hl

/-- A step that lets a device act ends as every call does. -/
theorem Acted.ends {a : Address} {d : Device} {sent : List (Address × HandshakeMessage)}
    (h : Acted suite a d sent w w') {r : Except SessionError α}
    (hr : ∀ e, r = .error e → e.IsExplained suite) (htouches : touches a)
    (hneeds : ∀ x ∈ sent, needs a ∧ needs x.1) : Ends suite touches needs w (finish a r w') := by
  have hending : ending (finish a r w') = w' := by cases r <;> rfl
  refine ⟨by rw [hending]; exact h.sound, fun e v he => ?_, ?_, ?_, ?_, ?_⟩
  · cases r with
    | ok x => cases he
    | error e' =>
      cases he
      exact .inl (hr e' rfl)
  all_goals rw [hending]
  · intro b hb
    by_cases hba : b = a
    · rw [hba, h.device]; rfl
    · rwa [h.others b hba]
  · intro b hb
    exact h.others b fun hba => hb (hba ▸ htouches)
  · intro l hsource _
    rw [h.messages, Network.posted, List.filterMap_eq_nil_iff.mpr, List.append_nil]
    intro x _
    have hne : l ≠ ⟨a, x.1⟩ := fun hl => hsource (by rw [hl]; exact htouches)
    exact if_neg hne
  · intro l hl
    rcases h.busy l hl with hl | ⟨x, hx, rfl⟩
    · exact .inl hl
    · exact .inr (hneeds x hx)

/-- Two steps in turn end as one, where the second needs no more than the first. -/
theorem Ends.trans {β : Type} {r : EStateM.Result WorldError World α}
    {r' : EStateM.Result WorldError World β} (h : Ends suite touches needs w r)
    (h' : Ends suite touches needs (ending r) r') : Ends suite touches needs w r' where
  sound := h'.sound
  fails e w' he := (h'.fails e w' he).imp_right fun ⟨a, ha, hneeds, hget⟩ => by
    refine ⟨a, ha, hneeds, ?_⟩
    by_contra hne
    have := h.registered a (Option.isSome_iff_ne_none.mpr hne)
    rw [hget] at this
    cases this
  registered a ha := h'.registered a (h.registered a ha)
  device a ha := (h'.device a ha).trans (h.device a ha)
  messages l hs ht := (h'.messages l hs ht).trans (h.messages l hs ht)
  busy l hl := (h'.busy l hl).elim (fun hl => h.busy l hl) .inr

end Ends

/-! ### Steps of a handshake -/

section Handshake
variable {suite : Suite} {w : World}

theorem initiate_eq (source target : Address) {id : UInt64} {w' : World}
    (h : threadId source.name target.name w = .ok id w') :
    initiate suite source target w = act source (Device.initiate suite target id) w' := by
  rw [initiate, WorldStep.bind_eq, h]
  rfl

/-- How a device opens an exchange. -/
theorem initiate_spec (h : w.IsSound suite) {source : Address} (target : Address) {d : Device}
    (hd : w.devices.get? source = some d) :
    ∃ thread w', initiate suite source target w =
        finish source ((d.initiate suite target thread).1.map HandshakeOutcome.status) w' ∧
      Acted suite source (d.initiate suite target thread).2
        (sentBy (d.initiate suite target thread).1) w w' := by
  obtain ⟨thread, w₁, hthread, hsame⟩ := threadId_spec source.name target.name w
  have hd₁ : w₁.devices.get? source = some d := by rw [hsame.devices]; exact hd
  have hsound := (h.devices source d hd).2
  obtain ⟨w', hact, hacted⟩ := act_spec (hsame.isSound h) hd₁
    (f := Device.initiate suite target thread) (Device.succeeds_initiate hsound target thread)
  exact ⟨thread, w', (initiate_eq source target hthread).trans hact, hacted.of_same hsame⟩

theorem deliver_eq (l : Link) (w : World) :
    deliver suite l w = match w.network.deliver l with
      | (none, n) => .ok none { w with network := n }
      | (some e, n) =>
        (do return some (← act l.target (Device.receive suite e)) : WorldStep _) { w with
          network := n } := by
  rw [deliver, WorldStep.bind_eq]
  rcases h : w.network.deliver l with ⟨e, n⟩
  cases e <;>
    simp only [takeMessage, WorldStep.modifyGet_eq, h]
  · rfl
  · simp only [WorldStep.bind_eq, act]
    cases onDevice l.target (Device.receive suite _) { w with network := n } <;> rfl

theorem deliver_nil {l : Link} (h : w.network.queue l = []) : deliver suite l w = .ok none w := by
  rw [deliver_eq, Network.deliver_nil h]

/-- The world once the oldest message of a link is taken off. -/
def pop (w : World) (l : Link) : World := { w with network := (w.network.deliver l).2 }

theorem deliver_cons {l : Link} {e : Envelope} {rest : List Envelope}
    (hq : w.network.queue l = e :: rest) :
    deliver suite l w =
      (do return some (← act l.target (Device.receive suite e)) : WorldStep _) (w.pop l) := by
  have hdeliver : w.network.deliver l = (some e, (w.network.deliver l).2) :=
    Prod.ext (Network.deliver_cons hq).1 rfl
  rw [deliver_eq, hdeliver]
  rfl

/-- A message for a device that is not there is taken off all the same. -/
theorem deliver_unknown {l : Link} {e : Envelope} {rest : List Envelope}
    (hq : w.network.queue l = e :: rest) (hd : w.devices.get? l.target = none) :
    deliver suite l w = .error (.unknownDevice l.target) (w.pop l) := by
  have hunknown : act l.target (Device.receive suite e) (w.pop l) =
      .error (.unknownDevice l.target) (w.pop l) := act_unknown (w := w.pop l) hd _
  rw [deliver_cons hq, WorldStep.bind_eq, hunknown]

theorem isSound_pop (h : w.IsSound suite) (l : Link) : (w.pop l).IsSound suite :=
  ⟨h.devices, h.network.deliver l, h.outbox⟩

theorem map_finish {α β : Type} (a : Address) (r : Except SessionError α) (w : World) (f : α → β)
    (x : WorldStep α) {v : World} (h : x v = finish a r w) :
    (do return f (← x) : WorldStep β) v = finish a (r.map f) w := by
  rw [WorldStep.bind_eq, h]
  cases r <;> rfl

/-- How a device takes in the oldest message of a link. -/
theorem deliver_spec (hs : suite.KeepsKeys) (h : w.IsSound suite) {l : Link} {m : HandshakeMessage}
    {ms : List HandshakeMessage} (hms : w.network.messages l = m :: ms) {d : Device}
    (hd : w.devices.get? l.target = some d) :
    ∃ e w', e.link = l ∧ HandshakeMessage.decode e.kind e.payload = .ok m ∧ m.IsSound suite ∧
      deliver suite l w =
        finish l.target (((d.receive suite e).1.map HandshakeOutcome.status).map some) w' ∧
      Acted suite l.target (d.receive suite e).2 (sentBy (d.receive suite e).1) (w.pop l) w' := by
  obtain ⟨e, rest, hq, hlink, hread, hm⟩ := h.network.queue_of_messages hms
  have hsound := (h.devices _ d hd).2
  obtain ⟨w', hact, hacted⟩ := act_spec (isSound_pop h l) (a := l.target) (d := d)
    hd (f := Device.receive suite e) (Device.succeeds_receive hsound hs hread hm)
  refine ⟨e, w', hlink, hread, hm, ?_, hacted⟩
  rw [deliver_cons hq]
  exact map_finish _ _ _ some _ hact

/-- What is on each link once a device has taken in the oldest message of one. -/
theorem Acted.messages_of_pop {l : Link} {m : HandshakeMessage} {ms : List HandshakeMessage}
    (hsound : w.IsSound suite) (hms : w.network.messages l = m :: ms) {a : Address} {d : Device}
    {sent : List (Address × HandshakeMessage)} {w' : World}
    (h : Acted suite a d sent (w.pop l) w') (l' : Link) :
    w'.network.messages l' =
      (if l' = l then ms else w.network.messages l') ++ Network.posted a l' sent := by
  rw [h.messages, pop, Network.messages_deliver hsound.network hms]

/-- How a device takes in the oldest message of a link, with the effect of its party. -/
theorem takes_spec (hs : suite.KeepsKeys) (h : w.IsSound suite) {l : Link} {m : HandshakeMessage}
    {ms : List HandshakeMessage} (hms : w.network.messages l = m :: ms) {d : Device}
    (hd : w.devices.get? l.target = some d) :
    ∃ f r d' w', d.party.Takes suite d.contents l.source m f ∧ d.Comes f r d' ∧
      deliver suite l w = finish l.target ((r.map HandshakeOutcome.status).map some) w' ∧
      Acted suite l.target d' (sentBy r) (w.pop l) w' := by
  obtain ⟨e, w', hlink, hread, hm, hrun, hacted⟩ := deliver_spec hs h hms hd
  obtain ⟨f, htakes, hcomes⟩ := Device.comes_receive (h.devices _ d hd).2 hread hm
  exact ⟨f, _, _, w', hlink ▸ htakes, hcomes, hrun, hacted⟩

theorem establishFromBundle_eq (source target : Address) {id : UInt64} {w' : World}
    (h : threadId source.name target.name w = .ok id w') {d : Device}
    (hd : w'.devices.get? target = some d) :
    establishFromBundle suite source target w =
      act source (Device.useBundle suite target id (d.publishNext suite).1)
        (w'.setDevice target (d.publishNext suite).2) := by
  simp only [establishFromBundle, act, WorldStep.bind_eq, h, useDevice_eq hd]

/-- How a device acts on a bundle that another has just published. -/
theorem act_useBundle (hs : suite.KeepsKeys) (h : w.IsSound suite) {target : Address} {d : Device}
    (hd : w.devices.get? target = some d) {source : Address} {e : Device}
    (he : (w.setDevice target (d.publishNext suite).2).devices.get? source = some e) (id : UInt64) :
    ∃ w', act source (Device.useBundle suite target id (d.publishNext suite).1)
        (w.setDevice target (d.publishNext suite).2) =
        finish source ((e.useBundle suite target id (d.publishNext suite).1).1.map
          HandshakeOutcome.status) w' ∧
      Acted suite source (e.useBundle suite target id (d.publishNext suite).1).2
        (sentBy (e.useBundle suite target id (d.publishNext suite).1).1)
        (w.setDevice target (d.publishNext suite).2) w' := by
  obtain ⟨haddress, hsound⟩ := h.devices target d hd
  obtain ⟨hdevice, hprekey, hidentity⟩ := Device.bundle_publishNext hsound
  have h' := h.setDevice (d := (d.publishNext suite).2) haddress hsound.publishNext
  exact act_spec h' he (Device.succeeds_useBundle (h'.devices source e he).2 hs
    (hdevice.trans (congrArg Address.device haddress)) hprekey hidentity id)

/-- How a device uses a bundle that another has just published, with the effect on its party. -/
theorem useBundle_spec (hs : suite.KeepsKeys) (h : w.IsSound suite) {target : Address} {d : Device}
    (hd : w.devices.get? target = some d) {source : Address} {e : Device}
    (he : (w.setDevice target (d.publishNext suite).2).devices.get? source = some e) (id : UInt64) :
    ∃ f r e' w', e.party.UsesBundle suite e.contents target (d.publishNext suite).1 f ∧
      e.Comes f r e' ∧ act source (Device.useBundle suite target id (d.publishNext suite).1)
        (w.setDevice target (d.publishNext suite).2) =
        finish source (r.map HandshakeOutcome.status) w' ∧
      Acted suite source e' (sentBy r) (w.setDevice target (d.publishNext suite).2) w' ∧
      ∀ error, r = .error error → error.IsExplained suite := by
  obtain ⟨haddress, hsound⟩ := h.devices target d hd
  obtain ⟨hdevice, hprekey, hidentity⟩ := Device.bundle_publishNext hsound
  have h' := h.setDevice (d := (d.publishNext suite).2) haddress hsound.publishNext
  have hsource := (h'.devices source e he).2
  have hdevice' := hdevice.trans (congrArg Address.device haddress)
  obtain ⟨f, huses, hcomes⟩ := Device.comes_useBundle hsource hdevice' hprekey hidentity id
  obtain ⟨w', hact, hacted⟩ := act_useBundle hs h hd he id
  exact ⟨f, _, _, w', huses, hcomes, hact, hacted,
    (Device.succeeds_useBundle hsource hs hdevice' hprekey hidentity id).fails⟩

/-- How a device offers another a session. -/
theorem establishFromBundle_spec (hs : suite.KeepsKeys) (h : w.IsSound suite)
    {source target : Address} (hne : source ≠ target) {d e : Device}
    (hd : w.devices.get? source = some d) (he : w.devices.get? target = some e) :
    ∃ thread w', establishFromBundle suite source target w =
        finish source ((d.useBundle suite target thread (e.publishNext suite).1).1.map
          HandshakeOutcome.status) w' ∧
      Acted suite source (d.useBundle suite target thread (e.publishNext suite).1).2
        (sentBy (d.useBundle suite target thread (e.publishNext suite).1).1)
        (w.setDevice target (e.publishNext suite).2) w' := by
  obtain ⟨thread, w₁, hthread, hsame⟩ := threadId_spec source.name target.name w
  have he₁ : w₁.devices.get? target = some e := by rw [hsame.devices]; exact he
  have hd₁ : (w₁.setDevice target (e.publishNext suite).2).devices.get? source = some d := by
    rw [setDevice, SortedMap.get?_insert_of_ne _ hne, hsame.devices]
    exact hd
  obtain ⟨w', hact, hacted⟩ := act_useBundle hs (hsame.isSound h) he₁ hd₁ thread
  have hpublished : (w.setDevice target (e.publishNext suite).2).Same
      (w₁.setDevice target (e.publishNext suite).2) :=
    ⟨by rw [setDevice, setDevice, hsame.devices], hsame.recordings, hsame.network⟩
  exact ⟨thread, w', (establishFromBundle_eq source target hthread he₁).trans hact,
    hacted.of_same hpublished⟩

end Handshake

end World

end SecureSession
