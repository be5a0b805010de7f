import SecureSession.Proofs.Handshake.Soundness
import SecureSession.Proofs.Storage.Commits
import SecureSession.Simulation.Device

/-! # Steps of a device

A device comes out of a step of a handshake with the effect of the step, or refused, or struck by a
failure that was armed; in the last two cases its contents stay as they are. Sound devices stay
sound and fail by design only. -/

namespace SecureSession.Device

/-! ### Contents -/

/-- What can be read of what a device has stored. -/
def contents (d : Device) : Contents := d.vault.contents

/-- Whether the next commit of a device fails. -/
def isArmed (d : Device) : Bool := d.storage.faults.armed

/-- Whether a device trusts a key of a peer. -/
def trusts (d : Device) (peer : Address) (key : PublicKey) : Bool :=
  d.contents.trusts d.party.trust.policy peer.name key

/-- What no step of a device changes, or changes in one direction only: prekeys go, an armed failure
is spent, and what is stored stays readable. -/
structure Keeps (d d' : Device) : Prop where
  address : d'.address = d.address
  identity : d'.party.identity = d.party.identity
  trust : d'.party.trust = d.party.trust
  fault : d'.party.prekeys.fault = d.party.prekeys.fault
  held : ∀ id pair, d'.party.prekeys.held.get? id = some pair →
    d.party.prekeys.held.get? id = some pair
  rate : d'.storage.faults.rate = d.storage.faults.rate
  armed : d'.isArmed = true → d.isArmed = true
  readable : d.vault.Readable → d'.vault.Readable

/-- How a device comes out of a step with the given effect or refusal. -/
inductive Comes (d : Device) :
    Except SessionError Effect → Except SessionError HandshakeOutcome → Device → Prop
  | refused {e : SessionError} {d' : Device} (keeps : d.Keeps d')
    (contents : d'.contents = d.contents) :
    Comes d (.error e) (.error e) d'
  | struck {f : Effect} {n : Nat} {d' : Device} (armed : d.isArmed = true) (keeps : d.Keeps d')
    (contents : d'.contents = d.contents) :
    Comes d (.ok f) (.error (.storage (.unavailable (.injected n)))) d'
  | done {f : Effect} {o : HandshakeOutcome} {d' : Device} (keeps : d.Keeps d')
    (contents : d'.contents = f.contents) (status : o.status = f.status)
    (sent : SessionAction.sent o.actions = f.sent) : Comes d (.ok f) (.ok o) d'

/-! ### Carrying out a plan -/

theorem strike_eq {f : Faults} (h : f.rate = 0) :
    f.strike = if f.armed then (true, { f with armed := false, failed := f.failed + 1 })
      else (false, f) := by
  unfold Faults.strike
  cases f.armed <;> simp [h]

/-- How a plan is carried out: it is not, for an armed failure, or the vault is
as its writes leave it. -/
theorem carryOut_cases {α : Type} {s : Storage} (hrate : s.faults.rate = 0) (account : String)
    (plan : Plan α) :
    (∃ n s', s.carryOut account (.ok plan) = (.error (.storage (.unavailable (.injected n))), s') ∧
      s.faults.armed = true ∧ s'.vault account = s.vault account ∧ s'.faults.rate = 0 ∧
      s'.faults.armed = false) ∨
    ∃ s', s.carryOut account (.ok plan) = (.ok plan.answer, s') ∧ s'.faults = s.faults ∧
      s'.vault account = (s.vault account).apply plan.writes := by
  have hcarry := s.carriesOut account (.ok plan)
  rcases hout : s.carryOut account (.ok plan) with ⟨result, s'⟩
  rw [hout] at hcarry
  cases hcarry with
  | idle hempty => exact .inr ⟨_, rfl, rfl, (Vault.apply_of_isEmpty _ hempty).symm⟩
  | struck hwrites hstrike =>
    rw [strike_eq hrate] at hstrike
    cases harmed : s.faults.armed with
    | false => rw [harmed] at hstrike; cases hstrike
    | true =>
      rw [harmed] at hstrike
      cases hstrike
      exact .inl ⟨_, _, rfl, rfl, rfl, hrate, rfl⟩
  | done hwrites hcommit =>
    obtain ⟨hstrike, hvault⟩ := Storage.commit_eq_ok hcommit
    rw [strike_eq hrate] at hstrike
    cases harmed : s.faults.armed with
    | true => rw [harmed] at hstrike; cases hstrike
    | false =>
      rw [harmed] at hstrike
      exact .inr ⟨_, rfl, (congrArg Prod.snd hstrike).symm, hvault⟩

theorem carryOut_error {α : Type} (s : Storage) (account : String) (e : SessionError) :
    (s.carryOut account (.error e) : Except SessionError α × Storage) = (.error e, s) := rfl

theorem consume_account (p : Party) (consumed : Option UInt32) :
    (p.consume consumed).account = p.account := by
  cases consumed <;> rfl

variable {suite : Suite} {d : Device}

/-- A step whose plan is that of an effect comes out with the effect. -/
theorem settle_perform (hrate : d.storage.faults.rate = 0) {plan : Vault → Draw (Plan Step)}
    {f : Except SessionError Effect}
    (hf : Planned d.vault ((plan d.vault).perform d.party.environment).1 f) :
    d.Comes f (d.settle (d.party.perform d.storage plan)).1
      (d.settle (d.party.perform d.storage plan)).2 := by
  rcases hdraw : (plan d.vault).perform d.party.environment with ⟨r, e⟩
  rw [hdraw] at hf
  rw [vault] at hdraw
  cases hf with
  | refused error =>
    simp only [Party.perform, hdraw, carryOut_error]
    exact .refused ⟨rfl, rfl, rfl, rfl, fun _ _ h => h, rfl, id, id⟩ rfl
  | @made plan' f h =>
    rcases carryOut_cases hrate d.party.account plan' with
      ⟨n, s, hs, harmed, hvault, hrate', hdisarmed⟩ | ⟨s, hs, hfaults, hvault⟩
    · simp only [Party.perform, hdraw, hs]
      have hsame : (d.settle (.error (.storage (.unavailable (.injected n))),
          { d.party with environment := e }, s)).2.vault = d.vault := hvault
      refine .struck harmed ⟨rfl, rfl, rfl, rfl, fun _ _ h => h, hrate'.trans hrate.symm, ?_, ?_⟩ ?_
      · exact fun h => absurd (hdisarmed.symm.trans h) (by simp)
      · exact fun h => hsame ▸ h
      · exact congrArg Vault.contents hsame
    · simp only [Party.perform, hdraw, hs]
      have hafter : (d.settle (.ok plan'.answer.outcome,
          ({ d.party with environment := e }.consume plan'.answer.consumed), s)).2.vault =
          d.vault.apply plan'.writes := by
        rw [vault, settle, consume_account]
        exact hvault
      refine .done ⟨rfl, ?_, ?_, ?_, ?_, congrArg Faults.rate hfaults, ?_, ?_⟩ ?_ h.status h.sent
      · cases plan'.answer.consumed <;> rfl
      · cases plan'.answer.consumed <;> rfl
      · cases plan'.answer.consumed with
        | none => rfl
        | some id => exact PreKeys.fault_discard _ id
      · cases plan'.answer.consumed with
        | none => exact fun _ _ h => h
        | some id => exact fun _ _ h => PreKeys.get?_of_discard h
      · exact fun harmed => (congrArg Faults.armed hfaults).symm.trans harmed
      · exact fun hv => hafter ▸ hv.apply h.writes.bounded
      · exact (congrArg Vault.contents hafter).trans h.writes.contents

/-- What is drawn for a plan stays drawn, whatever becomes of the plan. -/
theorem environment_settle_perform (plan : Vault → Draw (Plan Step)) :
    (d.settle (d.party.perform d.storage plan)).2.party.environment =
      ((plan d.vault).perform d.party.environment).2 := by
  rw [vault]
  simp only [settle, Party.perform]
  rcases d.storage.carryOut d.party.account
    ((plan (d.storage.vault d.party.account)).perform d.party.environment).1 with ⟨e | step, s⟩
  · rfl
  · cases h : step.consumed <;> simp only [h] <;> rfl

/-! ### Without a failure armed -/

/-- Without a failure armed, an effect comes about. -/
theorem Comes.of_unarmed {d' : Device} {f : Effect} {r : Except SessionError HandshakeOutcome}
    (h : d.Comes (.ok f) r d') (hunarmed : d.isArmed = false) : ∃ o, r = .ok o ∧ d.Keeps d' ∧
      d'.contents = f.contents ∧ o.status = f.status ∧ SessionAction.sent o.actions = f.sent := by
  cases h with
  | struck armed => rw [hunarmed] at armed; cases armed
  | done keeps contents status sent => exact ⟨_, rfl, keeps, contents, status, sent⟩

theorem Keeps.unarmed {d' : Device} (h : d.Keeps d') (hunarmed : d.isArmed = false) :
    d'.isArmed = false := by
  cases harmed : d'.isArmed with
  | false => rfl
  | true => exact absurd (h.armed harmed) (by simp [hunarmed])

/-- How a device comes out of a step with an effect that comes about. -/
structure Achieves (d : Device) (f : Effect) (r : Except SessionError HandshakeOutcome × Device) :
    Prop where
  outcome : ∃ o, r.1 = .ok o ∧ o.status = f.status ∧ SessionAction.sent o.actions = f.sent
  keeps : d.Keeps r.2
  contents : r.2.contents = f.contents
  prekeys : r.2.party.prekeys = f.consumed.elim d.party.prekeys d.party.prekeys.discard
  lastResort : r.2.party.lastResort = d.party.lastResort
  nextPreKey : r.2.nextPreKey = d.nextPreKey

/-- A plan with an effect is carried out where no failure is armed. -/
theorem achieves_settle_perform (hrate : d.storage.faults.rate = 0) (hunarmed : d.isArmed = false)
    {plan : Vault → Draw (Plan Step)} {planned : Plan Step} {f : Effect}
    (hplan : ((plan d.vault).perform d.party.environment).1 = .ok planned)
    (hf : planned.Has d.vault f) : d.Achieves f (d.settle (d.party.perform d.storage plan)) := by
  have hplanned : Planned d.vault ((plan d.vault).perform d.party.environment).1 (.ok f) := by
    rw [hplan]
    exact .made hf
  obtain ⟨o, ho, hkeeps, hcontents, hstatus, hsent⟩ :=
    (settle_perform hrate hplanned).of_unarmed hunarmed
  have hparty : (d.settle (d.party.perform d.storage plan)).2.party =
      ({ d.party with
        environment := ((plan d.vault).perform d.party.environment).2 } : Party).consume
        f.consumed := by
    rcases hdraw : (plan d.vault).perform d.party.environment with ⟨r, e⟩
    rw [hdraw] at hplan
    cases hplan
    rw [vault] at hdraw
    rcases carryOut_cases hrate d.party.account planned with ⟨n, s, hs, harmed, -⟩ | ⟨s, hs, -⟩
    · rw [isArmed, harmed] at hunarmed
      cases hunarmed
    · simp only [settle, Party.perform, hdraw, hs, hf.consumed]
  refine ⟨⟨o, ho, hstatus, hsent⟩, hkeeps, hcontents, ?_, ?_, rfl⟩
  · rw [hparty]
    cases f.consumed <;> rfl
  · rw [hparty]
    cases f.consumed <;> rfl

/-! ### Sound devices -/

/-- Whether a device has sound contents and its own keys are made of secrets. Commits fail only
where that was armed. -/
structure IsSound (suite : Suite) (d : Device) : Prop where
  rate : d.storage.faults.rate = 0
  readable : d.vault.Readable
  fault : d.party.prekeys.fault = none
  held : ∀ id pair, d.party.prekeys.held.get? id = some pair → suite.Owns pair
  identity : suite.Owns d.party.identity
  contents : d.contents.IsSound suite

/-- A sound device comes out of a step sound, with sound messages or a failure by design. -/
structure Succeeds (suite : Suite) (d : Device)
    (r : Except SessionError HandshakeOutcome × Device) : Prop where
  keeps : d.Keeps r.2
  sound : r.2.IsSound suite
  sent : ∀ o, r.1 = .ok o → ∀ x ∈ SessionAction.sent o.actions, x.2.IsSound suite
  fails : ∀ e, r.1 = .error e → e.IsExplained suite

theorem Keeps.isSound {d' : Device} (hkeeps : d.Keeps d') (h : d.IsSound suite)
    (hc : d'.contents.IsSound suite) : d'.IsSound suite where
  rate := hkeeps.rate.trans h.rate
  readable := hkeeps.readable h.readable
  fault := hkeeps.fault.trans h.fault
  held id pair hpair := h.held id pair (hkeeps.held id pair hpair)
  identity := hkeeps.identity ▸ h.identity
  contents := hc

theorem Comes.succeeds {f : Except SessionError Effect} {r : Except SessionError HandshakeOutcome}
    {d' : Device} (hcomes : d.Comes f r d') (h : d.IsSound suite)
    (hok : ∀ f', f = .ok f' → f'.IsSound suite) (herror : ∀ e, f = .error e → e.IsExplained suite) :
    d.Succeeds suite (r, d') := by
  cases hcomes with
  | refused keeps contents =>
    exact ⟨keeps, keeps.isSound h (contents ▸ h.contents), nofun,
      fun e he => herror e (by cases he; rfl)⟩
  | struck armed keeps contents =>
    refine ⟨keeps, keeps.isSound h (contents ▸ h.contents), nofun, fun e he => ?_⟩
    cases he
    exact .inl trivial
  | done keeps contents status sent =>
    have hsound := hok _ rfl
    refine ⟨keeps, keeps.isSound h (contents ▸ hsound.contents), fun o ho => ?_, nofun⟩
    cases ho
    rw [sent]
    exact hsound.sent

theorem Comes.contents_cases {f : Effect} {r : Except SessionError HandshakeOutcome} {d' : Device}
    (h : d.Comes (.ok f) r d') : d'.contents = d.contents ∨ d'.contents = f.contents := by
  cases h with
  | struck armed keeps contents => exact .inl contents
  | done keeps contents => exact .inr contents

theorem Comes.opensNone {f : Except SessionError Effect} {r : Except SessionError HandshakeOutcome}
    {d' : Device} (h : d.Comes f r d') (hf : ∀ f', f = .ok f' → d.contents.OpensNone f'.contents) :
    d.contents.OpensNone d'.contents := by
  cases h with
  | refused keeps contents => exact contents ▸ fun _ _ hq => hq
  | struck armed keeps contents => exact contents ▸ fun _ _ hq => hq
  | done keeps contents => exact contents ▸ hf _ rfl

/-! ### Steps of a handshake -/

theorem comes_initiate (h : d.IsSound suite) (peer : Address) (thread : UInt64) :
    d.Comes (.ok (d.party.opened suite d.contents peer)) (d.initiate suite peer thread).1
      (d.initiate suite peer thread).2 :=
  settle_perform h.rate (d.party.perform_planInitiate h.readable peer thread)

theorem succeeds_initiate (h : d.IsSound suite) (peer : Address) (thread : UInt64) :
    d.Succeeds suite (d.initiate suite peer thread) := by
  refine (comes_initiate h peer thread).succeeds h (fun f hf => ?_) nofun
  cases hf
  exact Party.isSound_opened h.identity h.contents

section Messages
variable (h : d.IsSound suite)
include h

/-- A message that is read takes a device as it takes its party. -/
theorem comes_receive {e : Envelope} {m : HandshakeMessage}
    (hread : HandshakeMessage.decode e.kind e.payload = .ok m) (hm : m.IsSound suite) :
    ∃ f, d.party.Takes suite d.contents e.link.source m f ∧
      d.Comes f (d.receive suite e).1 (d.receive suite e).2 := by
  obtain ⟨f, hplanned, htakes⟩ :=
    d.party.perform_planReceive h.readable h.fault e.link.source e.thread hm
  refine ⟨f, htakes, ?_⟩
  simp only [receive, Party.receivePayload, hread]
  exact settle_perform h.rate hplanned

theorem succeeds_receive (hs : suite.KeepsKeys) {e : Envelope} {m : HandshakeMessage}
    (hread : HandshakeMessage.decode e.kind e.payload = .ok m) (hm : m.IsSound suite) :
    d.Succeeds suite (d.receive suite e) := by
  obtain ⟨f, htakes, hcomes⟩ := comes_receive h hread hm
  refine hcomes.succeeds h (fun f' hf => ?_) fun error hf => ?_
  · subst hf
    exact htakes.isSound hs h.identity h.contents h.held
  · subst hf
    exact htakes.isExplained

theorem comes_useBundle {b : PreKeyBundle} {peer : Address} (hdevice : b.deviceId = peer.device)
    (hprekey : suite.IsPublic b.prekey) (hidentity : suite.IsPublic b.identityKey)
    (thread : UInt64) :
    ∃ f, d.party.UsesBundle suite d.contents peer b f ∧
      d.Comes f (d.useBundle suite peer thread b).1 (d.useBundle suite peer thread b).2 := by
  obtain ⟨f, hplanned, huses⟩ := d.party.perform_planFromBundle h.readable peer thread hdevice
    fun _ _ => ⟨hprekey, hprekey, hidentity⟩
  exact ⟨f, huses, settle_perform h.rate hplanned⟩

theorem succeeds_useBundle (hs : suite.KeepsKeys) {b : PreKeyBundle} {peer : Address}
    (hdevice : b.deviceId = peer.device) (hprekey : suite.IsPublic b.prekey)
    (hidentity : suite.IsPublic b.identityKey) (thread : UInt64) :
    d.Succeeds suite (d.useBundle suite peer thread b) := by
  obtain ⟨f, huses, hcomes⟩ := comes_useBundle h hdevice hprekey hidentity thread
  refine hcomes.succeeds h (fun f' hf => ?_) fun error hf => ?_
  · subst hf
    exact huses.isSound hs h.identity h.contents
  · subst hf
    exact huses.isExplained

end Messages

theorem environment_initiate (h : d.IsSound suite) (peer : Address) (thread : UInt64) :
    (d.initiate suite peer thread).2.party.environment =
      d.party.environment.uint32.2.afterExchange suite :=
  (environment_settle_perform _).trans (d.party.environment_planInitiate h.readable peer thread)

section Environment
variable (h : d.IsSound suite) {e : Envelope} {m : KeyExchangeMessage}
include h

theorem environment_receive_initiate
    (hread : HandshakeMessage.decode e.kind e.payload = .ok (.initiate m))
    (hm : (HandshakeMessage.initiate m).IsSound suite)
    (htrust : d.trusts e.link.source m.identityKey = true) :
    (d.receive suite e).2.party.environment =
      if (d.contents.record e.link.source).pending.isSome then d.party.environment
      else d.party.environment.afterExchange suite := by
  simp only [receive, Party.receivePayload, hread]
  exact (environment_settle_perform _).trans
    (d.party.environment_planReceive_initiate h.readable e.link.source e.thread hm.sendable htrust)

theorem environment_receive_response
    (hread : HandshakeMessage.decode e.kind e.payload = .ok (.response m))
    (hm : (HandshakeMessage.response m).IsSound suite) :
    (d.receive suite e).2.party.environment = d.party.environment := by
  simp only [receive, Party.receivePayload, hread]
  exact (environment_settle_perform _).trans
    (d.party.environment_planReceive_response h.readable e.link.source e.thread hm.sendable)

end Environment

/-! ### Sessions from bundles -/

section Achieves
variable (h : d.IsSound suite) (hunarmed : d.isArmed = false)
include h hunarmed

/-- A device uses the bundle of a peer it trusts. -/
theorem achieves_useBundle {b : PreKeyBundle} {peer : Address} (hdevice : b.deviceId = peer.device)
    (htrust : d.trusts peer b.identityKey = true) (thread : UInt64) {ratchet : RatchetState}
    (hratchet : suite.initialState (d.party.bundleParameters (d.party.environment.keyPair suite).1
      ((d.party.environment.keyPair suite).2.keyPair suite).1 b) = .ok ratchet) :
    ∃ now, d.Achieves ⟨d.contents.install now peer (d.contents.record peer)
      (d.party.bundleState (d.party.environment.keyPair suite).1 b ratchet), .established, [], none⟩
      (d.useBundle suite peer thread b) := by
  obtain ⟨plan, now, hplan, hhas⟩ :=
    d.party.planFromBundle_of_trusted h.readable peer thread hdevice htrust hratchet
  exact ⟨now, achieves_settle_perform h.rate hunarmed hplan hhas⟩

omit hunarmed in
theorem environment_useBundle {b : PreKeyBundle} {peer : Address}
    (hdevice : b.deviceId = peer.device) (htrust : d.trusts peer b.identityKey = true)
    (thread : UInt64) :
    (d.useBundle suite peer thread b).2.party.environment =
    d.party.environment.afterExchange suite :=
  (environment_settle_perform _).trans
    (d.party.environment_planFromBundle h.readable peer thread hdevice htrust)

variable {e : Envelope} {m : PreKeyMessage}
  (hread : HandshakeMessage.decode e.kind e.payload = .ok (.bundle m))
include hread

omit h hunarmed in
theorem environment_receive_bundle :
    (d.receive suite e).2.party.environment = d.party.environment := by
  simp only [receive, Party.receivePayload, hread]
  refine (environment_settle_perform _).trans ?_
  simp only [Party.planReceive, Draw.perform_bind, Draw.perform_get, Draw.perform_lift]

/-- A device takes in a first message of a peer it trusts about a prekey it holds. -/
theorem achieves_receive_of_held {prekey : KeyPair}
    (hheld : d.party.prekeys.held.get? m.prekeyId = some prekey)
    (htrust : d.trusts e.link.source m.identityKey = true) {ratchet : RatchetState}
    (hratchet : suite.initialState (d.party.messageParameters prekey m) = .ok ratchet) :
    ∃ now, d.Achieves ⟨d.contents.install now e.link.source (d.contents.record e.link.source)
      (.fresh d.party.identity.publicKey m.identityKey ratchet), .established, [],
      d.party.usedUp m.prekeyId⟩ (d.receive suite e) := by
  obtain ⟨plan, hplan, hhas⟩ := d.party.planFromMessage_of_held h.readable h.fault e.link.source
    e.thread d.party.environment.now hheld htrust hratchet
  refine ⟨d.party.environment.now, ?_⟩
  simp only [receive, Party.receivePayload, hread]
  refine achieves_settle_perform h.rate hunarmed ?_ hhas
  simp only [Party.planReceive, Draw.perform_bind, Draw.perform_get, Draw.perform_lift]
  exact hplan

/-- A device drops a first message about a prekey that is gone where it has an active session. -/
theorem achieves_receive_of_gone (hgone : d.party.prekeys.held.get? m.prekeyId = none)
    (hactive : (d.contents.record e.link.source).isActive = true) :
    d.Achieves (.dropped d.contents .duplicate) (d.receive suite e) := by
  simp only [receive, Party.receivePayload, hread]
  refine achieves_settle_perform h.rate hunarmed ?_ (Step.has_dropped d.vault .duplicate)
  simp only [Party.planReceive, Draw.perform_bind, Draw.perform_get, Draw.perform_lift]
  rw [d.party.planFromMessage_of_gone h.fault e.link.source e.thread d.party.environment.now hgone,
    h.readable.containsSession_eq]
  show (Except.ok (d.contents.record e.link.source).isActive).bind _ = _
  rw [hactive]
  rfl

end Achieves

/-! ### Other steps -/

theorem isSound_create (address : Address) (e : Environment) (config : SessionConfig)
    {identity : KeyPair} (hi : suite.Owns identity) :
    (create address e config identity).IsSound suite where
  rate := rfl
  readable := Vault.readable_empty
  fault := rfl
  held := nofun
  identity := hi
  contents := Contents.isSound_empty

theorem IsSound.rotateIdentity (h : d.IsSound suite) {identity : KeyPair}
    (hi : suite.Owns identity) : (d.rotateIdentity identity).IsSound suite :=
  ⟨h.rate, h.readable, h.fault, h.held, hi, h.contents⟩

theorem IsSound.failNextCommit (h : d.IsSound suite) : d.failNextCommit.IsSound suite :=
  ⟨h.rate, h.readable, h.fault, h.held, h.identity, h.contents⟩

theorem IsSound.publishNext (h : d.IsSound suite) : (d.publishNext suite).2.IsSound suite := by
  refine ⟨h.rate, h.readable, h.fault, fun id pair hpair => ?_, h.identity, h.contents⟩
  have hget : (d.party.prekeys.held.insert d.nextPreKey (d.party.environment.keyPair suite).1).get?
      id = some pair := hpair
  rw [SortedMap.get?_insert] at hget
  split at hget
  · cases hget
    exact suite.owns_keyPair _
  · exact h.held id pair hget

/-- The bundle a device publishes is for the device, with keys made of secrets. -/
theorem bundle_publishNext (h : d.IsSound suite) :
    (d.publishNext suite).1.deviceId = d.address.device ∧
      suite.IsPublic (d.publishNext suite).1.prekey ∧
      suite.IsPublic (d.publishNext suite).1.identityKey :=
  ⟨rfl, (suite.owns_keyPair _).isPublic, h.identity.isPublic⟩

theorem firstMessage?_eq (h : d.vault.Readable) (peer : Address) (text : Bytes) :
    d.firstMessage? peer text =
      .ok ((d.contents.record peer).current.bind fun s => s.wrap? (s.nextMessage text)) := by
  simp only [firstMessage?, h.load_eq]
  rfl

/-- The first message on a session is sound. -/
theorem firstMessage?_spec (h : d.IsSound suite) (peer : Address) {text : Bytes}
    (htext : text.length < 2 ^ 62) :
    ∃ m, d.firstMessage? peer text = .ok m ∧
      ∀ m', m = some m' → (HandshakeMessage.bundle m').IsSound suite := by
  refine ⟨_, firstMessage?_eq h.readable peer text, fun m hm => ?_⟩
  obtain ⟨s, hcurrent, hwrap⟩ := Option.bind_eq_some_iff.mp hm
  obtain ⟨u, hu, rfl⟩ := Option.map_eq_some_iff.mp hwrap
  have hsound := (h.contents.record peer).current s hcurrent
  exact ⟨htext, hsound.base u hu, hsound.ratchet, hsound.identity⟩

theorem keeps_storage {s : Storage} (hrate : s.faults.rate = d.storage.faults.rate)
    (harmed : s.faults.armed = true → d.isArmed = true)
    (hreadable : d.vault.Readable → (s.vault d.party.account).Readable) :
    d.Keeps { d with storage := s } :=
  ⟨rfl, rfl, rfl, rfl, fun _ _ h => h, hrate, harmed, hreadable⟩

/-- A device that runs a plan for sound contents comes out sound or fails by design. -/
theorem runPlan_spec {α : Type} {plan : Vault → Except SessionError (Plan α)} {planned : Plan α}
    {c : Contents} (h : d.IsSound suite) (hplan : plan d.vault = .ok planned)
    (hwrites : planned.Writes d.vault c) (hc : c.IsSound suite) :
    d.Keeps (d.runPlan plan).2 ∧ (d.runPlan plan).2.IsSound suite ∧
      ((d.runPlan plan).2.contents = d.contents ∨ (d.runPlan plan).2.contents = c) ∧
      ∀ e, (d.runPlan plan).1 = .error e → e.IsExplained suite := by
  have hrun : d.runPlan plan = ((d.storage.carryOut d.party.account (.ok planned)).1,
      { d with storage := (d.storage.carryOut d.party.account (.ok planned)).2 }) := by
    rw [← hplan]
    rfl
  rw [hrun]
  rcases carryOut_cases h.rate d.party.account planned with
    ⟨n, s, hs, harmed, hvault, hrate, hdisarmed⟩ | ⟨s, hs, hfaults, hvault⟩
  · rw [hs]
    have hkeeps : d.Keeps { d with storage := s } :=
      keeps_storage (hrate.trans h.rate.symm) (fun _ => harmed) fun hv => by rw [hvault]; exact hv
    have hsame : Device.contents { d with storage := s } = d.contents :=
      congrArg Vault.contents hvault
    exact ⟨hkeeps, hkeeps.isSound h (hsame ▸ h.contents), .inl hsame,
      fun e he => by cases he; exact .inl trivial⟩
  · rw [hs]
    have hkeeps : d.Keeps { d with storage := s } :=
      keeps_storage (congrArg Faults.rate hfaults)
        (fun ha => (congrArg Faults.armed hfaults).symm.trans ha)
        fun hv => by rw [hvault]; exact hv.apply hwrites.bounded
    have hafter : Device.contents { d with storage := s } = c :=
      (congrArg Vault.contents hvault).trans hwrites.contents
    exact ⟨hkeeps, hkeeps.isSound h (hafter ▸ hc), .inr hafter, nofun⟩

/-- To note that the peer answered keeps a device sound and fails by design only. -/
theorem acknowledge_spec (h : d.IsSound suite) (peer : Address) :
    d.Keeps (d.runPlan (·.acknowledge peer)).2 ∧ (d.runPlan (·.acknowledge peer)).2.IsSound suite ∧
      d.contents.OpensNone (d.runPlan (·.acknowledge peer)).2.contents ∧
      ∀ e, (d.runPlan (·.acknowledge peer)).1 = .error e → e.IsExplained suite := by
  have hput : (d.contents.put peer (d.contents.record peer).acknowledge).IsSound suite := by
    obtain ⟨hpending, hcurrent⟩ := h.contents.record peer
    refine h.contents.put ⟨hpending, fun s hs => ?_⟩ fun s hs => ?_
    · obtain ⟨s', hs', rfl⟩ := Option.map_eq_some_iff.mp hs
      exact ⟨(hcurrent s' hs').identity, (hcurrent s' hs').ratchet, nofun⟩
    · obtain ⟨s', hs', rfl⟩ := Option.map_eq_some_iff.mp hs
      exact ⟨s', hs', rfl⟩
  obtain ⟨planned, c, hplan, hwrites, hc, hnone⟩ : ∃ planned c, d.vault.acknowledge peer =
      .ok planned ∧ planned.Writes d.vault c ∧ c.IsSound suite ∧ d.contents.OpensNone c := by
    simp only [Vault.acknowledge, h.readable.load_eq, bind, Except.bind]
    cases (d.vault.contents.record peer).isUnacknowledged with
    | true =>
      have hbounded : (d.vault.contents.record peer).acknowledge.IsBounded :=
        d.vault.isBounded_record peer
      exact ⟨_, _, rfl, (d.vault.writes_store peer hbounded).map _, hput,
        Contents.opensNone_put fun _ hq => hq⟩
    | false => exact ⟨_, _, rfl, Plan.writes_reply _ _, h.contents, fun _ _ hq => hq⟩
  have hspec : d.Keeps (d.runPlan (·.acknowledge peer)).2 ∧ _ := runPlan_spec h hplan hwrites hc
  obtain ⟨hkeeps, hsound, hcontents, hfails⟩ := hspec
  refine ⟨hkeeps, hsound, ?_, hfails⟩
  rcases hcontents with hcontents | hcontents <;> rw [hcontents]
  · exact fun _ _ hq => hq
  · exact hnone

end SecureSession.Device
