import SecureSession.Proofs.Codec.Messages
import SecureSession.Proofs.Handshake.Effects

/-! # What parties plan

Each step of a handshake is planned as its effect says. Where everything stored can be read
and the keys of the other side are made of secrets, a plan is refused for no other reason
than those listed there. -/

namespace SecureSession

/-! ### Drawing -/

namespace Draw

variable {α β : Type}

theorem perform_bind (d : Draw α) (f : α → Draw β) (e : Environment) :
    (d >>= f).perform e =
      match d.perform e with
      | (.ok a, e) => (f a).perform e
      | (.error err, e) => (.error err, e) := by
  have hbind : (d >>= f) e = EStateM.bind d f e := rfl
  unfold perform
  rw [hbind]
  unfold EStateM.bind
  cases d e <;> rfl

theorem perform_pure (a : α) (e : Environment) : (pure a : Draw α).perform e = (.ok a, e) := rfl

theorem perform_lift (r : Except SessionError α) (e : Environment) :
    (lift r).perform e = (r, e) := by
  cases r <;> rfl

theorem perform_get (e : Environment) : (get : Draw Environment).perform e = (.ok e, e) := rfl

theorem perform_uint32 (e : Environment) : uint32.perform e = (.ok e.uint32.1, e.uint32.2) := rfl

theorem perform_keyPair (suite : Suite) (e : Environment) :
    (keyPair suite).perform e = (.ok (e.keyPair suite).1, (e.keyPair suite).2) := rfl

end Draw

/-! ### Plans with an effect -/

/-- Whether a plan for a vault has an effect: it commits to the contents, or it changes nothing and
writes nothing. -/
structure Plan.Has (plan : Plan Step) (v : Vault) (f : Effect) : Prop where
  writes : plan.Writes v f.contents
  idle : plan.writes.isEmpty = true → f.contents = v.contents
  status : plan.answer.outcome.status = f.status
  sent : SessionAction.sent plan.answer.outcome.actions = f.sent
  consumed : plan.answer.consumed = f.consumed

/-- Whether the result of planning for a vault is that of a step: an effect, or a refusal. -/
inductive Planned (v : Vault) : Except SessionError (Plan Step) → Except SessionError Effect → Prop
  | refused (e : SessionError) : Planned v (.error e) (.error e)
  | made {plan : Plan Step} {f : Effect} (h : plan.Has v f) : Planned v (.ok plan) (.ok f)

theorem Step.has_dropped (v : Vault) (status : HandshakeStatus) :
    (dropped status).Has v (.dropped v.contents status) :=
  ⟨Plan.writes_reply _ v, fun _ => rfl, rfl, rfl, rfl⟩

namespace Party

variable {suite : Suite} (p : Party) {v : Vault}

/-! ### Opening -/

theorem perform_drawExchange (sequence : UInt32) (e : Environment) :
    (p.drawExchange suite sequence).perform e =
      (.ok (e.exchange suite p.identity sequence), ((e.keyPair suite).2.keyPair suite).2) := rfl

theorem perform_planInitiate (hv : v.Readable) (a : Address) (thread : UInt64) :
    Planned v ((p.planInitiate suite a thread v).perform p.environment).1
      (.ok (p.opened suite v.contents a)) := by
  have hbounded : ((v.contents.record a).setPending (p.opening suite)).IsBounded :=
    v.isBounded_record a
  have hput := Batch.empty.isEmpty_put a ((v.contents.record a).setPending (p.opening suite))
  simp only [planInitiate, Draw.perform_bind, Draw.perform_lift, hv.load_eq, Draw.perform_uint32,
    perform_drawExchange, Draw.perform_pure]
  exact .made
    ⟨(v.writes_store a hbounded).map _, fun h => absurd (hput.symm.trans h) (by simp), rfl,
    rfl, rfl⟩

theorem environment_planInitiate (hv : v.Readable) (a : Address) (thread : UInt64) :
    ((p.planInitiate suite a thread v).perform p.environment).2 =
      p.environment.uint32.2.afterExchange suite := by
  simp only [planInitiate, Draw.perform_bind, Draw.perform_lift, hv.load_eq, Draw.perform_uint32,
    perform_drawExchange, Draw.perform_pure]
  rfl

/-! ### New sessions -/

/-- A plan of a new session has the effect of installing it, whatever is done with it. -/
theorem has_install (hv : v.Readable) (now : UInt64) (a : Address) {r : SessionRecord}
    (hr : r.IsBounded) (s : SessionState) (first last : List SessionAction)
    (hlast : SessionAction.sent last = []) (consumed : Option UInt32) :
    ∃ plan, p.install v now a r s = .ok plan ∧
      (plan.map fun update =>
        (⟨⟨.established, first ++ update.actions ++ last⟩, consumed⟩ : Step)).Has v
        ⟨v.contents.install now a r s, .established, SessionAction.sent first, consumed⟩ := by
  obtain ⟨plan, hplan, hnonempty, hwrites, hactions⟩ := p.install_spec hv now a hr s
  refine ⟨plan, hplan, hwrites.map _, fun h => absurd (hnonempty.symm.trans h) (by simp),
    rfl, ?_, rfl⟩
  show SessionAction.sent (first ++ plan.answer.actions ++ last) = _
  rw [SessionAction.sent_append, SessionAction.sent_append, SessionAction.sent_eq_nil hactions,
    hlast, List.append_nil, List.append_nil]

theorem planCompletion_eq_error (a : Address) (thread : UInt64) {q : PendingExchange}
    {m : KeyExchangeMessage} {e : CryptoError}
    (h : suite.initialState (exchangeParameters q m) = .error e)
    (first : List SessionAction) (now : UInt64) :
    p.planCompletion suite a thread (v.contents.record a) q m first now v = .error (.crypto e) := by
  simp only [planCompletion, h]
  rfl

/-- Where a ratchet starts, an exchange is completed. -/
theorem planCompletion_spec (hv : v.Readable) (a : Address) (thread : UInt64) {q : PendingExchange}
    {m : KeyExchangeMessage} {ratchet : RatchetState}
    (hratchet : suite.initialState (exchangeParameters q m) = .ok ratchet)
    (first : List SessionAction) (now : UInt64) :
    ∃ plan, p.planCompletion suite a thread (v.contents.record a) q m first now v = .ok plan ∧
      plan.Has v
        ⟨v.contents.complete now a q m ratchet, .established, SessionAction.sent first, none⟩ := by
  have hbounded : (v.contents.record a).clearPending.purgeLegacy.IsBounded :=
    SessionRecord.IsBounded.purgeLegacy (v.isBounded_record a)
  obtain ⟨plan, hplan, hhas⟩ := p.has_install hv now a hbounded
    (.fresh q.identity.publicKey m.identityKey ratchet) first
    [.drainPending a, .securityUpdate thread]
    rfl none
  refine ⟨_, ?_, hhas⟩
  simp only [planCompletion, hratchet, Except.mapError, bind, Except.bind, hplan]
  rfl

/-- From the bundle of a trusted peer a session is planned with the next two keys drawn, where a
ratchet starts from them. -/
theorem planFromBundle_of_trusted (hv : v.Readable) (a : Address) (thread : UInt64)
    {b : PreKeyBundle} (hdevice : b.deviceId = a.device)
    (htrust : v.contents.trusts p.trust.policy a.name b.identityKey = true) {ratchet : RatchetState}
    (hratchet : suite.initialState (p.bundleParameters (p.environment.keyPair suite).1
      ((p.environment.keyPair suite).2.keyPair suite).1 b) = .ok ratchet) :
    ∃ plan now, ((p.planFromBundle suite a thread b v).perform p.environment).1 = .ok plan ∧
      plan.Has v ⟨v.contents.install now a (v.contents.record a)
        (p.bundleState (p.environment.keyPair suite).1 b ratchet), .established, [], none⟩ := by
  obtain ⟨plan, hplan, hhas⟩ := p.has_install hv
    ((p.environment.keyPair suite).2.keyPair suite).2.now a (v.isBounded_record a)
    (p.bundleState (p.environment.keyPair suite).1 b ratchet) [] [.securityUpdate thread] rfl none
  refine ⟨_, _, ?_, hhas⟩
  have hdevice' : ¬b.deviceId ≠ a.device := fun h => h hdevice
  simp only [planFromBundle, if_neg hdevice', Draw.perform_bind, Draw.perform_lift, hv.require_eq,
    htrust, if_true, Draw.perform_keyPair, Draw.perform_get]
  simp only [hratchet, hv.load_eq, Except.mapError, bind, Except.bind, hplan]
  rfl

/-- For a session from a bundle, the keys of an exchange are drawn. -/
theorem environment_planFromBundle (hv : v.Readable) (a : Address) (thread : UInt64)
    {b : PreKeyBundle} (hdevice : b.deviceId = a.device)
    (htrust : v.contents.trusts p.trust.policy a.name b.identityKey = true) :
    ((p.planFromBundle suite a thread b v).perform p.environment).2 =
      p.environment.afterExchange suite := by
  have hdevice' : ¬b.deviceId ≠ a.device := fun h => h hdevice
  simp only [planFromBundle, if_neg hdevice', Draw.perform_bind, Draw.perform_lift, hv.require_eq,
    htrust, if_true, Draw.perform_keyPair, Draw.perform_get]
  rfl

theorem perform_planFromBundle (hv : v.Readable) (a : Address) (thread : UInt64) {b : PreKeyBundle}
    (hdevice : b.deviceId = a.device)
    (hb : ∀ base ephemeral, (p.bundleParameters base ephemeral b).IsSound suite) :
    ∃ f, Planned v ((p.planFromBundle suite a thread b v).perform p.environment).1 f ∧
      p.UsesBundle suite v.contents a b f := by
  have hdevice' : ¬b.deviceId ≠ a.device := fun h => h hdevice
  cases htrust : v.contents.trusts p.trust.policy a.name b.identityKey with
  | false =>
    simp only [planFromBundle, if_neg hdevice', Draw.perform_bind, Draw.perform_lift, hv.require_eq,
      htrust]
    exact ⟨_, .refused _, .untrusted htrust⟩
  | true =>
    cases hratchet : suite.initialState (p.bundleParameters (p.environment.keyPair suite).1
        ((p.environment.keyPair suite).2.keyPair suite).1 b) with
    | error e =>
      simp only [planFromBundle, if_neg hdevice', Draw.perform_bind, Draw.perform_lift,
        hv.require_eq, htrust, if_true, Draw.perform_keyPair, Draw.perform_get, hratchet]
      exact ⟨_, .refused _, .underivable (Suite.not_starts (hb _ _) hratchet)⟩
    | ok ratchet =>
      obtain ⟨plan, now, hplan, hhas⟩ :=
        p.planFromBundle_of_trusted hv a thread hdevice htrust hratchet
      rw [hplan]
      exact ⟨_, .made hhas, .built (suite.owns_keyPair _) (suite.owns_keyPair _) hratchet⟩

end Party

/-! ### Sound messages -/

/-- Whether the keys of a leg are public keys of secrets. -/
structure KeyExchangeMessage.HasPublicKeys (suite : Suite) (m : KeyExchangeMessage) : Prop where
  base : suite.IsPublic m.baseKey
  ephemeral : suite.IsPublic m.ephemeralKey
  identity : suite.IsPublic m.identityKey

/-- Whether the keys of a first message are public keys of secrets. -/
structure PreKeyMessage.HasPublicKeys (suite : Suite) (m : PreKeyMessage) : Prop where
  base : suite.IsPublic m.baseKey
  ephemeral : suite.IsPublic m.message.senderEphemeral
  identity : suite.IsPublic m.identityKey

namespace HandshakeMessage

/-- Whether the keys in a message are public keys of secrets. -/
def HasPublicKeys (suite : Suite) : HandshakeMessage → Prop
  | bundle m => m.HasPublicKeys suite
  | initiate m | response m => m.HasPublicKeys suite
  | legacy .. => True

/-- A message as parties send it: it can be read, and its keys are public keys of secrets. -/
structure IsSound (suite : Suite) (m : HandshakeMessage) : Prop where
  sendable : m.IsSendable
  keys : m.HasPublicKeys suite

end HandshakeMessage

namespace Party

variable {suite : Suite} (p : Party) {v : Vault}

/-! ### Legs of an exchange -/

theorem perform_drawAnswer (r : SessionRecord) (sequence : UInt32) :
    (p.drawAnswer suite r sequence).perform p.environment =
      (.ok (p.answer suite r.pending sequence, answerFlags r.pending),
        if r.pending.isSome then p.environment else p.environment.afterExchange suite) := by
  cases h : r.pending <;> simp only [drawAnswer, h] <;> rfl

theorem perform_planAnswer (hv : v.Readable) (a : Address) (thread : UInt64)
    {m : KeyExchangeMessage} (hm : m.HasPublicKeys suite) :
    ∃ f, Planned v
        ((p.planAnswer suite a thread m (v.contents.record a) v).perform p.environment).1 f ∧
      p.Takes suite v.contents a (.initiate m) f := by
  simp only [planAnswer, Draw.perform_bind, Draw.perform_lift, hv.require_eq]
  cases htrust : v.contents.trusts p.trust.policy a.name m.identityKey with
  | false => exact ⟨_, .refused _, .untrustedInitiate htrust⟩
  | true =>
    simp only [if_true, perform_drawAnswer, Draw.perform_get]
    cases hratchet : suite.initialState (exchangeParameters
        (p.answer suite (v.contents.record a).pending m.sequence) m) with
    | error e =>
      rw [p.planCompletion_eq_error a thread hratchet]
      exact ⟨_, .refused _, .underivable (Suite.not_starts ⟨hm.1, hm.2, hm.3⟩ hratchet)⟩
    | ok ratchet =>
      obtain ⟨plan, hplan, hhas⟩ := p.planCompletion_spec hv a thread hratchet
        [.sendHandshake a thread (.response ((p.answer suite (v.contents.record a).pending
          m.sequence).leg (answerFlags (v.contents.record a).pending)))] _
      rw [hplan]
      exact ⟨_, .made hhas, .answered rfl hratchet⟩

/-- To answer an initiate, keys are drawn unless an exchange is under way. -/
theorem environment_planAnswer (hv : v.Readable) (a : Address) (thread : UInt64)
    {m : KeyExchangeMessage}
    (htrust : v.contents.trusts p.trust.policy a.name m.identityKey = true) :
    ((p.planAnswer suite a thread m (v.contents.record a) v).perform p.environment).2 =
      if (v.contents.record a).pending.isSome then p.environment
      else p.environment.afterExchange suite := by
  simp only [planAnswer, Draw.perform_bind, Draw.perform_lift, hv.require_eq, htrust, if_true,
    perform_drawAnswer, Draw.perform_get]

theorem planResponse_spec (hv : v.Readable) (a : Address) (thread : UInt64)
    {m : KeyExchangeMessage} (hm : m.HasPublicKeys suite) (now : UInt64) :
    ∃ f, Planned v (p.planResponse suite a thread m (v.contents.record a) now v) f ∧
      p.Takes suite v.contents a (.response m) f := by
  cases hanswered : answered? (v.contents.record a) m.sequence with
  | none =>
    simp only [planResponse, hanswered]
    refine ⟨_, .made (Step.has_dropped v .stale), .stale fun q hq hsequence => ?_⟩
    simp [answered?, hq, hsequence] at hanswered
  | some q =>
    obtain ⟨hpending, hsequence⟩ := Option.filter_eq_some_iff.mp hanswered
    simp only [planResponse, hanswered, hv.require_eq]
    cases htrust : v.contents.trusts p.trust.policy a.name m.identityKey with
    | false => exact ⟨_, .refused _, .untrustedResponse htrust⟩
    | true =>
      simp only [if_true, bind, Except.bind]
      cases hratchet : suite.initialState (exchangeParameters q m) with
      | error e =>
        rw [p.planCompletion_eq_error a thread hratchet]
        exact ⟨_, .refused _, .underivable (Suite.not_starts ⟨hm.1, hm.2, hm.3⟩ hratchet)⟩
      | ok ratchet =>
        obtain ⟨plan, hplan, hhas⟩ := p.planCompletion_spec hv a thread hratchet [] now
        rw [hplan]
        exact ⟨_, .made hhas, .completed hpending (by simpa using hsequence) hratchet⟩

/-! ### First messages -/

/-- For a first message about a prekey that is not held, nothing is planned but an answer. -/
theorem planFromMessage_of_gone (hfault : p.prekeys.fault = none) (a : Address) (thread : UInt64)
    {m : PreKeyMessage} (now : UInt64) (hgone : p.prekeys.held.get? m.prekeyId = none) :
    p.planFromMessage suite a thread m now v = (v.containsSession a).bind fun active =>
      if active then .ok (Step.dropped .duplicate) else .error (.invalidKeyId m.prekeyId) := by
  have hcontains : p.prekeys.contains m.prekeyId = .ok false := by
    rw [PreKeys.contains_eq hfault, hgone]
    rfl
  simp only [planFromMessage, hcontains]
  cases v.containsSession a with
  | error e => rfl
  | ok active => cases active <;> rfl

/-- From a first message of a trusted peer a session is planned with the prekey it names, where a
ratchet starts from it. -/
theorem planFromMessage_of_held (hv : v.Readable) (hfault : p.prekeys.fault = none) (a : Address)
    (thread : UInt64) {m : PreKeyMessage} (now : UInt64) {prekey : KeyPair}
    (hheld : p.prekeys.held.get? m.prekeyId = some prekey)
    (htrust : v.contents.trusts p.trust.policy a.name m.identityKey = true) {ratchet : RatchetState}
    (hratchet : suite.initialState (p.messageParameters prekey m) = .ok ratchet) :
    ∃ plan, p.planFromMessage suite a thread m now v = .ok plan ∧
      plan.Has v ⟨v.contents.install now a (v.contents.record a)
        (.fresh p.identity.publicKey m.identityKey ratchet), .established, [],
        p.usedUp m.prekeyId⟩ := by
  have hcontains : p.prekeys.contains m.prekeyId = .ok true := by
    rw [PreKeys.contains_eq hfault, hheld]
    rfl
  have hload := PreKeys.load_eq hfault hheld
  obtain ⟨plan, hplan, hhas⟩ := p.has_install hv now a (v.isBounded_record a)
    (.fresh p.identity.publicKey m.identityKey ratchet) [] [.securityUpdate thread] rfl
    (p.usedUp m.prekeyId)
  refine ⟨_, ?_, hhas⟩
  simp only [planFromMessage, hcontains, hload, SessionError.ofStorage, Except.mapError,
    hv.require_eq, htrust, if_true, hratchet, hv.load_eq, bind, Except.bind, hplan]
  rfl

theorem planFromMessage_spec (hv : v.Readable)
    (hfault : p.prekeys.fault = none) (a : Address) (thread : UInt64) {m : PreKeyMessage}
    (hm : m.HasPublicKeys suite) (now : UInt64) :
    ∃ f, Planned v (p.planFromMessage suite a thread m now v) f ∧
      p.Takes suite v.contents a (.bundle m) f := by
  cases hheld : p.prekeys.held.get? m.prekeyId with
  | none =>
    rw [p.planFromMessage_of_gone hfault a thread now hheld, hv.containsSession_eq]
    cases (v.contents.record a).isActive with
    | true => exact ⟨_, .made (Step.has_dropped v .duplicate), .duplicate⟩
    | false => exact ⟨_, .refused _, .unknownPreKey⟩
  | some prekey =>
    have hcontains : p.prekeys.contains m.prekeyId = .ok true := by
      rw [PreKeys.contains_eq hfault, hheld]
      rfl
    have hload := PreKeys.load_eq hfault hheld
    cases htrust : v.contents.trusts p.trust.policy a.name m.identityKey with
    | false =>
      simp only [planFromMessage, hcontains, SessionError.ofStorage, Except.mapError, hv.require_eq,
        htrust, bind, Except.bind]
      exact ⟨_, .refused _, .untrustedSender htrust⟩
    | true =>
      cases hratchet : suite.initialState (p.messageParameters prekey m) with
      | error e =>
        simp only [planFromMessage, hcontains, hload, SessionError.ofStorage, Except.mapError,
          hv.require_eq, htrust, if_true, hratchet, bind, Except.bind]
        exact ⟨_, .refused _, .underivable (Suite.not_starts ⟨hm.1, hm.2, hm.3⟩ hratchet)⟩
      | ok ratchet =>
        obtain ⟨plan, hplan, hhas⟩ :=
          p.planFromMessage_of_held hv hfault a thread now hheld htrust hratchet
        rw [hplan]
        exact ⟨_, .made hhas, .built hheld hratchet⟩

/-! ### Any message -/

/-- A message is planned for as it is taken in. -/
theorem perform_planReceive (hv : v.Readable)
    (hfault : p.prekeys.fault = none) (a : Address) (thread : UInt64) {m : HandshakeMessage}
    (hm : m.IsSound suite) :
    ∃ f, Planned v ((p.planReceive suite a thread m v).perform p.environment).1 f ∧
      p.Takes suite v.contents a m f := by
  obtain ⟨hsendable, hkeys⟩ := hm
  cases m with
  | bundle m =>
    simp only [planReceive, Draw.perform_bind, Draw.perform_get, Draw.perform_lift]
    exact p.planFromMessage_spec hv hfault a thread hkeys p.environment.now
  | initiate m =>
    simp only [planReceive, planExchange, Draw.perform_bind, Draw.perform_lift, hv.load_eq,
      hsendable.2, if_true]
    exact p.perform_planAnswer hv a thread hkeys
  | response m =>
    simp only [planReceive, planExchange, Draw.perform_bind, Draw.perform_lift, hv.load_eq,
      hsendable.2, Bool.false_eq_true, if_false, Draw.perform_get]
    exact p.planResponse_spec hv a thread hkeys p.environment.now
  | legacy kind used => exact hsendable.elim

theorem environment_planReceive_initiate (hv : v.Readable) (a : Address) (thread : UInt64)
    {m : KeyExchangeMessage} (hm : (HandshakeMessage.initiate m).IsSendable)
    (htrust : v.contents.trusts p.trust.policy a.name m.identityKey = true) :
    ((p.planReceive suite a thread (.initiate m) v).perform p.environment).2 =
      if (v.contents.record a).pending.isSome then p.environment
      else p.environment.afterExchange suite := by
  simp only [planReceive, planExchange, Draw.perform_bind, Draw.perform_lift, hv.load_eq,
    hm.2, if_true]
  exact p.environment_planAnswer hv a thread htrust

theorem environment_planReceive_response (hv : v.Readable) (a : Address) (thread : UInt64)
    {m : KeyExchangeMessage} (hm : (HandshakeMessage.response m).IsSendable) :
    ((p.planReceive suite a thread (.response m) v).perform p.environment).2 = p.environment := by
  simp only [planReceive, planExchange, Draw.perform_bind, Draw.perform_lift, hv.load_eq, hm.2,
    Bool.false_eq_true, if_false, Draw.perform_get]

end Party

end SecureSession
