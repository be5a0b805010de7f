import SecureSession.Handshake.Receive
import SecureSession.Proofs.Handshake.Plans

/-! # The shapes of handshake plans

Whatever is stored, readable or not, a step of a handshake that can be planned drops a message,
opens an exchange, or installs one session on top of the record at its address after the peer's key
was found trusted. `Party.Plans` lists these shapes; `Party.Settles` leaves out the second and says
which session is installed, and when. -/

namespace SecureSession

/-! ### Drawing -/

theorem Draw.perform_bind_eq_ok {α β : Type} {d : Draw α} {f : α → Draw β} {e e' : Environment}
    {b : β} : (d >>= f).perform e = (.ok b, e') ↔
      ∃ a e₁, d.perform e = (.ok a, e₁) ∧ (f a).perform e₁ = (.ok b, e') := by
  rw [perform_bind]
  rcases d.perform e with ⟨err | a, e₁⟩ <;> simp

theorem Draw.perform_lift_eq_ok {α : Type} {x : Except SessionError α}
    {e e' : Environment} {a : α} : (lift x).perform e = (.ok a, e') ↔ x = .ok a ∧ e' = e := by
  rw [perform_lift, Prod.mk.injEq, eq_comm (a := e)]

/-! ### What messages come to -/

namespace HandshakeMessage

/-- The record that a session made by a message goes on top of. A leg of an exchange ends the
exchange under way and drops archived sessions in versions no longer read. -/
def base : HandshakeMessage → SessionRecord → SessionRecord
  | initiate _ | response _ => fun r => r.clearPending.purgeLegacy
  | bundle _ | legacy .. => id

/-- The leg of an exchange that a message is. -/
def leg? : HandshakeMessage → Option KeyExchangeMessage
  | initiate m | response m => some m
  | bundle _ | legacy .. => none

end HandshakeMessage

/-- Whether a message was dropped. -/
def HandshakeStatus.isDropped : HandshakeStatus → Bool
  | duplicate | stale | legacy => true
  | initiated | established => false

/-- Whether a session was just built: in the current version, on a ratchet
that starts from some keys. -/
def SessionState.IsNew (suite : Suite) (s : SessionState) : Prop :=
  s.version = Version.newest ∧ ∃ q, suite.initialState q = .ok s.ratchet

/-- A record is active whose live session was just built. -/
theorem SessionRecord.isActive_of_isNew {suite : Suite} (hkeys : suite.KeepsKeys)
    {r : SessionRecord} {s : SessionState} (hcurrent : r.current = some s) (hs : s.IsNew suite) :
    r.isActive = true := by
  obtain ⟨hversion, q, hratchet⟩ := hs
  have hsend : s.canSend = true := (hkeys q s.ratchet hratchet).2.2
  simp [isActive, canSend, version, hcurrent, hsend, hversion]

namespace Party

/-- The prekey that a session made by a message uses up. -/
def usedBy (p : Party) : HandshakeMessage → Option UInt32
  | .bundle m => p.usedUp m.prekeyId
  | _ => none

/-- The exchange that a leg completes, given the record of its sender: the one it is answered with,
or the one it answers. -/
def completing? (suite : Suite) (p : Party) (r : SessionRecord) (m : KeyExchangeMessage) :
    Option PendingExchange :=
  if m.isInitiate then some (p.answer suite r.pending m.sequence) else answered? r m.sequence

/-- Whether a session is that of the exchange that a leg completes. -/
def Concludes (suite : Suite) (p : Party) (m : KeyExchangeMessage) (r : SessionRecord)
    (s : SessionState) : Prop :=
  ∃ q ratchet, p.completing? suite r m = some q ∧
    suite.initialState (exchangeParameters q m) = .ok ratchet ∧
    s = .fresh q.identity.publicKey m.identityKey ratchet

/-- Whether a message can make a session, given the record of its sender. -/
def Makes (suite : Suite) (p : Party) (m : HandshakeMessage) (r : SessionRecord)
    (s : SessionState) : Prop :=
  match m.leg? with
  | some leg => p.Concludes suite leg r s
  | none => s.IsNew suite

/-! ### Shapes -/

/-- The shapes of the plans of handshake steps with an address: `base` makes the record that a new
session goes on top of out of the stored one, and `consumed` is what the session uses up. -/
inductive Plans (p : Party) (v : Vault) (a : Address) (base : SessionRecord → SessionRecord)
    (consumed : Option UInt32) : Plan Step → Prop
  | dropped {status : HandshakeStatus} (h : status.isDropped = true) :
    Plans p v a base consumed (Step.dropped status)
  | opened {r : SessionRecord} {q : PendingExchange} {actions : List SessionAction}
    (hload : v.load a = .ok r) : Plans p v a base consumed
      ((Vault.store a (r.setPending q)).map fun _ => ⟨⟨.initiated, actions⟩, none⟩)
  | installed {r : SessionRecord} {s : SessionState} {now : UInt64} {plan : Plan IdentityUpdate}
    {actions : IdentityUpdate → List SessionAction} (hload : v.load a = .ok r)
    (htrust : p.trust.require v a s.remoteIdentity = .ok ())
    (hplan : p.install v now a (base r) s = .ok plan) : Plans p v a base consumed
      (plan.map fun u => ⟨⟨.established, actions u⟩, consumed⟩)

/-- The plans among these that open no exchange: a message is dropped, or a session that `makes`
allows for the stored record is installed now. -/
inductive Settles (p : Party) (v : Vault) (a : Address) (base : SessionRecord → SessionRecord)
    (consumed : Option UInt32) (makes : SessionRecord → SessionState → Prop) : Plan Step → Prop
  | dropped {status : HandshakeStatus} (h : status.isDropped = true) :
    Settles p v a base consumed makes (Step.dropped status)
  | installed {r : SessionRecord} {s : SessionState} {plan : Plan IdentityUpdate}
    {actions : IdentityUpdate → List SessionAction} (hload : v.load a = .ok r)
    (htrust : p.trust.require v a s.remoteIdentity = .ok ()) (hmakes : makes r s)
    (hplan : p.install v p.environment.now a (base r) s = .ok plan) :
    Settles p v a base consumed makes (plan.map fun u => ⟨⟨.established, actions u⟩, consumed⟩)

variable {suite : Suite} {p : Party} {v : Vault} {a : Address} {thread : UInt64}
  {e : Environment} {plan : Plan Step}

theorem Settles.plans {base : SessionRecord → SessionRecord} {consumed : Option UInt32}
    {makes : SessionRecord → SessionState → Prop} (h : p.Settles v a base consumed makes plan) :
    p.Plans v a base consumed plan := by
  cases h with
  | dropped h => exact .dropped h
  | installed hload htrust _ hplan => exact .installed hload htrust hplan

theorem planInitiate_eq_ok
    (h : (p.planInitiate suite a thread v).perform p.environment = (.ok plan, e)) :
    ∃ r actions, v.load a = .ok r ∧ plan = (Vault.store a (r.setPending (p.opening suite))).map
      fun _ => ⟨⟨.initiated, actions⟩, none⟩ := by
  obtain ⟨r, _, hread, h⟩ := Draw.perform_bind_eq_ok.mp h
  obtain ⟨hload, rfl⟩ := Draw.perform_lift_eq_ok.mp hread
  cases h
  exact ⟨r, _, hload, rfl⟩

/-- From a bundle a session is planned with the next two keys drawn. -/
theorem planFromBundle_eq_ok {b : PreKeyBundle}
    (h : (p.planFromBundle suite a thread b v).perform p.environment = (.ok plan, e)) :
    ∃ r ratchet plan', v.load a = .ok r ∧ p.trust.require v a b.identityKey = .ok () ∧
      suite.initialState (p.bundleParameters (p.environment.keyPair suite).1
        ((p.environment.keyPair suite).2.keyPair suite).1 b) = .ok ratchet ∧
      p.install v p.environment.now a r (p.bundleState (p.environment.keyPair suite).1 b ratchet) =
        .ok plan' ∧
      plan = plan'.map fun u => ⟨⟨.established, u.actions ++ [.securityUpdate thread]⟩, none⟩ := by
  unfold planFromBundle at h
  split at h
  · obtain ⟨_, _, hthrow, -⟩ := Draw.perform_bind_eq_ok.mp h
    cases hthrow
  · obtain ⟨⟨⟩, _, hrequire, h⟩ := Draw.perform_bind_eq_ok.mp h
    obtain ⟨htrust, rfl⟩ := Draw.perform_lift_eq_ok.mp hrequire
    obtain ⟨base, _, hbase, h⟩ := Draw.perform_bind_eq_ok.mp h
    obtain ⟨ephemeral, _, hephemeral, h⟩ := Draw.perform_bind_eq_ok.mp h
    -- to draw keys takes no time
    cases hbase
    cases hephemeral
    obtain ⟨h, -⟩ := Draw.perform_lift_eq_ok.mp h
    obtain ⟨ratchet, hratchet, h⟩ := bind_eq_ok.mp h
    obtain ⟨r, hload, h⟩ := bind_eq_ok.mp h
    obtain ⟨plan', hplan, h⟩ := bind_eq_ok.mp h
    cases h
    exact ⟨r, ratchet, plan', hload, htrust, mapError_eq_ok.mp hratchet, hplan, rfl⟩

/-- A first message is a duplicate, or a session is planned with the prekey it names. -/
theorem planFromMessage_eq_ok {m : PreKeyMessage} {now : UInt64}
    (h : p.planFromMessage suite a thread m now v = .ok plan) :
    plan = Step.dropped .duplicate ∨ ∃ r prekey ratchet plan', v.load a = .ok r ∧
      p.trust.require v a m.identityKey = .ok () ∧ p.prekeys.load m.prekeyId = .ok prekey ∧
      suite.initialState (p.messageParameters prekey m) = .ok ratchet ∧
      p.install v now a r (.fresh p.identity.publicKey m.identityKey ratchet) = .ok plan' ∧
      plan = plan'.map fun u =>
        ⟨⟨.established, u.actions ++ [.securityUpdate thread]⟩, p.usedUp m.prekeyId⟩ := by
  obtain ⟨held, -, h⟩ := bind_eq_ok.mp h
  cases held with
  | false =>
    obtain ⟨active, -, h⟩ := bind_eq_ok.mp h
    cases active with
    | true => cases h; exact .inl rfl
    | false => cases h
  | true =>
    obtain ⟨⟨⟩, htrust, h⟩ := bind_eq_ok.mp h
    obtain ⟨prekey, hprekey, h⟩ := bind_eq_ok.mp h
    obtain ⟨ratchet, hratchet, h⟩ := bind_eq_ok.mp h
    obtain ⟨r, hload, h⟩ := bind_eq_ok.mp h
    obtain ⟨plan', hplan, h⟩ := bind_eq_ok.mp h
    cases h
    exact .inr ⟨r, prekey, ratchet, plan', hload, htrust, mapError_eq_ok.mp hprekey,
      mapError_eq_ok.mp hratchet, hplan, rfl⟩

theorem settles_planFromMessage {m : PreKeyMessage}
    (h : p.planFromMessage suite a thread m p.environment.now v = .ok plan) :
    p.Settles v a id (p.usedUp m.prekeyId) (fun _ s => s.IsNew suite) plan := by
  obtain rfl | ⟨r, prekey, ratchet, plan', hload, htrust, -, hratchet, hplan, rfl⟩ :=
    planFromMessage_eq_ok h
  · exact .dropped rfl
  · exact .installed hload htrust ⟨rfl, _, hratchet⟩ hplan

theorem planCompletion_eq_ok {m : KeyExchangeMessage} {r : SessionRecord} {q : PendingExchange}
    {first : List SessionAction} {now : UInt64}
    (h : p.planCompletion suite a thread r q m first now v = .ok plan) :
    ∃ ratchet plan', suite.initialState (exchangeParameters q m) = .ok ratchet ∧
      p.install v now a r.clearPending.purgeLegacy
        (.fresh q.identity.publicKey m.identityKey ratchet) = .ok plan' ∧
      plan = plan'.map fun u => ⟨⟨.established,
        first ++ u.actions ++ [.drainPending a, .securityUpdate thread]⟩, none⟩ := by
  obtain ⟨ratchet, hratchet, h⟩ := bind_eq_ok.mp h
  obtain ⟨plan', hplan, h⟩ := bind_eq_ok.mp h
  cases h
  exact ⟨ratchet, plan', mapError_eq_ok.mp hratchet, hplan, rfl⟩

/-- What is sent before a leg completes an exchange: the answer, if the leg is an initiate. -/
def answers (a : Address) (thread : UInt64) (m : KeyExchangeMessage) (r : SessionRecord)
    (q : PendingExchange) : List SessionAction :=
  if m.isInitiate then [.sendHandshake a thread (.response (q.leg (answerFlags r.pending)))] else []

/-- A leg is stale, or it completes an exchange under a trusted key. -/
theorem planExchange_eq_ok {m : KeyExchangeMessage}
    (h : (p.planExchange suite a thread m v).perform p.environment = (.ok plan, e)) :
    plan = Step.dropped .stale ∨ ∃ r q, v.load a = .ok r ∧
      p.trust.require v a m.identityKey = .ok () ∧ p.completing? suite r m = some q ∧
      p.planCompletion suite a thread r q m (answers a thread m r q) p.environment.now v =
        .ok plan := by
  obtain ⟨r, _, hread, hleg⟩ := Draw.perform_bind_eq_ok.mp h
  obtain ⟨hload, rfl⟩ := Draw.perform_lift_eq_ok.mp hread
  split at hleg
  · rename_i hinitiate
    obtain ⟨⟨⟩, _, hrequire, h⟩ := Draw.perform_bind_eq_ok.mp hleg
    obtain ⟨htrust, rfl⟩ := Draw.perform_lift_eq_ok.mp hrequire
    rw [Draw.perform_bind, p.perform_drawAnswer] at h
    obtain ⟨now, _, hnow, h⟩ := Draw.perform_bind_eq_ok.mp h
    cases hnow
    have htime :
        (if r.pending.isSome then p.environment else p.environment.afterExchange suite).now =
        p.environment.now := by split <;> rfl
    rw [htime] at h
    have hfirst : answers a thread m r (p.answer suite r.pending m.sequence) = _ := if_pos hinitiate
    exact .inr ⟨r, _, hload, htrust, if_pos hinitiate, hfirst ▸ (Draw.perform_lift_eq_ok.mp h).1⟩
  · rename_i hinitiate
    obtain ⟨now, _, hnow, h⟩ := Draw.perform_bind_eq_ok.mp hleg
    cases hnow
    obtain ⟨hresponse, -⟩ := Draw.perform_lift_eq_ok.mp h
    unfold planResponse at hresponse
    split at hresponse
    · cases hresponse
      exact .inl rfl
    · rename_i q hanswered
      obtain ⟨⟨⟩, htrust, h⟩ := bind_eq_ok.mp hresponse
      have hfirst : answers a thread m r q = [] := if_neg hinitiate
      exact .inr ⟨r, q, hload, htrust, (if_neg hinitiate).trans hanswered, hfirst ▸ h⟩

theorem settles_planExchange {m : KeyExchangeMessage}
    (h : (p.planExchange suite a thread m v).perform p.environment = (.ok plan, e)) :
    p.Settles v a (fun r => r.clearPending.purgeLegacy) none (p.Concludes suite m) plan := by
  obtain rfl | ⟨r, q, hload, htrust, hq, h⟩ := planExchange_eq_ok h
  · exact .dropped rfl
  · obtain ⟨ratchet, plan', hratchet, hplan, rfl⟩ := planCompletion_eq_ok h
    exact .installed hload htrust ⟨q, ratchet, hq, hratchet, rfl⟩ hplan

/-- The plan for any message drops it or installs a session that the message makes. -/
theorem settles_planReceive {m : HandshakeMessage}
    (h : (p.planReceive suite a thread m v).perform p.environment = (.ok plan, e)) :
    p.Settles v a m.base (p.usedBy m) (p.Makes suite m) plan := by
  cases m with
  | bundle m =>
    obtain ⟨now, _, hnow, h⟩ := Draw.perform_bind_eq_ok.mp h
    cases hnow
    exact settles_planFromMessage (Draw.perform_lift_eq_ok.mp h).1
  | initiate m => exact settles_planExchange h
  | response m => exact settles_planExchange h
  | legacy kind used => cases h; exact .dropped rfl

end Party

end SecureSession
