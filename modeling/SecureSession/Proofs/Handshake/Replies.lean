import SecureSession.Proofs.Handshake.Shapes
import SecureSession.Proofs.Handshake.Soundness
import SecureSession.Proofs.Storage.Commits

/-! # Replies

What a party sends when it takes in a message: nothing, or one response where the message is an
initiate. What the message came as does not matter, only how it reads: a leg that is read as a
response carries no flag that opens an exchange, so no response is ever answered. Unasked, a party
sends initiates only. -/

namespace SecureSession

/-! ### Reading roles -/

/-- A message that is read as a response does not open an exchange. -/
theorem HandshakeMessage.role_of_decode {kind : HandshakeKind} {bytes : Bytes}
    {leg : KeyExchangeMessage} (h : decode kind bytes = .ok (response leg)) :
    leg.isInitiate = false := by
  obtain ⟨v, -, h⟩ := bind_eq_ok.mp h
  split at h
  · cases h
  · cases kind with
    | prekey =>
      obtain ⟨m, -, h⟩ := bind_eq_ok.mp h
      cases h
    | keyExchange =>
      obtain ⟨m, -, h⟩ := bind_eq_ok.mp h
      have hleg : ofExchange m = response leg := Except.ok.inj h
      unfold ofExchange at hleg
      split at hleg
      · cases hleg
      · rename_i hrole
        cases hleg
        simpa using hrole

/-- Whether these are the messages that one from an address is answered with. -/
inductive HandshakeMessage.Replies (a : Address) :
    HandshakeMessage → List (Address × HandshakeMessage) → Prop
  | none (m : HandshakeMessage) : Replies a m []
  | response {m leg : KeyExchangeMessage} (h : (response leg).IsSendable) :
    Replies a (initiate m) [(a, .response leg)]

namespace Party

open HandshakeMessage (Replies)

variable {suite : Suite} {p : Party} {v : Vault} {a : Address} {thread : UInt64}

/-! ### What is planned -/

/-- A new session is announced, and nothing is sent for it. -/
theorem sent_of_install {now : UInt64} {r : SessionRecord} {s : SessionState}
    {plan : Plan IdentityUpdate} (hr : r.IsBounded) (h : p.install v now a r s = .ok plan) :
    SessionAction.sent plan.answer.actions = [] :=
  SessionAction.sent_eq_nil (writes_of_install hr h).2

theorem sent_of_planCompletion {m : KeyExchangeMessage} {r : SessionRecord} {q : PendingExchange}
    {first : List SessionAction} {now : UInt64} {plan : Plan Step} (hr : r.IsBounded)
    (h : p.planCompletion suite a thread r q m first now v = .ok plan) :
    SessionAction.sent plan.answer.outcome.actions = SessionAction.sent first := by
  obtain ⟨ratchet, -, h⟩ := bind_eq_ok.mp h
  obtain ⟨plan', hplan, h⟩ := bind_eq_ok.mp h
  cases h
  have hbounded : r.clearPending.purgeLegacy.IsBounded := SessionRecord.IsBounded.purgeLegacy hr
  show SessionAction.sent (first ++ plan'.answer.actions ++ _) = _
  rw [SessionAction.sent_append, SessionAction.sent_append, sent_of_install hbounded hplan]
  simp [SessionAction.sent, SessionAction.sent?]

theorem sent_of_planFromMessage {m : PreKeyMessage} {now : UInt64} {plan : Plan Step}
    (h : p.planFromMessage suite a thread m now v = .ok plan) :
    SessionAction.sent plan.answer.outcome.actions = [] := by
  obtain ⟨held, -, h⟩ := bind_eq_ok.mp h
  cases held with
  | false =>
    obtain ⟨active, -, h⟩ := bind_eq_ok.mp h
    cases active with
    | true => cases h; rfl
    | false => cases h
  | true =>
    obtain ⟨⟨⟩, -, h⟩ := bind_eq_ok.mp h
    obtain ⟨prekey, -, h⟩ := bind_eq_ok.mp h
    obtain ⟨ratchet, -, h⟩ := bind_eq_ok.mp h
    obtain ⟨r, hload, h⟩ := bind_eq_ok.mp h
    obtain ⟨plan', hplan, h⟩ := bind_eq_ok.mp h
    cases h
    have hr : r.IsBounded := Vault.record_of_load hload ▸ v.isBounded_record a
    show SessionAction.sent (plan'.answer.actions ++ _) = _
    rw [SessionAction.sent_append, sent_of_install hr hplan]
    rfl

/-- A leg is answered by one response if it opens an exchange. -/
theorem sent_of_planExchange {m : KeyExchangeMessage} {e e' : Environment} {plan : Plan Step}
    (h : (p.planExchange suite a thread m v).perform e = (.ok plan, e')) :
    if m.isInitiate then ∃ leg, (HandshakeMessage.response leg).IsSendable ∧
        SessionAction.sent plan.answer.outcome.actions = [(a, .response leg)]
    else SessionAction.sent plan.answer.outcome.actions = [] := by
  obtain ⟨r, _, hread, hleg⟩ := Draw.perform_bind_eq_ok.mp h
  obtain ⟨hload, -⟩ := Draw.perform_lift_eq_ok.mp hread
  have hr : r.IsBounded := Vault.record_of_load hload ▸ v.isBounded_record a
  split at hleg
  · rename_i hinitiate
    rw [if_pos hinitiate]
    obtain ⟨⟨⟩, _, -, h⟩ := Draw.perform_bind_eq_ok.mp hleg
    obtain ⟨⟨q, flags⟩, _, hanswer, h⟩ := Draw.perform_bind_eq_ok.mp h
    obtain ⟨now, _, -, h⟩ := Draw.perform_bind_eq_ok.mp h
    obtain ⟨hplan, -⟩ := Draw.perform_lift_eq_ok.mp h
    have hflags : flags = answerFlags r.pending := by
      unfold drawAnswer at hanswer
      unfold answerFlags
      split at hanswer
      · rename_i hpending
        rw [hpending]
        cases hanswer
        rfl
      · rename_i ours hpending
        rw [hpending]
        cases hanswer
        rfl
    subst hflags
    exact ⟨q.leg (answerFlags r.pending), answerFlags_isValid r.pending,
      sent_of_planCompletion hr hplan⟩
  · rename_i hinitiate
    rw [if_neg hinitiate]
    obtain ⟨now, _, -, h⟩ := Draw.perform_bind_eq_ok.mp hleg
    obtain ⟨hplan, -⟩ := Draw.perform_lift_eq_ok.mp h
    unfold planResponse at hplan
    split at hplan
    · cases hplan
      rfl
    · obtain ⟨⟨⟩, -, hplan⟩ := bind_eq_ok.mp hplan
      exact sent_of_planCompletion hr hplan

theorem replies_of_planReceive {m : HandshakeMessage} {e e' : Environment} {plan : Plan Step}
    (hrole : ∀ leg, m = .response leg → leg.isInitiate = false)
    (h : (p.planReceive suite a thread m v).perform e = (.ok plan, e')) :
    Replies a m (SessionAction.sent plan.answer.outcome.actions) := by
  cases m with
  | bundle m =>
    obtain ⟨now, _, -, h⟩ := Draw.perform_bind_eq_ok.mp h
    rw [sent_of_planFromMessage (Draw.perform_lift_eq_ok.mp h).1]
    exact .none _
  | initiate m =>
    have hsent := sent_of_planExchange h
    split at hsent
    · obtain ⟨leg, hleg, hsent⟩ := hsent
      rw [hsent]
      exact .response hleg
    · rw [hsent]
      exact .none _
  | response m =>
    have hsent := sent_of_planExchange h
    rw [if_neg (by simp [hrole m rfl])] at hsent
    rw [hsent]
    exact .none _
  | legacy kind used =>
    cases h
    exact .none _

/-! ### What is sent -/

theorem perform_eq_ok {s s' : Storage} {plan : Vault → Draw (Plan Step)} {o : HandshakeOutcome}
    {p' : Party} (h : p.perform s plan = (.ok o, p', s')) :
    ∃ made e, (plan (s.vault p.account)).perform p.environment = (.ok made, e) ∧
      made.answer.outcome = o := by
  rcases hplan : (plan (s.vault p.account)).perform p.environment with ⟨planned, e⟩
  simp only [perform, hplan] at h
  have hcarried := s.carriesOut p.account planned
  rcases hcarry : s.carryOut p.account planned with ⟨err | step, s₁⟩
  · rw [hcarry] at h
    cases h
  · rw [hcarry] at h hcarried
    cases h
    cases hcarried with
    | idle => exact ⟨_, e, rfl, rfl⟩
    | done => exact ⟨_, e, rfl, rfl⟩

/-- A payload that is taken in with success is answered as its message is. -/
theorem replies_of_receivePayload {s s' : Storage} {kind : HandshakeKind} {payload : Bytes}
    {o : HandshakeOutcome} {p' : Party}
    (h : p.receivePayload suite s a thread kind payload = (.ok o, p', s')) :
    ∃ m, HandshakeMessage.decode kind payload = .ok m ∧
      Replies a m (SessionAction.sent o.actions) := by
  unfold receivePayload at h
  split at h
  · rename_i m hread
    obtain ⟨plan, e, hplan, rfl⟩ := perform_eq_ok h
    refine ⟨m, hread, replies_of_planReceive (fun leg hm => ?_) hplan⟩
    subst hm
    exact HandshakeMessage.role_of_decode hread
  · cases h

/-- To open an exchange is to send the peer one initiate. -/
theorem sent_of_initiate {s s' : Storage} {o : HandshakeOutcome} {p' : Party}
    (h : p.initiate suite s a thread = (.ok o, p', s')) : ∃ leg,
      (HandshakeMessage.initiate leg).IsSendable ∧
      SessionAction.sent o.actions = [(a, .initiate leg)] := by
  obtain ⟨plan, e, hplan, rfl⟩ := perform_eq_ok h
  obtain ⟨r, _, hread, h⟩ := Draw.perform_bind_eq_ok.mp hplan
  cases h
  have hvalid : ExchangeFlags.initiate.IsValid := by decide
  have hopens : ExchangeFlags.initiate.contains .initiate = true := by decide
  refine ⟨_, ⟨?_, ?_⟩, rfl⟩
  · exact hvalid
  · exact hopens

/-- The peer is sent nothing when a session is built from its bundle. -/
theorem sent_of_useBundle {s s' : Storage} {b : PreKeyBundle} {o : HandshakeOutcome} {p' : Party}
    (h : p.useBundle suite s a thread b = (.ok o, p', s')) : SessionAction.sent o.actions = [] := by
  obtain ⟨plan, e, hplan, rfl⟩ := perform_eq_ok h
  obtain ⟨r, ratchet, plan', hload, -, -, hinstall, rfl⟩ := planFromBundle_eq_ok hplan
  have hr : r.IsBounded := Vault.record_of_load hload ▸ Vault.isBounded_record _ a
  show SessionAction.sent (plan'.answer.actions ++ _) = _
  rw [SessionAction.sent_append, sent_of_install hr hinstall]
  rfl

end Party

end SecureSession
