import SecureSession.Proofs.Handshake.Replies
import SecureSession.Simulation.Device

/-! # What steps say of a conversation

A step of a handshake is taken with a peer, in a conversation. What it asks for is about that
conversation (`HandshakeOutcome.IsAbout`): its messages go to the peer under the number of the
conversation, and the security of the conversation is shown anew just if a session is established,
once, and that of no other is. -/

namespace SecureSession

/-! ### Actions -/

namespace SessionAction

/-- The conversation of which an action shows the security anew. -/
def update? : SessionAction → Option UInt64
  | securityUpdate thread => some thread
  | _ => none

/-- The conversations of which some actions show the security anew. -/
def updates (actions : List SessionAction) : List UInt64 := actions.filterMap update?

/-- Whether an action sends to no one but a peer, and only under the number of a conversation. -/
def IsTo (peer : Address) (thread : UInt64) : SessionAction → Prop
  | sendHandshake a t _ => a = peer ∧ t = thread
  | securityUpdate _ | drainPending _ | notify _ => True

/-- Whether an action sends within a conversation at most, and shows the security of none anew. -/
def IsAside (peer : Address) (thread : UInt64) (x : SessionAction) : Prop :=
  x.IsTo peer thread ∧ x.update? = none

theorem isAside_notify (peer : Address) (thread : UInt64) (notice : IdentityNotice) :
    (notify notice).IsAside peer thread := ⟨trivial, rfl⟩

theorem isAside_drainPending (peer a : Address) (thread : UInt64) :
    (drainPending a).IsAside peer thread := ⟨trivial, rfl⟩

theorem isAside_sendHandshake (peer : Address) (thread : UInt64) (m : HandshakeMessage) :
    (sendHandshake peer thread m).IsAside peer thread := ⟨⟨rfl, rfl⟩, rfl⟩

end SessionAction

/-- Whether all that a step asks for is about the conversation with a peer. -/
structure HandshakeOutcome.IsAbout (o : HandshakeOutcome) (peer : Address)
    (thread : UInt64) : Prop where
  actions : ∀ x ∈ o.actions, x.IsTo peer thread
  /-- A session, and nothing but a session, has its security shown anew. -/
  updates : SessionAction.updates o.actions = if o.isEstablished then [thread] else []

namespace HandshakeOutcome

variable {peer : Address} {thread : UInt64}

theorem isAbout_dropped {status : HandshakeStatus} (h : status.isDropped = true) :
    (dropped status).IsAbout peer thread := by
  refine ⟨List.forall_mem_nil _, ?_⟩
  cases status with
  | initiated | established => cases h
  | duplicate | stale | legacy => rfl

theorem isAbout_initiated (m : HandshakeMessage) :
    (⟨.initiated, [.sendHandshake peer thread m]⟩ : HandshakeOutcome).IsAbout peer thread :=
  ⟨List.forall_mem_singleton.mpr ⟨rfl, rfl⟩, rfl⟩

/-- A session is established, and its security shown anew once all else is done. -/
theorem isAbout_established {rest : List SessionAction} (h : ∀ x ∈ rest, x.IsAside peer thread) :
    (⟨.established, rest ++ [.securityUpdate thread]⟩ : HandshakeOutcome).IsAbout peer thread := by
  refine ⟨fun x hx => ?_, ?_⟩
  · rcases List.mem_append.mp hx with hx | hx
    · exact (h x hx).1
    · rw [List.mem_singleton.mp hx]
      trivial
  · have hrest : SessionAction.updates rest = [] :=
      List.filterMap_eq_nil_iff.mpr fun x hx => (h x hx).2
    show SessionAction.updates (rest ++ [.securityUpdate thread]) = [thread]
    rw [SessionAction.updates, List.filterMap_append]
    exact congrArg (· ++ [thread]) hrest

end HandshakeOutcome

/-! ### Plans -/

namespace Party

open SessionAction (isAside_notify isAside_drainPending isAside_sendHandshake)

variable {suite : Suite} {p : Party} {v : Vault} {a : Address} {thread : UInt64} {e : Environment}
  {made : Plan Step}

/-- To install a session is to file a key, which is told in notices. -/
theorem isAside_install {now : UInt64} {r : SessionRecord} {s : SessionState}
    {installed : Plan IdentityUpdate} (hr : r.IsBounded)
    (h : p.install v now a r s = .ok installed) :
    ∀ x ∈ installed.answer.actions, x.IsAside a thread := by
  intro x hx
  obtain ⟨notice, rfl⟩ := (writes_of_install hr h).2 x hx
  exact isAside_notify a thread notice

theorem isAbout_planInitiate
    (h : (p.planInitiate suite a thread v).perform p.environment = (.ok made, e)) :
    made.answer.outcome.IsAbout a thread := by
  obtain ⟨r, _, -, h⟩ := Draw.perform_bind_eq_ok.mp h
  cases h
  exact HandshakeOutcome.isAbout_initiated _

theorem isAbout_planFromBundle {b : PreKeyBundle}
    (h : (p.planFromBundle suite a thread b v).perform p.environment = (.ok made, e)) :
    made.answer.outcome.IsAbout a thread := by
  obtain ⟨r, ratchet, installed, hload, -, -, hinstall, rfl⟩ := planFromBundle_eq_ok h
  have hr : r.IsBounded := Vault.record_of_load hload ▸ v.isBounded_record a
  exact HandshakeOutcome.isAbout_established (isAside_install hr hinstall)

theorem isAbout_planFromMessage {m : PreKeyMessage} {now : UInt64}
    (h : p.planFromMessage suite a thread m now v = .ok made) :
    made.answer.outcome.IsAbout a thread := by
  obtain rfl | ⟨r, prekey, ratchet, installed, hload, -, -, -, hinstall, rfl⟩ :=
    planFromMessage_eq_ok h
  · exact HandshakeOutcome.isAbout_dropped rfl
  · have hr : r.IsBounded := Vault.record_of_load hload ▸ v.isBounded_record a
    exact HandshakeOutcome.isAbout_established (isAside_install hr hinstall)

theorem isAbout_planCompletion {m : KeyExchangeMessage} {r : SessionRecord} {q : PendingExchange}
    {first : List SessionAction} {now : UInt64} (hr : r.IsBounded)
    (hfirst : ∀ x ∈ first, x.IsAside a thread)
    (h : p.planCompletion suite a thread r q m first now v = .ok made) :
    made.answer.outcome.IsAbout a thread := by
  obtain ⟨ratchet, installed, -, hinstall, rfl⟩ := planCompletion_eq_ok h
  have hbounded : r.clearPending.purgeLegacy.IsBounded := SessionRecord.IsBounded.purgeLegacy hr
  have hall : ∀ x ∈ first ++ installed.answer.actions ++ [.drainPending a], x.IsAside a thread := by
    intro x hx
    rcases List.mem_append.mp hx with hx | hx
    · exact (List.mem_append.mp hx).elim (hfirst x) (isAside_install hbounded hinstall x)
    · exact List.mem_singleton.mp hx ▸ isAside_drainPending a a thread
  have habout := HandshakeOutcome.isAbout_established hall
  rw [List.append_assoc] at habout
  exact habout

theorem isAbout_planExchange {m : KeyExchangeMessage}
    (h : (p.planExchange suite a thread m v).perform p.environment = (.ok made, e)) :
    made.answer.outcome.IsAbout a thread := by
  obtain rfl | ⟨r, q, hload, -, -, h⟩ := planExchange_eq_ok h
  · exact HandshakeOutcome.isAbout_dropped rfl
  · have hr : r.IsBounded := Vault.record_of_load hload ▸ v.isBounded_record a
    refine isAbout_planCompletion hr (fun x hx => ?_) h
    unfold answers at hx
    split at hx
    · exact List.mem_singleton.mp hx ▸ isAside_sendHandshake a thread _
    · cases hx

theorem isAbout_planReceive {m : HandshakeMessage}
    (h : (p.planReceive suite a thread m v).perform p.environment = (.ok made, e)) :
    made.answer.outcome.IsAbout a thread := by
  cases m with
  | bundle m =>
    obtain ⟨now, _, -, h⟩ := Draw.perform_bind_eq_ok.mp h
    exact isAbout_planFromMessage (Draw.perform_lift_eq_ok.mp h).1
  | initiate m | response m => exact isAbout_planExchange h
  | legacy kind used =>
    cases h
    exact HandshakeOutcome.isAbout_dropped rfl

end Party

/-! ### Steps of a device -/

namespace Device

variable (suite : Suite) (d : Device) {o : HandshakeOutcome}

/-- What a device asks for was planned by its party. -/
theorem planned_of_settle {s : Storage} {plan : Vault → Draw (Plan Step)}
    (h : (d.settle (d.party.perform s plan)).1 = .ok o) :
    ∃ made e, (plan (s.vault d.party.account)).perform d.party.environment = (.ok made, e) ∧
      made.answer.outcome = o := by
  rcases hrun : d.party.perform s plan with ⟨r, p, s'⟩
  rw [hrun] at h
  cases (h : r = .ok o)
  exact Party.perform_eq_ok hrun

theorem isAbout_initiate (peer : Address) (thread : UInt64)
    (h : (d.initiate suite peer thread).1 = .ok o) : o.IsAbout peer thread := by
  obtain ⟨made, e, hmade, rfl⟩ := d.planned_of_settle h
  exact Party.isAbout_planInitiate hmade

theorem isAbout_useBundle (peer : Address) (thread : UInt64) (b : PreKeyBundle)
    (h : (d.useBundle suite peer thread b).1 = .ok o) : o.IsAbout peer thread := by
  obtain ⟨made, e, hmade, rfl⟩ := d.planned_of_settle h
  exact Party.isAbout_planFromBundle hmade

/-- The conversation of an answer is that of the message. -/
theorem isAbout_receive (e : Envelope) (h : (d.receive suite e).1 = .ok o) :
    o.IsAbout e.link.source e.thread := by
  unfold receive Party.receivePayload at h
  split at h
  · obtain ⟨made, e', hmade, rfl⟩ := d.planned_of_settle h
    exact Party.isAbout_planReceive hmade
  · cases h

end Device

end SecureSession
