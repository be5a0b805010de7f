import SecureSession.Proofs.Account.PreKeyUse
import SecureSession.Proofs.Account.Yields

/-! # Replays

A message that has just made a session comes again. A first message finds its prekey gone and is a
duplicate; a response finds no exchange under way and is stale: both are dropped and leave
everything as it is. An initiate is answered as often as it comes, and the prekey of last resort
makes as many sessions as are asked for: each time the session made before goes to the archive. -/

namespace SecureSession

/-- What a message that made a session is dropped as when it comes again,
unless it is taken in again. -/
def Party.replayed? (p : Party) : HandshakeMessage → Option HandshakeStatus
  | .bundle m => if m.prekeyId = p.lastResort then none else some .duplicate
  | .initiate m | .response m => if m.isInitiate then none else some .stale
  | .legacy .. => some .legacy

/-- The messages that an answer has sent, with their recipients. -/
def Reply.sent : Reply → List (Address × HandshakeMessage)
  | outcome o => SessionAction.sent o.actions
  | _ => []

namespace Account

variable {suite : Suite} {A A' : Account} {q : Request} {a : Address}

/-- After a request that establishes a session, the record at its address can be read. -/
theorem Comes.session?_of_established {o : HandshakeOutcome} (h : A.Comes q (.ok (.outcome o)) A')
    (ho : o.isEstablished = true) (hsite : q.site? = some a) :
    A'.vault.session? a = .ok (some (A'.contents.record a)) := by
  obtain ⟨a', r, s, now, plan, environment, storage, hsite', hload, hplan, hcommit, rfl⟩ :=
    h.of_established ho
  obtain rfl : a' = a := Option.some.inj (hsite'.symm.trans hsite)
  have hbounded := q.isBounded_base (Vault.record_of_load hload ▸ A.vault.isBounded_record a')
  rw [contents, vault_of_commit hcommit, (Party.writes_of_install hbounded hplan).1.contents]
  exact Party.session?_of_install hbounded hplan

/-! ### Legs that answer nothing -/

/-- What is planned for a leg that opens no exchange is planned from what is stored. -/
theorem plan_of_response (A : Account) (a : Address) (thread : UInt64) {m : HandshakeMessage}
    {leg : KeyExchangeMessage} (hleg : m.leg? = some leg) (hrole : leg.isInitiate = false) :
    (A.party.planReceive suite a thread m A.vault).perform A.party.environment =
      ((A.vault.load a).bind fun r =>
        A.party.planResponse suite a thread leg r A.party.environment.now A.vault,
          A.party.environment) := by
  have hplan : A.party.planReceive suite a thread m = A.party.planExchange suite a thread leg := by
    cases m with
    | initiate | response => cases hleg; rfl
    | bundle | legacy => cases hleg
  rw [hplan]
  simp only [Party.planExchange, Draw.perform_bind, Draw.perform_lift]
  cases A.vault.load a with
  | error e => rfl
  | ok r =>
    simp only [hrole, Bool.false_eq_true, if_false, Draw.perform_bind, Draw.perform_get,
      Draw.perform_lift]
    rfl

/-- A leg that is no initiate and answers no exchange under way is stale. -/
theorem serve_of_unanswered {m : HandshakeMessage} {leg : KeyExchangeMessage} {r : SessionRecord}
    (hleg : m.leg? = some leg) (hinitiate : leg.isInitiate = false) (hload : A.vault.load a = .ok r)
    (hanswered : Party.answered? r leg.sequence = none) (thread : UInt64) :
    (A.serve suite (.receive a thread m)).1 = .ok (.outcome (.dropped .stale)) := by
  obtain ⟨result, s, hcarry, hresult, -⟩ := A.carriesOut_step (A.party.planReceive suite a thread m)
  rw [A.plan_of_response a thread hleg hinitiate, hload] at hcarry
  simp only [Except.bind, Party.planResponse, hanswered] at hcarry
  cases hcarry with
  | idle => exact hresult
  | struck hwrites | done hwrites => cases hwrites

/-! ### Replays -/

theorem isDropped_of_replayed {p : Party} {m : HandshakeMessage} {status : HandshakeStatus}
    (h : p.replayed? m = some status) : status.isDropped = true := by
  cases m with
  | bundle | initiate | response =>
    simp only [Party.replayed?] at h
    split at h
    · cases h
    · cases h
      rfl
  | legacy => cases h; rfl

/-- A message that has just made a session, and comes again, is dropped if it is a first message for
a one-time prekey or a response. -/
theorem take_replayed (hkeys : suite.KeepsKeys) (hfault : A.party.prekeys.fault = none)
    {thread thread' : UInt64} {m : HandshakeMessage} {o : HandshakeOutcome}
    {status : HandshakeStatus} (hdone : A.Comes (.receive a thread m) (.ok (.outcome o)) A')
    (hyields : A.Yields suite (.receive a thread m) (.ok (.outcome o)) A'.contents)
    (ho : o.isEstablished = true) (hstatus : A.party.replayed? m = some status) {t : Turn}
    (ht : t.request = .receive a thread' m) :
    (A'.take suite t).1 = .ok (.outcome (.dropped status)) := by
  have hread : (A'.facing t).vault.session? a = .ok (some (A'.contents.record a)) :=
    hdone.session?_of_established ho rfl
  obtain ⟨s, hnew, hcontents⟩ := hyields.of_established ho rfl
  have hcurrent : (A'.contents.record a).current = some s := by
    rw [hcontents, Contents.current_install_self]
  have hpending : (A'.contents.record a).pending =
      ((Request.receive a thread m).base (A.contents.record a)).pending := by
    rw [hcontents, Contents.pending_install_self]
  have hload : (A'.facing t).vault.load a = .ok (A'.contents.record a) := by
    simp only [Vault.load, hread]
    rfl
  rw [take, ht]
  cases m with
  | bundle m =>
    simp only [Party.replayed?] at hstatus
    split at hstatus
    · cases hstatus
    · rename_i hlast
      cases hstatus
      have huses :
          (Request.receive a thread (.bundle m)).usesUp m.prekeyId (.ok (.outcome o)) = true :=
        Request.usesUp_iff.mpr ⟨by simp [Request.names], o, rfl, ho⟩
      have hgone : A'.held m.prekeyId = none := hdone.held_eq_none hfault hlast huses
      have hmisses : (A'.facing t).Misses suite (.receive a thread' (.bundle m)) m.prekeyId :=
        misses_of_gone (hdone.keeps.fault.trans hfault) hgone (by simp [Request.names])
      exact hmisses.duplicate a _ rfl hread (SessionRecord.isActive_of_isNew hkeys hcurrent hnew)
  | initiate leg | response leg =>
    simp only [Party.replayed?] at hstatus
    split at hstatus
    · cases hstatus
    · rename_i hinitiate
      cases hstatus
      -- the exchange that the leg completed is no longer under way
      have hanswered : Party.answered? (A'.contents.record a) leg.sequence = none := by
        rw [Party.answered?, hpending]
        rfl
      exact serve_of_unanswered rfl (by simpa using hinitiate) hload hanswered thread'
  | legacy kind used =>
    cases hstatus
    rfl

/-- A message that has just made a session comes again from the same address, at whatever time and
with whatever commits failing. A first message for a one-time prekey is a duplicate, and a leg that
is not flagged as an initiate is stale: nothing is sent and nothing changes. An initiate and a first
message for the prekey of last resort are no replays: if they make a session again, the one that
they made before is archived. -/
theorem replay_dropped (suite : Suite) (hkeys : suite.KeepsKeys) {A : Account}
    (hfault : A.party.prekeys.fault = none) {t t' : Turn} {a : Address} {thread thread' : UInt64}
    {m : HandshakeMessage} (ht : t.request = .receive a thread m)
    (ht' : t'.request = .receive a thread' m) {o : HandshakeOutcome}
    (ho : (A.take suite t).1 = .ok (.outcome o)) (hestablished : o.isEstablished = true) :
    (∀ status, A.party.replayed? m = some status →
      ((A.take suite t).2.take suite t').1 = .ok (.outcome (.dropped status)) ∧
      (A.take suite t).2.Unchanged ((A.take suite t).2.take suite t').2) ∧
    (A.party.replayed? m = none → ∀ o', ((A.take suite t).2.take suite t').1 = .ok (.outcome o') →
      o'.isEstablished = true → ∃ s s',
        ((A.take suite t).2.contents.record a).current = some s ∧
        (((A.take suite t).2.take suite t').2.contents.record a).current = some s' ∧
        (((A.take suite t).2.take suite t').2.contents.record a).previous =
          (s :: (m.base ((A.take suite t).2.contents.record a)).previous).take
            SessionRecord.archiveLimit) := by
  have hdone := comes_take suite A t
  have hyields := yields_take suite A t
  rw [ho, ht] at hdone hyields
  have hcomes := comes_take suite (A.take suite t).2 t'
  have hyields' := yields_take suite (A.take suite t).2 t'
  refine ⟨fun status hstatus => ?_, fun _ o' ho' hestablished' => ?_⟩
  · have hdropped := take_replayed (A := A.facing t) hkeys hfault hdone hyields hestablished
      hstatus ht'
    rw [hdropped] at hcomes
    obtain ⟨hvaults, hprekeys⟩ := (hcomes.unchanged_of_dropped (isDropped_of_replayed hstatus)).1
    exact ⟨hdropped, hvaults, hprekeys⟩
  · rw [ho', ht'] at hyields'
    obtain ⟨s, -, hcontents⟩ := hyields.of_established hestablished rfl
    obtain ⟨s', -, hcontents'⟩ := hyields'.of_established hestablished' rfl
    have hcurrent : ((A.take suite t).2.contents.record a).current = some s := by
      rw [hcontents, Contents.current_install_self]
    have hbounded : ((Request.receive a thread' m).base
        ((A.take suite t).2.contents.record a)).IsBounded :=
      Request.isBounded_base _ ((A.take suite t).2.vault.isBounded_record a)
    refine ⟨s, s', hcurrent, ?_, ?_⟩
    · rw [hcontents', Contents.current_install_self]
    · have hlive :
          ((Request.receive a thread' m).base ((A.take suite t).2.contents.record a)).current =
          some s := (Request.current_base ..).trans hcurrent
      rw [hcontents', Contents.previous_install_self]
      exact (SessionRecord.previous_archive hbounded).trans (by rw [hlive]; rfl)

/-- Bob's first message for a one-time prekey, and his response to the exchange under way with his
second device, each make a session and are then dropped. -/
theorem replay_dropped_bob :
    let A := sample .rejectChanged sampleVault
    let m : KeyExchangeMessage :=
      (PendingExchange.mk 9 (.plain 8) (.plain 9) (.plain 2)).leg .response
    let first : Turn := ⟨.receive ⟨"bob", 1⟩ 7 (sampleMessage 2), ⟨.counter 60, 5⟩, .never⟩
    let response : Turn := ⟨.receive ⟨"bob", 2⟩ 7 (.response m), ⟨.counter 60, 5⟩, .never⟩
    A.party.prekeys.fault = none ∧
    (∃ o, (A.take .plain first).1 = .ok (.outcome o) ∧ o.isEstablished = true) ∧
    (∃ o, (A.take .plain response).1 = .ok (.outcome o) ∧ o.isEstablished = true) ∧
    ((A.take .plain first).2.take .plain first).1 = .ok (.outcome (.dropped .duplicate)) ∧
    ((A.take .plain response).2.take .plain response).1 = .ok (.outcome (.dropped .stale)) := by
  intro A m first response
  have hfirst : ∃ o, (A.take .plain first).1 = .ok (.outcome o) ∧ o.isEstablished = true :=
    ⟨⟨.established, [.securityUpdate 7]⟩, by decide +kernel⟩
  have hresponse : ∃ o, (A.take .plain response).1 = .ok (.outcome o) ∧ o.isEstablished = true :=
    ⟨⟨.established, [.drainPending ⟨"bob", 2⟩, .securityUpdate 7]⟩, by decide +kernel⟩
  obtain ⟨o, ho, hestablished⟩ := hfirst
  obtain ⟨o', ho', hestablished'⟩ := hresponse
  have hduplicate : A.party.replayed? (sampleMessage 2) = some .duplicate := by decide
  have hstale : A.party.replayed? (.response m) = some .stale := by decide
  exact ⟨rfl, ⟨o, ho, hestablished⟩, ⟨o', ho', hestablished'⟩,
    ((replay_dropped .plain Suite.keepsKeys_plain rfl rfl rfl ho hestablished).1 _ hduplicate).1,
    ((replay_dropped .plain Suite.keepsKeys_plain rfl rfl rfl ho' hestablished').1 _ hstale).1⟩

/-- An initiate of Bob's, and a first message of his for the prekey of last resort. -/
def reusableMessages : List HandshakeMessage :=
  [.initiate ((PendingExchange.mk 3 (.plain 8) (.plain 9) (.plain 2)).leg .initiate),
    .bundle {
      prekeyId := defaultLastResort
      baseKey := ⟨.replicate 50⟩
      identityKey := ⟨.replicate 2⟩
      message := (SessionState.plain 2 51).nextMessage [] }]

/-- A new account publishes the prekey of last resort. Each of the messages makes a session
with Bob and makes another one when it comes again, with the one before archived; the
initiate is answered again. -/
theorem replay_makes_session :
    let A := (sample .rejectChanged .empty).after .plain
      [⟨.publish 1 defaultLastResort, ⟨.counter 60, 5⟩, .never⟩]
    let taken (A : Account) (drawn : UInt8) (m : HandshakeMessage) :=
      A.take .plain ⟨.receive ⟨"bob", 1⟩ 7 m, ⟨.counter drawn, 6⟩, .never⟩
    ∀ m ∈ reusableMessages,
      (taken A 62 m).1.toOption.any Reply.isEstablished = true ∧
      ((taken A 62 m).2.contents.record ⟨"bob", 1⟩).previous.length = 0 ∧
      (taken (taken A 62 m).2 64 m).1.toOption.any Reply.isEstablished = true ∧
      ((taken (taken A 62 m).2 64 m).2.contents.record ⟨"bob", 1⟩).previous.length = 1 ∧
      ((taken (taken A 62 m).2 64 m).1.toOption.elim [] Reply.sent).length =
        if m.leg?.isSome then 1 else 0 := by
  decide +kernel

end Account

end SecureSession
