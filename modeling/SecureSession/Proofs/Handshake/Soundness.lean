import SecureSession.Proofs.Handshake.Plans

/-! # Sound contents

What a party stores is sound if its own keys are made of secrets and every live session is with the
identity on file for the peer. Effects of handshake steps keep contents sound and send sound
messages; refusals are those handshakes have by design. -/

namespace SecureSession

/-! ### Failures by design -/

/-- Whether handshakes fail this way by design: an identity is refused, a prekey is gone, or a
failure was injected. -/
def SessionError.IsDesigned : SessionError → Prop
  | trustRejected _ | invalidKeyId _ | storage (.unavailable (.injected _)) => True
  | _ => False

/-- Whether a step fails by design, or for want of a ratchet that starts. -/
def SessionError.IsExplained (suite : Suite) (e : SessionError) : Prop :=
  e.IsDesigned ∨ (∃ error, e = .crypto error) ∧ ¬suite.Starts

theorem SessionError.IsExplained.isDesigned {suite : Suite} {e : SessionError}
    (h : e.IsExplained suite) (hs : suite.Starts) : e.IsDesigned :=
  h.resolve_right fun hn => hn.2 hs

/-! ### Sound records -/

/-- Whether the pairs of an exchange are made of secrets. -/
structure PendingExchange.IsSound (suite : Suite) (q : PendingExchange) : Prop where
  base : suite.Owns q.base
  ephemeral : suite.Owns q.ephemeral
  identity : suite.Owns q.identity

/-- Whether the keys that a session tells the peer are public keys of secrets. -/
structure SessionState.IsSound (suite : Suite) (s : SessionState) : Prop where
  identity : suite.IsPublic s.localIdentity
  ratchet : suite.IsPublic s.ratchet.localKey
  base : ∀ u, s.unacknowledged = some u → suite.IsPublic u.baseKey

/-- Whether the exchange under way and the live session are sound. -/
structure SessionRecord.IsSound (suite : Suite) (r : SessionRecord) : Prop where
  pending : ∀ q, r.pending = some q → q.IsSound suite
  current : ∀ s, r.current = some s → s.IsSound suite

/-- Whether all records are sound and every live session is with the identity on file. -/
structure Contents.IsSound (suite : Suite) (c : Contents) : Prop where
  record : ∀ a, (c.record a).IsSound suite
  filed : ∀ a s, (c.record a).current = some s →
    ∃ i, c.filed a.name = some i ∧ i.identityKey = s.remoteIdentity

variable {suite : Suite}

theorem SessionRecord.isSound_empty : empty.IsSound suite := ⟨nofun, nofun⟩

theorem SessionRecord.IsSound.archive {r : SessionRecord} (h : r.IsSound suite) :
    r.archive.IsSound suite :=
  ⟨fun q hq => h.pending q (by rwa [pending_archive] at hq),
    fun s hs => by rw [current_archive] at hs; cases hs⟩

theorem PendingExchange.IsSound.hasPublicKeys {q : PendingExchange} (h : q.IsSound suite)
    (flags : ExchangeFlags) : (q.leg flags).HasPublicKeys suite :=
  ⟨h.base.isPublic, h.ephemeral.isPublic, h.identity.isPublic⟩

theorem PendingExchange.IsSound.withSequence {q : PendingExchange} (h : q.IsSound suite)
    (sequence : UInt32) : { q with sequence }.IsSound suite := ⟨h.1, h.2, h.3⟩

/-- A session just built is sound if its ratchet starts from our own key. -/
theorem SessionState.IsSound.fresh {own their : PublicKey} {ratchet : RatchetState}
    (hown : suite.IsPublic own) (hratchet : suite.IsPublic ratchet.localKey) :
    (SessionState.fresh own their ratchet).IsSound suite := ⟨hown, hratchet, nofun⟩

/-! ### Both ends of a session -/

section Sessions
variable {k k' : PendingExchange}

/-- The keys of two exchanges, as seen from either side, face each other. -/
theorem face_exchangeParameters (hk : k.IsSound suite)
    (hne : k.base.publicKey ≠ k'.base.publicKey) (flags flags' : ExchangeFlags) :
    (Party.exchangeParameters k (k'.leg flags)).Face suite
      (Party.exchangeParameters k' (k.leg flags')) :=
  ⟨hk.base, hk.ephemeral, hk.identity, rfl, rfl, rfl, hne⟩

/-- Exchanges that were completed with each other make mirrored ratchets. -/
theorem mirrors_of_exchanges (ha : suite.Agrees) (hk : k.IsSound suite) (hk' : k'.IsSound suite)
    (hne : k.base.publicKey ≠ k'.base.publicKey) {flags flags' : ExchangeFlags}
    {r r' : RatchetState}
    (hr : suite.initialState (Party.exchangeParameters k (k'.leg flags')) = .ok r)
    (hr' : suite.initialState (Party.exchangeParameters k' (k.leg flags)) = .ok r') :
    r.mirrors r' = true :=
  ha _ _ r r' (face_exchangeParameters hk hne flags' flags)
    (face_exchangeParameters hk' hne.symm flags flags') hr hr'

end Sessions

/-! ### Sound contents -/

namespace Contents

theorem isSound_empty : (⟨fun _ => .empty, fun _ => none⟩ : Contents).IsSound suite :=
  ⟨fun _ => SessionRecord.isSound_empty, nofun⟩

variable {c : Contents} (h : c.IsSound suite)
include h

/-- A record with the same live session, or none, may take the place of another. -/
theorem IsSound.put {a : Address} {r : SessionRecord} (hr : r.IsSound suite)
    (hcurrent : ∀ s, r.current = some s →
      ∃ s', (c.record a).current = some s' ∧ s'.remoteIdentity = s.remoteIdentity) :
    (c.put a r).IsSound suite := by
  refine ⟨fun b => ?_, fun b s hs => ?_⟩
  · by_cases hb : b = a
    · subst hb; rw [record_put_self]; exact hr
    · rw [record_put_of_ne _ hb]; exact h.record b
  · by_cases hb : b = a
    · subst hb
      rw [record_put_self] at hs
      obtain ⟨s', hs', hidentity⟩ := hcurrent s hs
      obtain ⟨i, hi, hkey⟩ := h.filed b s' hs'
      exact ⟨i, hi, hkey.trans hidentity⟩
    · rw [record_put_of_ne _ hb] at hs
      exact h.filed b s hs

/-- Installing a sound session keeps contents sound: a session with another device of the peer is
either archived, or with the key that is on file after it as well. -/
theorem IsSound.install {a : Address} {r : SessionRecord}
    (hr : ∀ q, r.pending = some q → q.IsSound suite) {s : SessionState} (hs : s.IsSound suite)
    (now : UInt64) : (c.install now a r s).IsSound suite := by
  refine ⟨fun b => ?_, fun b s' hs' => ?_⟩
  · by_cases hb : b = a
    · subst hb
      refine ⟨fun q hq => hr q (by rwa [pending_install_self] at hq), fun s' hs' => ?_⟩
      rw [current_install_self] at hs'
      cases hs'
      exact hs
    · rcases c.record_install_of_ne now a r s hb with hrecord | ⟨-, hrecord⟩ <;> rw [hrecord]
      · exact h.record b
      · exact (h.record b).archive
  · by_cases hb : b = a
    · subst hb
      rw [current_install_self] at hs'
      cases hs'
      exact c.filed_install_self now b r s
    · by_cases hname : b.name = a.name
      · obtain ⟨i, hi, hkey⟩ := c.filed_install_self now a r s
        rw [Contents.install, record_put_of_ne _ hb] at hs'
        obtain ⟨hbefore, hfiled⟩ := current_save hname hs'
        rw [record_put_of_ne _ hb] at hbefore
        obtain ⟨i', hi', hkey'⟩ := h.filed b s' hbefore
        have hsame : i'.identityKey = s.remoteIdentity :=
          hfiled i' (by rw [filed_put, ← hname]; exact hi')
        exact ⟨i, by rw [hname]; exact hi, by rw [hkey, ← hsame, hkey']⟩
      · rcases c.record_install_of_ne now a r s hb with hrecord | ⟨hname', -⟩
        · rw [hrecord] at hs'
          rw [c.filed_install_of_ne now a r s hname]
          exact h.filed b s' hs'
        · exact absurd hname' hname

end Contents

/-! ### Sound effects -/

/-- Whether an effect leaves sound contents and sends sound messages only. -/
structure Effect.IsSound (suite : Suite) (f : Effect) : Prop where
  contents : f.contents.IsSound suite
  sent : ∀ x ∈ f.sent, x.2.IsSound suite

theorem Effect.IsSound.dropped {c : Contents} (h : c.IsSound suite) (status : HandshakeStatus) :
    (Effect.dropped c status).IsSound suite := ⟨h, nofun⟩

namespace Party

variable {p : Party} {c : Contents} {a : Address}

theorem isSound_opening (hp : suite.Owns p.identity) : (p.opening suite).IsSound suite :=
  ⟨suite.owns_keyPair _, suite.owns_keyPair _, hp⟩

theorem isSound_answer (hp : suite.Owns p.identity) {pending : Option PendingExchange}
    (h : ∀ q, pending = some q → q.IsSound suite) (sequence : UInt32) :
    (p.answer suite pending sequence).IsSound suite := by
  cases pending with
  | none => exact ⟨suite.owns_keyPair _, suite.owns_keyPair _, hp⟩
  | some q => exact (h q rfl).withSequence sequence

/-- The flags of an answer are valid and do not open an exchange. -/
theorem answerFlags_isValid (pending : Option PendingExchange) :
    (answerFlags pending).IsValid ∧ (answerFlags pending).contains .initiate = false := by
  cases pending
  · exact ⟨by decide, by decide⟩
  · exact ⟨show (ExchangeFlags.union .response .simultaneous).IsValid by decide,
      show (ExchangeFlags.union .response .simultaneous).contains .initiate = false by decide⟩

theorem isSound_opened (hp : suite.Owns p.identity) (h : c.IsSound suite) :
    (p.opened suite c a).IsSound suite := by
  have hopening : (p.opening suite).IsSound suite := isSound_opening hp
  refine ⟨h.put ⟨fun q hq => ?_, (h.record a).current⟩ fun s hs => ⟨s, hs, rfl⟩, fun x hx => ?_⟩
  · cases hq
    exact hopening
  · rw [opened, List.mem_singleton] at hx
    subst hx
    exact ⟨⟨show ExchangeFlags.initiate.IsValid by decide,
      show ExchangeFlags.initiate.contains .initiate = true by decide⟩, hopening.hasPublicKeys _⟩

theorem isSound_complete (hs : suite.KeepsKeys) (h : c.IsSound suite) {q : PendingExchange}
    (hq : q.IsSound suite) {m : KeyExchangeMessage} {ratchet : RatchetState}
    (hratchet : suite.initialState (exchangeParameters q m) = .ok ratchet) (now : UInt64) :
    (c.complete now a q m ratchet).IsSound suite := by
  have hkey : suite.IsPublic ratchet.localKey := (hs _ _ hratchet).1 ▸ hq.ephemeral.isPublic
  refine h.install (fun q' hq' => ?_) (.fresh hq.identity.isPublic hkey) now
  cases hq'

section KeepsKeys
variable (hs : suite.KeepsKeys) (hp : suite.Owns p.identity) (h : c.IsSound suite)
include hs hp h

theorem UsesBundle.isSound {b : PreKeyBundle} {f : Effect}
    (hf : p.UsesBundle suite c a b (.ok f)) : f.IsSound suite := by
  cases hf with
  | built hbase hephemeral hratchet =>
    have hkey : suite.IsPublic _ := (hs _ _ hratchet).1 ▸ hephemeral.isPublic
    refine ⟨h.install (h.record a).pending ⟨hp.isPublic, hkey, fun u hu => ?_⟩ _, nofun⟩
    cases hu
    exact hbase.isPublic

theorem Takes.isSound (hheld : ∀ id pair, p.prekeys.held.get? id = some pair → suite.Owns pair)
    {m : HandshakeMessage} {f : Effect} (hf : p.Takes suite c a m (.ok f)) : f.IsSound suite := by
  cases hf with
  | @answered m q ratchet now hq hratchet =>
    have hsound : q.IsSound suite := hq ▸ isSound_answer hp (h.record a).pending m.sequence
    refine ⟨isSound_complete hs h hsound hratchet now, fun x hx => ?_⟩
    rw [List.mem_singleton] at hx
    subst hx
    exact ⟨answerFlags_isValid _, hsound.hasPublicKeys _⟩
  | completed hpending hsequence hratchet =>
    exact ⟨isSound_complete hs h ((h.record a).pending _ hpending) hratchet _, nofun⟩
  | built hprekey hratchet =>
    have hkey : suite.IsPublic _ := (hs _ _ hratchet).1 ▸ (hheld _ _ hprekey).isPublic
    exact ⟨h.install (h.record a).pending (.fresh hp.isPublic hkey) _, nofun⟩
  | stale | duplicate | legacy => exact .dropped h _

end KeepsKeys

theorem UsesBundle.opensNone {b : PreKeyBundle} {f : Effect}
    (hf : p.UsesBundle suite c a b (.ok f)) : c.OpensNone f.contents := by
  cases hf with
  | built => exact Contents.opensNone_install (fun _ hq => hq) _ _

theorem Takes.opensNone {m : HandshakeMessage} {f : Effect} (hf : p.Takes suite c a m (.ok f)) :
    c.OpensNone f.contents := by
  cases hf with
  | answered | completed => exact Contents.opensNone_install (fun _ hq => by cases hq) _ _
  | built => exact Contents.opensNone_install (fun _ hq => hq) _ _
  | stale | duplicate | legacy => exact fun _ _ hq => hq

theorem UsesBundle.isExplained {b : PreKeyBundle} {e : SessionError}
    (hf : p.UsesBundle suite c a b (.error e)) : e.IsExplained suite := by
  cases hf with
  | untrusted => exact .inl trivial
  | underivable h => exact .inr ⟨⟨_, rfl⟩, h⟩

theorem Takes.isExplained {m : HandshakeMessage} {e : SessionError}
    (hf : p.Takes suite c a m (.error e)) : e.IsExplained suite := by
  cases hf with
  | underivable h => exact .inr ⟨⟨_, rfl⟩, h⟩
  | _ => exact .inl trivial

end Party

end SecureSession
