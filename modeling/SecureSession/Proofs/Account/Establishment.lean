import SecureSession.Proofs.Account.Yields

/-! # Handshakes that establish a session

A session can come of a first message, of a published bundle, of an initiate that is answered
and of a response. Each of these takes its keys from elsewhere (`Proposal.agreement?`), and from
there on all go the same way: the ratchet of the keys makes the session (`Proposal.session`),
one commit stores it and files the peer's key, and the actions tell of what went into the
agreement and of nothing else. -/

namespace SecureSession

/-! ### Filing a key -/

namespace Trust

/-- The record written when a key is filed, by what is on file: none if that is the key already. -/
def refiles (now : UInt64) (key : PublicKey) : Option IdentityRecord → Option IdentityRecord
  | none => some (firstRecord now key)
  | some i => if i.identityKey = key then none else some (changedRecord now key i)

/-- What is answered when a key is filed, by what is on file: notices if another key is. -/
def updateOf (t : Trust) (name : String) (key : PublicKey) : Option IdentityRecord → IdentityUpdate
  | none => .unchanged
  | some i =>
    if i.identityKey = key then .unchanged else ⟨true, t.announce name .elsewhere .keyChanged⟩

end Trust

/-- What is filed and answered depends on what is on file, and on nothing else that is stored. -/
theorem Vault.filed_of_stageSave {v : Vault} {b b' : Batch} {u : IdentityUpdate} {t : Trust}
    {now : UInt64} {a : Address} {key : PublicKey} (hb : b.identities = .empty)
    (h : t.stageSave v now a key b = .ok (b', u)) :
    ∃ o, v.loadIdentity a.name = .ok o ∧ b'.identities.get? a.name = Trust.refiles now key o ∧
      u = t.updateOf a.name key o := by
  obtain ⟨o, hload, h⟩ := bind_eq_ok.mp h
  refine ⟨o, hload, ?_⟩
  cases o with
  | none =>
    cases h
    exact ⟨SortedMap.get?_insert_self .., rfl⟩
  | some i =>
    dsimp only at h
    unfold Trust.refiles Trust.updateOf
    by_cases hkey : i.identityKey = key
    · rw [if_pos hkey] at h
      simp only [if_pos hkey]
      cases h
      rw [hb]
      exact ⟨rfl, rfl⟩
    · rw [if_neg hkey] at h
      simp only [if_neg hkey]
      obtain ⟨⟨b₁, n⟩, -, h⟩ := bind_eq_ok.mp h
      cases h
      exact ⟨SortedMap.get?_insert_self .., rfl⟩

theorem Party.filed_of_install {p : Party} {v : Vault} {now : UInt64} {a : Address}
    {r : SessionRecord} {s : SessionState} {plan : Plan IdentityUpdate}
    (h : p.install v now a r s = .ok plan) :
    ∃ o, v.loadIdentity a.name = .ok o ∧
      plan.writes.identities.get? a.name = Trust.refiles now s.remoteIdentity o ∧
      plan.answer = p.trust.updateOf a.name s.remoteIdentity o := by
  obtain ⟨⟨b, u⟩, hsave, h⟩ := bind_eq_ok.mp h
  cases h
  have hfiled := Vault.filed_of_stageSave (b := Batch.empty.put a r) rfl hsave
  exact hfiled

/-! ### Proposals -/

/-- What a session can come of. -/
inductive Proposal
  /-- A message that is taken in. -/
  | message (m : HandshakeMessage)
  /-- A published bundle. -/
  | bundle (b : PreKeyBundle)

namespace Proposal

/-- The request to go along with a proposal. -/
def request (a : Address) (thread : UInt64) : Proposal → Request
  | message m => .receive a thread m
  | bundle b => .useBundle a thread b

/-- What is planned for a proposal. -/
def plan (suite : Suite) (p : Party) (a : Address) (thread : UInt64) (v : Vault) :
    Proposal → Draw (Plan Step)
  | message m => p.planReceive suite a thread m v
  | bundle b => p.planFromBundle suite a thread b v

/-- The leg of an exchange that a proposal is. -/
def leg? : Proposal → Option KeyExchangeMessage
  | message m => m.leg?
  | bundle _ => none

/-- The identity key that a proposal presents. -/
def identityKey? : Proposal → Option PublicKey
  | message (.bundle m) => some m.identityKey
  | message (.initiate m) | message (.response m) => some m.identityKey
  | message (.legacy ..) => none
  | bundle b => some b.identityKey

/-- The keys that go into the agreement, given the record of the peer: a first message names a
prekey, a leg completes an exchange, and for a bundle two key pairs are drawn. -/
def agreement? (suite : Suite) (p : Party) (r : SessionRecord) : Proposal → Option RatchetParameters
  | message (.bundle m) => (p.prekeys.held.get? m.prekeyId).map (p.messageParameters · m)
  | message (.initiate m) | message (.response m) =>
    (p.completing? suite r m).map (Party.exchangeParameters · m)
  | message (.legacy ..) => none
  | bundle b => some (p.bundleParameters (p.environment.keyPair suite).1
      ((p.environment.keyPair suite).2.keyPair suite).1 b)

/-- What the peer is told of until it answers: for a bundle, its prekey and our base key. -/
def unacknowledged? (k : RatchetParameters) : Proposal → Option UnacknowledgedPreKey
  | message _ => none
  | bundle b => some ⟨b.prekeyId, k.ourBase.publicKey⟩

/-- The session that some keys and their ratchet make. -/
def session (x : Proposal) (k : RatchetParameters) (t : RatchetState) : SessionState where
  version := Version.newest
  localIdentity := k.ourIdentity.publicKey
  remoteIdentity := k.theirIdentity
  ratchet := t
  unacknowledged := x.unacknowledged? k

/-- The answer to an initiate: it carries the public keys of the pairs in the agreement. -/
def answer (x : Proposal) (a : Address) (thread : UInt64) (r : SessionRecord)
    (k : RatchetParameters) : List SessionAction :=
  match x.leg? with
  | none => []
  | some m =>
    if m.isInitiate then
      [.sendHandshake a thread (.response {
        sequence := m.sequence
        flags := Party.answerFlags r.pending
        baseKey := k.ourBase.publicKey
        ephemeralKey := k.ourEphemeral.publicKey
        identityKey := k.ourIdentity.publicKey })]
    else []

/-- Messages that came too early are tried again at the end of an exchange. -/
def drains (x : Proposal) (a : Address) : List SessionAction :=
  if x.leg?.isSome then [.drainPending a] else []

end Proposal

/-! ### Plans -/

theorem PreKeys.get?_of_load {p : PreKeys} {id : UInt32} {pair : KeyPair}
    (h : p.load id = .ok pair) : p.held.get? id = some pair := by
  unfold load at h
  split at h
  · cases h
  · split at h
    · rename_i hheld
      cases h
      exact hheld
    · cases h

namespace Party

variable {suite : Suite} {p : Party} {v : Vault} {a : Address} {thread : UInt64} {e : Environment}
  {made : Plan Step}

/-- The exchange that a leg completes goes by the number of the leg. -/
theorem sequence_of_completing {r : SessionRecord} {m : KeyExchangeMessage} {q : PendingExchange}
    (h : p.completing? suite r m = some q) : q.sequence = m.sequence := by
  unfold completing? at h
  split at h
  · cases h
    cases r.pending <;> rfl
  · simpa using (Option.filter_eq_some_iff.mp h).2

/-- Whether a plan installs the session of a proposal, of some keys and their ratchet, on top of a
record, and answers what is to be done for it. -/
structure Arranges (suite : Suite) (p : Party) (v : Vault) (a : Address) (thread : UInt64)
    (x : Proposal) (made : Plan Step) (r : SessionRecord) (k : RatchetParameters) (t : RatchetState)
    (installed : Plan IdentityUpdate) : Prop where
  load : v.load a = .ok r
  agreement : x.agreement? suite p r = some k
  presented : x.identityKey? = some k.theirIdentity
  ratchet : suite.initialState k = .ok t
  install : p.install v p.environment.now a ((x.request a thread).base r) (x.session k t) =
    .ok installed
  writes : made.writes = installed.writes
  actions : made.answer.outcome.actions =
    x.answer a thread r k ++ installed.answer.actions ++ x.drains a ++ [.securityUpdate thread]

/-- A plan that establishes a session installs that of the proposal it was made for. -/
theorem arranges_of_established {x : Proposal}
    (h : (x.plan suite p a thread v).perform p.environment = (.ok made, e))
    (ho : made.answer.outcome.isEstablished = true) :
    ∃ r k t installed, p.Arranges suite v a thread x made r k t installed := by
  cases x with
  | bundle b =>
    obtain ⟨r, ratchet, installed, hload, -, hratchet, hplan, rfl⟩ := planFromBundle_eq_ok h
    exact ⟨r, _, ratchet, installed, hload, rfl, rfl, hratchet, hplan, rfl, by
      simp [Plan.map, Proposal.answer, Proposal.drains, Proposal.leg?]⟩
  | message m =>
    cases m with
    | bundle m =>
      obtain ⟨now, _, hnow, h⟩ := Draw.perform_bind_eq_ok.mp h
      cases hnow
      obtain rfl | ⟨r, prekey, ratchet, installed, hload, -, hprekey, hratchet, hplan, rfl⟩ :=
        planFromMessage_eq_ok (Draw.perform_lift_eq_ok.mp h).1
      · cases ho
      · have hheld : p.prekeys.held.get? m.prekeyId = some prekey := PreKeys.get?_of_load hprekey
        refine ⟨r, p.messageParameters prekey m, ratchet, installed, hload, ?_, rfl, hratchet,
          hplan, rfl, ?_⟩
        · simp [Proposal.agreement?, hheld]
        · simp [Plan.map, Proposal.answer, Proposal.drains, Proposal.leg?, HandshakeMessage.leg?]
    | initiate m | response m =>
      obtain rfl | ⟨r, q, hload, -, hq, h⟩ := planExchange_eq_ok h
      · cases ho
      · obtain ⟨ratchet, installed, hratchet, hplan, rfl⟩ := planCompletion_eq_ok h
        refine ⟨r, exchangeParameters q m, ratchet, installed, hload, ?_, rfl, hratchet,
          hplan, rfl, ?_⟩
        · simp [Proposal.agreement?, hq]
        · simp only [answers, PendingExchange.leg, sequence_of_completing hq, Proposal.answer,
            Proposal.drains, Proposal.leg?, HandshakeMessage.leg?, Plan.map,
            Option.isSome_some, if_true, List.append_assoc]
          rfl
    | legacy kind used =>
      cases h
      cases ho

end Party

/-! ### On accounts -/

/-- A record that is filed is what is on file. -/
theorem Vault.loadIdentity_apply {v : Vault} {b : Batch} {name : String} {i : IdentityRecord}
    (h : b.identities.get? name = some i) : (v.apply b).loadIdentity name = .ok (some i) := by
  rw [loadIdentity, identity?_apply, h]
  rfl

/-- A session ends the exchange under way if it is that of an exchange. -/
theorem Proposal.pending_base (x : Proposal) (a : Address) (thread : UInt64) (r : SessionRecord) :
    ((x.request a thread).base r).pending = if x.leg?.isSome then none else r.pending := by
  cases x with
  | bundle b => rfl
  | message m => cases m <;> rfl

namespace Account

variable {suite : Suite} {A A' : Account} {a : Address} {thread : UInt64} {x : Proposal}
  {o : HandshakeOutcome}

theorem serve_request (suite : Suite) (A : Account) (a : Address) (thread : UInt64) (x : Proposal) :
    A.serve suite (x.request a thread) =
      A.step fun s => A.party.perform s fun v => x.plan suite A.party a thread v := by
  cases x <;> rfl

/-- How an account comes out of a handshake that establishes a session: the keys of the agreement
with their ratchet, the record before and after, and what was on file for the peer. -/
structure Establishes (suite : Suite) (A : Account) (a : Address) (thread : UInt64) (x : Proposal)
    (o : HandshakeOutcome) (A' : Account) (k : RatchetParameters) (t : RatchetState)
    (r r' : SessionRecord) (i : Option IdentityRecord) : Prop where
  before : A.vault.load a = .ok r
  onFile : A.vault.loadIdentity a.name = .ok i
  agreement : x.agreement? suite A.party r = some k
  /-- The key that the proposal presents goes into the agreement. -/
  presented : x.identityKey? = some k.theirIdentity
  ratchet : suite.initialState k = .ok t
  after : A'.vault.load a = .ok r'
  current : r'.current = some (x.session k t)
  pending : r'.pending = if x.leg?.isSome then none else r.pending
  /-- On first contact the key is trusted on first use. -/
  met : i = none → A'.vault.loadIdentity a.name = .ok (some
    ⟨k.theirIdentity, .default, true, A.party.environment.now, A.party.environment.now⟩)
  /-- If the key is on file already, the bytes stored for it stay. -/
  known : ∀ j, i = some j → j.identityKey = k.theirIdentity →
    A'.vault.identities.get? a.name = A.vault.identities.get? a.name
  replaced : ∀ j, i = some j → j.identityKey ≠ k.theirIdentity → A'.vault.loadIdentity a.name =
    .ok (some (Trust.changedRecord A.party.environment.now k.theirIdentity j))
  actions : o.actions = x.answer a thread r k ++
    (A.party.trust.updateOf a.name k.theirIdentity i).actions ++ x.drains a ++
    [.securityUpdate thread]

/-- Whatever is stored and whatever the policy, a handshake that establishes a session leaves
at its address the session of the keys in the agreement, has the peer's key on file and
answers what there is to do. -/
theorem handshake_establishes (suite : Suite)
    (hserve : A.serve suite (x.request a thread) = (.ok (.outcome o), A'))
    (ho : o.isEstablished = true) :
    ∃ k t r r' i, A.Establishes suite a thread x o A' k t r r' i := by
  have hcarries := A.carries_step fun v => x.plan suite A.party a thread v
  rw [← serve_request, hserve] at hcarries
  dsimp only at hcarries
  generalize hvault : A'.vault = v' at hcarries
  cases hcarries with
  | @done made hmade =>
    obtain ⟨r, k, t, installed, h⟩ := Party.arranges_of_established (Prod.ext hmade rfl) ho
    have hr : r.IsBounded := Vault.record_of_load h.load ▸ A.vault.isBounded_record a
    have hbase := (x.request a thread).isBounded_base hr
    obtain ⟨i, hload, hfiled, hanswer⟩ := Party.filed_of_install h.install
    rw [h.writes] at hvault
    refine ⟨k, t, r, (A.contents.install A.party.environment.now a ((x.request a thread).base r)
      (x.session k t)).record a, i, h.load, hload, h.agreement, h.presented, h.ratchet, ?_,
      Contents.current_install_self .., ?_, fun hi => ?_, fun j hi hkey => ?_,
      fun j hi hkey => ?_, ?_⟩
    · rw [hvault]
      exact Vault.load_of_session? (Party.session?_of_install hbase h.install)
    · rw [Contents.pending_install_self, x.pending_base]
    · subst hi
      rw [hvault]
      exact Vault.loadIdentity_apply hfiled
    · subst hi
      have hnone : installed.writes.identities.get? a.name = none := hfiled.trans (if_pos hkey)
      rw [hvault, Vault.get?_identities_apply, hnone]
      rfl
    · subst hi
      rw [hvault]
      exact Vault.loadIdentity_apply (hfiled.trans (if_neg hkey))
    · rw [h.actions, hanswer]
      rfl

/-- Bob's second device comes with a new key to an exchange that both sides open, after our own
identity was replaced: the answer carries the pairs of the exchange under way, with the identity it
was opened under. -/
theorem handshake_establishes_bob :
    let B := sample .acceptChanged sampleVault
    let A : Account := { B with party := { B.party with identity := .plain 12 } }
    let x := Proposal.message (.initiate
      ((PendingExchange.mk 3 (.plain 8) (.plain 9) (.plain 4)).leg .initiate))
    let o : HandshakeOutcome := ⟨.established, [
      .sendHandshake ⟨"bob", 2⟩ 7
        (.response ((PendingExchange.mk 3 (.plain 6) (.plain 7) (.plain 1)).leg
        (.union .response .simultaneous))),
      .notify ⟨"bob", .direct, .elsewhere, .keyChanged⟩, .drainPending ⟨"bob", 2⟩,
      .securityUpdate 7]⟩
    (A.serve .plain (x.request ⟨"bob", 2⟩ 7)).1 = .ok (.outcome o) ∧
    ∃ k t r r' i,
      A.Establishes .plain ⟨"bob", 2⟩ 7 x o
        (A.serve .plain (x.request ⟨"bob", 2⟩ 7)).2 k t r r' i := by
  intro B A x o
  have hanswer : (A.serve .plain (x.request ⟨"bob", 2⟩ 7)).1 = .ok (.outcome o) := by decide +kernel
  exact ⟨hanswer, handshake_establishes .plain (Prod.ext hanswer rfl) rfl⟩

end Account

end SecureSession
