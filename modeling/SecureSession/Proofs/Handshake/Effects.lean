import Mathlib.Data.List.Flatten
import SecureSession.Handshake.Receive
import SecureSession.Proofs.Agreement
import SecureSession.Proofs.Storage.Install

/-! # The effects of a step of a handshake

A step that succeeds has an effect: the contents it leaves, its status, the messages it sends and
the prekey it uses up. `Party.Opens`, `Party.UsesBundle` and `Party.Takes` say which effects the
steps of a party have, and how they are refused, given the contents of its vault. -/

namespace SecureSession

/-! ### What is sent -/

/-- The message that an action sends, with its recipient. -/
def SessionAction.sent? : SessionAction → Option (Address × HandshakeMessage)
  | sendHandshake a _ m => some (a, m)
  | _ => none

/-- The messages that some actions send, with their recipients. -/
def SessionAction.sent (l : List SessionAction) : List (Address × HandshakeMessage) :=
  l.filterMap sent?

theorem SessionAction.sent_append (l l' : List SessionAction) :
    sent (l ++ l') = sent l ++ sent l' :=
  List.filterMap_append

/-- Notices send no messages. -/
theorem SessionAction.sent_eq_nil {l : List SessionAction}
    (h : ∀ x ∈ l, ∃ notice, x = notify notice) : sent l = [] := by
  rw [sent, List.filterMap_eq_nil_iff]
  intro x hx
  obtain ⟨notice, rfl⟩ := h x hx
  rfl

/-! ### What is drawn -/

/-- The exchange drawn from an environment. -/
def Environment.exchange (e : Environment) (suite : Suite) (identity : KeyPair)
    (sequence : UInt32) : PendingExchange where
  sequence
  base := (e.keyPair suite).1
  ephemeral := ((e.keyPair suite).2.keyPair suite).1
  identity

/-- The environment once the keys of an exchange are drawn. -/
def Environment.afterExchange (e : Environment) (suite : Suite) : Environment :=
  ((e.keyPair suite).2.keyPair suite).2

/-- The public keys drawn for an exchange. -/
def PendingExchange.publicKeys (q : PendingExchange) : List PublicKey :=
  [q.base.publicKey, q.ephemeral.publicKey]

/-- Where no public key is drawn twice, two exchanges have no keys in common. -/
theorem publicKeys_ne {l : List PendingExchange} (h : (l.flatMap PendingExchange.publicKeys).Nodup)
    {q q' : PendingExchange} (hsub : [q, q'].Sublist l) :
    q.base.publicKey ≠ q'.base.publicKey ∧ q.ephemeral.publicKey ≠ q'.ephemeral.publicKey := by
  have hnodup := (hsub.flatMap PendingExchange.publicKeys).nodup h
  simp only [List.flatMap_cons, List.flatMap_nil, PendingExchange.publicKeys, List.cons_append,
    List.nil_append, List.nodup_cons, List.mem_cons, not_or] at hnodup
  exact ⟨hnodup.1.2.1, hnodup.2.1.2.1⟩

/-! ### What is used up -/

namespace PreKeys

variable {p : PreKeys} {id k : UInt32}

theorem get?_discard_of_ne (h : k ≠ id) : (p.discard id).held.get? k = p.held.get? k := by
  unfold discard remove
  by_cases hfault : p.fault = some .remove
  · rw [if_pos hfault]
  · rw [if_neg hfault]
    dsimp only
    rw [SortedMap.get?_erase, if_neg h]

/-- A prekey is gone where removing does not fail. -/
theorem get?_discard_self (h : p.fault ≠ some .remove) : (p.discard k).held.get? k = none := by
  unfold discard remove
  rw [if_neg h]
  dsimp only
  rw [SortedMap.get?_erase, if_pos rfl]

theorem get?_of_discard {pair : KeyPair} (h : (p.discard id).held.get? k = some pair) :
    p.held.get? k = some pair := by
  by_cases hk : k = id
  · subst hk
    by_cases hfault : p.fault = some .remove
    · unfold discard remove at h
      rwa [if_pos hfault] at h
    · rw [get?_discard_self hfault] at h
      cases h
  · rwa [get?_discard_of_ne hk] at h

theorem contains_eq (h : p.fault = none) (id : UInt32) :
    p.contains id = .ok (p.held.get? id).isSome := by
  simp [contains, h, SortedMap.contains]

theorem load_eq (h : p.fault = none) {pair : KeyPair} (hheld : p.held.get? id = some pair) :
    p.load id = .ok pair := by
  simp [load, h, hheld]

theorem fault_discard (p : PreKeys) (id : UInt32) : (p.discard id).fault = p.fault := by
  unfold discard remove
  by_cases h : p.fault = some .remove <;> simp [h]

end PreKeys

/-! ### The exchanges of a party -/

namespace Party

variable (suite : Suite) (p : Party)

/-- The exchange that a party would open. -/
def opening : PendingExchange :=
  p.environment.uint32.2.exchange suite p.identity
    (if p.environment.uint32.1 = 0 then 1 else p.environment.uint32.1)

/-- The exchange with new keys that a party would answer an initiate with. -/
def answering (sequence : UInt32) : PendingExchange :=
  p.environment.exchange suite p.identity sequence

/-- The exchange that a party answers an initiate with: one of new keys, or the one under way under
the number of the initiate. -/
def answer (pending : Option PendingExchange) (sequence : UInt32) : PendingExchange :=
  pending.elim (p.answering suite sequence) ({ · with sequence })

/-- The flags of an answer. -/
def answerFlags (pending : Option PendingExchange) : ExchangeFlags :=
  if pending.isSome then .union .response .simultaneous else .response

end Party

/-! ### Trust and completion -/

namespace Contents

/-- Whether a key may be used for a session with a peer. -/
def trusts (c : Contents) (policy : TrustPolicy) (name : String) (key : PublicKey) : Bool :=
  match c.filed name with
  | none => true
  | some r => r.identityKey = key ∨ policy = .acceptChanged

/-- The contents once an exchange and the other side's leg have made a session. -/
def complete (c : Contents) (now : UInt64) (a : Address) (q : PendingExchange)
    (m : KeyExchangeMessage) (ratchet : RatchetState) : Contents :=
  c.install now a (c.record a).clearPending.purgeLegacy
    (.fresh q.identity.publicKey m.identityKey ratchet)

/-- Once a session is installed, the identity it is with is trusted. -/
theorem trusts_install_self (c : Contents) (now : UInt64) (a : Address) (r : SessionRecord)
    (s : SessionState) (policy : TrustPolicy) :
    (c.install now a r s).trusts policy a.name s.remoteIdentity = true := by
  obtain ⟨i, hi, hkey⟩ := c.filed_install_self now a r s
  rw [trusts, hi]
  exact decide_eq_true (.inl hkey)

end Contents

theorem Vault.Readable.validate_eq {v : Vault} (h : v.Readable) (t : Trust) (a : Address)
    (key : PublicKey) : t.validate v a key = .ok (v.contents.trusts t.policy a.name key) := by
  simp only [Trust.validate, h.loadIdentity_eq a.name, Contents.trusts]
  cases v.contents.filed a.name <;> rfl

theorem Vault.Readable.require_eq {v : Vault} (h : v.Readable) (t : Trust) (a : Address)
    (key : PublicKey) : t.require v a key =
      if v.contents.trusts t.policy a.name key then .ok () else .error (.trustRejected a) := by
  simp only [Trust.require, h.validate_eq]
  cases v.contents.trusts t.policy a.name key <;> rfl

/-! ### Effects -/

/-- What a step that succeeds comes to. -/
structure Effect where
  contents : Contents
  status : HandshakeStatus
  /-- The messages sent, with their recipients. -/
  sent : List (Address × HandshakeMessage)
  /-- The prekey that is gone. -/
  consumed : Option UInt32

/-- A message that is dropped leaves everything as it is. -/
def Effect.dropped (c : Contents) (status : HandshakeStatus) : Effect := ⟨c, status, [], none⟩

namespace Party

variable (suite : Suite) (p : Party) (c : Contents) (a : Address)

/-- What opening an exchange comes to. -/
def opened : Effect where
  contents := c.put a ((c.record a).setPending (p.opening suite))
  status := .initiated
  sent := [(a, .initiate ((p.opening suite).leg .initiate))]
  consumed := none

/-- What using a bundle comes to. -/
inductive UsesBundle (b : PreKeyBundle) : Except SessionError Effect → Prop
  | untrusted (h : c.trusts p.trust.policy a.name b.identityKey = false) :
    UsesBundle b (.error (.trustRejected a))
  /-- No ratchet starts from the keys. -/
  | underivable {e : CryptoError} (h : ¬suite.Starts) : UsesBundle b (.error (.crypto e))
  | built {base ephemeral : KeyPair} {ratchet : RatchetState} {now : UInt64}
    (hbase : suite.Owns base) (hephemeral : suite.Owns ephemeral)
    (hratchet : suite.initialState (p.bundleParameters base ephemeral b) = .ok ratchet) :
    UsesBundle b
      (.ok ⟨c.install now a (c.record a) (p.bundleState base b ratchet), .established, [], none⟩)

/-- What taking in a message comes to. -/
inductive Takes : HandshakeMessage → Except SessionError Effect → Prop
  /-- An initiate or a response under a key that is refused. -/
  | untrustedInitiate {m : KeyExchangeMessage}
    (h : c.trusts p.trust.policy a.name m.identityKey = false) :
    Takes (.initiate m) (.error (.trustRejected a))
  | untrustedResponse {m : KeyExchangeMessage}
    (h : c.trusts p.trust.policy a.name m.identityKey = false) :
    Takes (.response m) (.error (.trustRejected a))
  /-- No ratchet starts from the keys. -/
  | underivable {m : HandshakeMessage} {e : CryptoError} (h : ¬suite.Starts) :
    Takes m (.error (.crypto e))
  /-- An initiate is answered, with the session made first. -/
  | answered {m : KeyExchangeMessage} {q : PendingExchange} {ratchet : RatchetState} {now : UInt64}
    (hq : q = p.answer suite (c.record a).pending m.sequence)
    (hratchet : suite.initialState (exchangeParameters q m) = .ok ratchet) :
    Takes (.initiate m) (.ok ⟨c.complete now a q m ratchet, .established,
      [(a, .response (q.leg (answerFlags (c.record a).pending)))], none⟩)
  /-- A response answers the exchange under way. -/
  | completed {m : KeyExchangeMessage} {q : PendingExchange} {ratchet : RatchetState} {now : UInt64}
    (hpending : (c.record a).pending = some q) (hsequence : q.sequence = m.sequence)
    (hratchet : suite.initialState (exchangeParameters q m) = .ok ratchet) :
    Takes (.response m) (.ok ⟨c.complete now a q m ratchet, .established, [], none⟩)
  /-- A response answers nothing under way. -/
  | stale {m : KeyExchangeMessage}
    (h : ∀ q, (c.record a).pending = some q → q.sequence ≠ m.sequence) :
    Takes (.response m) (.ok (.dropped c .stale))
  | untrustedSender {m : PreKeyMessage}
    (h : c.trusts p.trust.policy a.name m.identityKey = false) :
    Takes (.bundle m) (.error (.trustRejected a))
  | unknownPreKey {m : PreKeyMessage} : Takes (.bundle m) (.error (.invalidKeyId m.prekeyId))
  | duplicate {m : PreKeyMessage} : Takes (.bundle m) (.ok (.dropped c .duplicate))
  /-- A first message names a prekey that is held. -/
  | built {m : PreKeyMessage} {prekey : KeyPair} {ratchet : RatchetState} {now : UInt64}
    (hprekey : p.prekeys.held.get? m.prekeyId = some prekey)
    (hratchet : suite.initialState (p.messageParameters prekey m) = .ok ratchet) :
    Takes (.bundle m) (.ok ⟨c.install now a (c.record a)
      (.fresh p.identity.publicKey m.identityKey ratchet), .established, [], p.usedUp m.prekeyId⟩)
  | legacy {kind : HandshakeKind} {used : UInt8} :
    Takes (.legacy kind used) (.ok (.dropped c .legacy))

end Party

end SecureSession
