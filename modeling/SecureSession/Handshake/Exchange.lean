import SecureSession.Handshake.Party

/-! # Sessions with a peer that is online

Either side opens an exchange with an initiate, and the other answers with a response of the same
number. Where two initiates cross, each side answers the other's with the keys of its own, so both
come to one session. -/

namespace SecureSession

/-- The leg of an exchange that carries the public keys of a pending one. -/
def PendingExchange.leg (q : PendingExchange) (flags : ExchangeFlags) : KeyExchangeMessage where
  sequence := q.sequence
  flags
  baseKey := q.base.publicKey
  ephemeralKey := q.ephemeral.publicKey
  identityKey := q.identity.publicKey

namespace Party

variable (suite : Suite) (p : Party)

/-- Draws the keys of an exchange with the given number. -/
def drawExchange (sequence : UInt32) : Draw PendingExchange := do
  let base ← Draw.keyPair suite
  let ephemeral ← Draw.keyPair suite
  return { sequence, base, ephemeral, identity := p.identity }

/-! ### Opening -/

/-- Plans to open an exchange, in place of any under way. Numbers are not zero. -/
def planInitiate (a : Address) (thread : UInt64) (v : Vault) : Draw (Plan Step) := do
  let record ← Draw.lift (v.load a)
  let drawn ← Draw.uint32
  let pending ← p.drawExchange suite (if drawn = 0 then 1 else drawn)
  let initiate := HandshakeMessage.initiate (pending.leg .initiate)
  return (Vault.store a (record.setPending pending)).map fun _ =>
    ⟨⟨.initiated, [.sendHandshake a thread initiate]⟩, none⟩

/-- Opens an exchange. -/
def initiate (s : Storage) (a : Address) (thread : UInt64) :
    Except SessionError HandshakeOutcome × Party × Storage :=
  p.perform s (p.planInitiate suite a thread)

/-! ### Completing -/

/-- The keys of the side that holds a pending exchange and has the other side's leg. -/
def exchangeParameters (pending : PendingExchange) (m : KeyExchangeMessage) :
    RatchetParameters where
  ourBase := pending.base
  theirBase := m.baseKey
  ourEphemeral := pending.ephemeral
  theirEphemeral := m.ephemeralKey
  ourIdentity := pending.identity
  theirIdentity := m.identityKey

/-- Plans the session that a pending exchange and the other side's leg make. Archived sessions in
versions no longer read go; `first` is done before all other actions. -/
def planCompletion (a : Address) (thread : UInt64) (record : SessionRecord)
    (pending : PendingExchange) (m : KeyExchangeMessage) (first : List SessionAction)
    (now : UInt64) (v : Vault) :
    Except SessionError (Plan Step) := do
  let ratchet ← (suite.initialState (exchangeParameters pending m)).mapError .crypto
  let state := SessionState.fresh pending.identity.publicKey m.identityKey ratchet
  let plan ← p.install v now a record.clearPending.purgeLegacy state
  return plan.map fun update =>
    ⟨⟨.established, first ++ update.actions ++ [.drainPending a, .securityUpdate thread]⟩, none⟩

/-- The exchange that answers an initiate, and the flags of the answer: new keys, or those of our
own initiate if it is under way. -/
def drawAnswer (record : SessionRecord) (sequence : UInt32) :
    Draw (PendingExchange × ExchangeFlags) := do
  match record.pending with
  | none => return (← p.drawExchange suite sequence, .response)
  | some ours => return ({ ours with sequence }, ExchangeFlags.union .response .simultaneous)

/-- Plans the answer to an initiate, which completes the exchange on our side. -/
def planAnswer (a : Address) (thread : UInt64) (m : KeyExchangeMessage) (record : SessionRecord)
    (v : Vault) : Draw (Plan Step) := do
  Draw.lift (p.trust.require v a m.identityKey)
  let (pending, flags) ← p.drawAnswer suite record m.sequence
  let response := HandshakeMessage.response (pending.leg flags)
  Draw.lift (p.planCompletion suite a thread record pending m [.sendHandshake a thread response]
    (← get).now v)

/-- The exchange under way, if a response of the given number answers it. -/
def answered? (record : SessionRecord) (sequence : UInt32) : Option PendingExchange :=
  record.pending.filter fun pending => pending.sequence == sequence

/-- Plans what a response leads to. One that answers no exchange under way is dropped before its
sender's identity is looked at. -/
def planResponse (a : Address) (thread : UInt64) (m : KeyExchangeMessage) (record : SessionRecord)
    (now : UInt64) (v : Vault) : Except SessionError (Plan Step) := do
  match answered? record m.sequence with
  | none => return Step.dropped .stale
  | some pending =>
    p.trust.require v a m.identityKey
    p.planCompletion suite a thread record pending m [] now v

/-- Plans what a leg of an exchange leads to. -/
def planExchange (a : Address) (thread : UInt64) (m : KeyExchangeMessage) (v : Vault) :
    Draw (Plan Step) := do
  let record ← Draw.lift (v.load a)
  if m.isInitiate then p.planAnswer suite a thread m record v
  else Draw.lift (p.planResponse suite a thread m record (← get).now v)

end Party

end SecureSession
