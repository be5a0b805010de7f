import SecureSession.Handshake.Party

/-! # Sessions with a peer that is offline

The initiator takes a bundle the peer has published and builds its side of the session at once. Its
first message names the prekey; with it the peer builds the other side. A prekey is used up by the
first session built from it, unless it is the one of last resort. -/

namespace SecureSession.Party

variable (suite : Suite) (p : Party)

/-! ### From a bundle -/

/-- The keys of the initiator of a session built from a bundle. -/
def bundleParameters (base ephemeral : KeyPair) (b : PreKeyBundle) : RatchetParameters where
  ourBase := base
  theirBase := b.prekey
  ourEphemeral := ephemeral
  theirEphemeral := b.prekey
  ourIdentity := p.identity
  theirIdentity := b.identityKey

/-- The initiator's session; its messages name the prekey until the peer answers. -/
def bundleState (base : KeyPair) (b : PreKeyBundle) (ratchet : RatchetState) : SessionState :=
  { SessionState.fresh p.identity.publicKey b.identityKey ratchet with
    unacknowledged := some ⟨b.prekeyId, base.publicKey⟩ }

/-- Plans a session from a published bundle. The bundle has to be the device's, and its
identity to be trusted. -/
def planFromBundle (a : Address) (thread : UInt64) (b : PreKeyBundle) (v : Vault) :
    Draw (Plan Step) := do
  if b.deviceId ≠ a.device then
    throw (.protocol (.invalidMessage (.misdirected b.deviceId a)))
  Draw.lift (p.trust.require v a b.identityKey)
  let base ← Draw.keyPair suite
  let ephemeral ← Draw.keyPair suite
  let now := (← get).now
  Draw.lift do
    let ratchet ← (suite.initialState (p.bundleParameters base ephemeral b)).mapError .crypto
    let plan ← p.install v now a (← v.load a) (p.bundleState base b ratchet)
    return plan.map fun update =>
      ⟨⟨.established, update.actions ++ [.securityUpdate thread]⟩, none⟩

/-- Builds a session from a published bundle. -/
def useBundle (s : Storage) (a : Address) (thread : UInt64) (b : PreKeyBundle) :
    Except SessionError HandshakeOutcome × Party × Storage :=
  p.perform s (p.planFromBundle suite a thread b)

/-! ### From a first message -/

/-- The keys of the owner of the prekey that a first message names. -/
def messageParameters (prekey : KeyPair) (m : PreKeyMessage) : RatchetParameters where
  ourBase := prekey
  theirBase := m.baseKey
  ourEphemeral := prekey
  theirEphemeral := m.message.senderEphemeral
  ourIdentity := p.identity
  theirIdentity := m.identityKey

/-- The prekey that a session built from it uses up. -/
def usedUp (prekeyId : UInt32) : Option UInt32 :=
  if prekeyId = p.lastResort then none else some prekeyId

/-- Plans the session that a first message asks for. A prekey that is gone is no error if there is
an active session with the sender. -/
def planFromMessage (a : Address) (thread : UInt64) (m : PreKeyMessage) (now : UInt64) (v : Vault) :
    Except SessionError (Plan Step) := do
  if !(← SessionError.ofStorage (p.prekeys.contains m.prekeyId)) then
    if ← v.containsSession a then return Step.dropped .duplicate
    throw (.invalidKeyId m.prekeyId)
  p.trust.require v a m.identityKey
  let prekey ← SessionError.ofStorage (p.prekeys.load m.prekeyId)
  let ratchet ← (suite.initialState (p.messageParameters prekey m)).mapError .crypto
  let state := SessionState.fresh p.identity.publicKey m.identityKey ratchet
  let plan ← p.install v now a (← v.load a) state
  return plan.map fun update =>
    ⟨⟨.established, update.actions ++ [.securityUpdate thread]⟩, p.usedUp m.prekeyId⟩

end SecureSession.Party
