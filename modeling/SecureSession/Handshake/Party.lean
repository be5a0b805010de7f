import SecureSession.Environment
import SecureSession.Identity.Trust
import SecureSession.Message.PreKeyBundle
import SecureSession.PreKeys

/-! # Parties

One party to handshakes: an account with its identity, its prekeys and its environment. A step of a
handshake is planned from what the account has stored, and the plan is carried out in one commit; a
step that fails leaves nothing behind but what it drew from the environment. -/

namespace SecureSession

/-- The number of the prekey that may be used again and again, unless configured otherwise. -/
def defaultLastResort : UInt32 := 0xffffff

/-- One party to handshakes. -/
structure Party where
  /-- The account under which the party stores. -/
  account : String
  identity : KeyPair
  trust : Trust
  /-- The number of the prekey that is kept after use. -/
  lastResort : UInt32
  environment : Environment
  prekeys : PreKeys

/-- What a planned step answers and uses up. -/
structure Step where
  outcome : HandshakeOutcome
  /-- The prekey that is gone once the step is done. -/
  consumed : Option UInt32
deriving DecidableEq

namespace Step

/-- A message dropped; nothing changes. -/
def dropped (status : HandshakeStatus) : Plan Step := .reply ⟨.dropped status, none⟩

end Step

/-- Runs a drawing step: its result, and the environment after it. -/
def Draw.perform {α : Type} (d : Draw α) (e : Environment) : Except SessionError α × Environment :=
  match d e with
  | .ok a e => (.ok a, e)
  | .error err e => (.error err, e)

namespace Party

/-- The party after a step that used up a prekey. A prekey that cannot be removed stays. -/
def consume (p : Party) : Option UInt32 → Party
  | none => p
  | some id => { p with prekeys := p.prekeys.discard id }

/-- Plans a step from what the account has stored, and carries it out. -/
def perform (p : Party) (s : Storage) (plan : Vault → Draw (Plan Step)) :
    Except SessionError HandshakeOutcome × Party × Storage :=
  let (plan, environment) := (plan (s.vault p.account)).perform p.environment
  let p := { p with environment }
  match s.carryOut p.account plan with
  | (.ok step, s) => (.ok step.outcome, p.consume step.consumed, s)
  | (.error e, s) => (.error e, p, s)

/-- Publishes a new prekey of a device, in place of any other of that number. -/
def publish (suite : Suite) (p : Party) (device prekeyId : UInt32) : PreKeyBundle × Party :=
  let (pair, environment) := p.environment.keyPair suite
  ({ deviceId := device, prekeyId, prekey := pair.publicKey, identityKey := p.identity.publicKey },
    { p with environment, prekeys := p.prekeys.insert prekeyId pair })

/-- Plans a new live session at an address: the record given, with the session made live after the
identity is filed. Where the peer's key changes, the sessions it replaces are archived first. -/
def install (p : Party) (v : Vault) (now : UInt64) (a : Address) (record : SessionRecord)
    (state : SessionState) : Except SessionError (Plan IdentityUpdate) := do
  let (writes, update) ← p.trust.stageSave v now a state.remoteIdentity (Batch.empty.put a record)
  let record := (writes.stagedRecord? a).getD .empty
  return ⟨writes.put a (record.promote state), update⟩

end Party

end SecureSession
