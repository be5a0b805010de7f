import SecureSession.Dispatch
import SecureSession.Handshake.Receive
import SecureSession.Simulation.Network

/-! # Simulated devices

A device of an account: a party with a storage of its own, and the number of the prekey it publishes
next. What it asks for is recorded, and its messages go to an outbox. -/

namespace SecureSession

/-- A setting of all devices of a simulation. -/
structure SessionConfig where
  policy : TrustPolicy
  /-- The number of the prekey that is kept after use. -/
  lastResort : UInt32
deriving DecidableEq, Inhabited

/-! ### Devices -/

/-- A simulated device. -/
structure Device where
  address : Address
  party : Party
  storage : Storage
  nextPreKey : UInt32

namespace Device

/-- A new device with an environment and an identity. Its account is named after its address. -/
def create (address : Address) (environment : Environment) (config : SessionConfig)
    (identity : KeyPair) : Device where
  address
  party := {
    account := address.display
    identity
    trust := ⟨config.policy, fun _ => []⟩
    lastResort := config.lastResort
    environment
    prekeys := .empty }
  storage := .empty .never
  nextPreKey := 1

/-- What the device has stored. -/
def vault (d : Device) : Vault := d.storage.vault d.party.account

/-- The device with another stored content. -/
def setVault (d : Device) (v : Vault) : Device :=
  { d with storage := d.storage.setVault d.party.account v }

/-- The device with another identity; sessions and prekeys stay. -/
def rotateIdentity (d : Device) (identity : KeyPair) : Device :=
  { d with party := { d.party with identity } }

/-- Moves the clock. -/
def advance (d : Device) (milliseconds : UInt64) : Device :=
  { d with party := { d.party with environment := d.party.environment.advance milliseconds } }

/-- The device with other prekeys. -/
def setPreKeys (d : Device) (prekeys : PreKeys) : Device :=
  { d with party := { d.party with prekeys } }

/-- Makes the next commit fail. -/
def failNextCommit (d : Device) : Device :=
  { d with storage := { d.storage with faults := d.storage.faults.arm } }

/-- The first message on the session with a peer; none if there is no session
or the peer has answered. -/
def firstMessage? (d : Device) (peer : Address) (ciphertext : Bytes) :
    Except SessionError (Option PreKeyMessage) := do
  let record ← d.vault.load peer
  return record.current.bind fun s => s.wrap? (s.nextMessage ciphertext)

/-! ### Steps -/

/-- Carries out a plan for what is stored. -/
def runPlan {α : Type} (d : Device) (plan : Vault → Except SessionError (Plan α)) :
    Except SessionError α × Device :=
  let (result, storage) := d.storage.run d.party.account plan
  (result, { d with storage })

/-- Carries out a plan about identities: one made with the trust of the account at
the time of the device. -/
def runTrust {α : Type} (d : Device)
    (plan : Trust → UInt64 → Vault → Except SessionError (Plan α)) :
    Except SessionError α × Device :=
  d.runPlan (plan d.party.trust d.party.environment.now)

/-- Takes over what a step of the party leaves. -/
def settle (d : Device) (r : Except SessionError HandshakeOutcome × Party × Storage) :
    Except SessionError HandshakeOutcome × Device :=
  (r.1, { d with party := r.2.1, storage := r.2.2 })

variable (suite : Suite)

/-- Publishes a prekey for a device under a number. -/
def publishFor (d : Device) (device prekeyId : UInt32) : PreKeyBundle × Device :=
  let (bundle, party) := d.party.publish suite device prekeyId
  (bundle, { d with party })

/-- Publishes a prekey under a number. -/
def publishAs (d : Device) (prekeyId : UInt32) : PreKeyBundle × Device :=
  d.publishFor suite d.address.device prekeyId

/-- Publishes a prekey under the next number. -/
def publishNext (d : Device) : PreKeyBundle × Device :=
  { d with nextPreKey := d.nextPreKey + 1 }.publishAs suite d.nextPreKey

/-- Publishes the prekey of last resort. -/
def publishLastResort (d : Device) : PreKeyBundle × Device := d.publishAs suite d.party.lastResort

/-- Builds a session from a published bundle. -/
def useBundle (peer : Address) (thread : UInt64) (b : PreKeyBundle) (d : Device) :
    Except SessionError HandshakeOutcome × Device :=
  d.settle (d.party.useBundle suite d.storage peer thread b)

/-- Opens an exchange with a peer. -/
def initiate (peer : Address) (thread : UInt64) (d : Device) :
    Except SessionError HandshakeOutcome × Device :=
  d.settle (d.party.initiate suite d.storage peer thread)

/-- Takes in a message. -/
def receive (e : Envelope) (d : Device) : Except SessionError HandshakeOutcome × Device :=
  d.settle (d.party.receivePayload suite d.storage e.link.source e.thread e.kind e.payload)

end Device

/-! ### What a device asks for -/

/-- The calls a device has made. -/
structure Recording where
  /-- Messages that have yet to be put on the network. -/
  outbox : List Envelope
  /-- Conversations of which the security was shown anew. -/
  securityUpdates : List UInt64
  /-- The texts of system messages. -/
  systemMessages : List String
  /-- Devices of which messages were tried again. -/
  drained : List Address
deriving DecidableEq

namespace Recording

/-- No calls. -/
def empty : Recording := ⟨[], [], [], []⟩

instance : Inhabited Recording := ⟨empty⟩

/-- Records a call of the device at an address; every call is accepted. -/
def sink (source : Address) : Sink Recording := fun r call =>
  (true,
    match call with
    | .sendHandshake target thread kind payload =>
      { r with outbox := r.outbox ++ [⟨⟨source, target⟩, thread, kind, payload⟩] }
    | .securityUpdated thread => { r with securityUpdates := r.securityUpdates ++ [thread] }
    | .insertMessage _ text => { r with systemMessages := r.systemMessages ++ [text] }
    | .schedulePending address => { r with drained := r.drained ++ [address] })

end Recording

end SecureSession
