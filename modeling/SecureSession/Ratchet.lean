import SecureSession.Chain
import SecureSession.Crypto.Hmac
import SecureSession.Key

/-! # The initial ratchet

Two parties that hold each other's base, ephemeral and identity keys derive one root key and two
chains. The party whose base key is the lower sends on the first chain and the other on the second,
so mirrored keys give mirrored states. -/

namespace SecureSession

/-! ### States -/

/-- The chains of a session, as one party holds them. -/
structure RatchetState where
  /-- The key later ratchet steps start from. -/
  rootKey : Key
  /-- Our current ratchet key. -/
  localKey : PublicKey
  /-- The peer's current ratchet key. -/
  remoteKey : PublicKey
  /-- The chain of the messages we send. -/
  sendingChain : Option ChainKey
  /-- The chain of the messages we receive. -/
  receivingChain : Option ChainKey
deriving DecidableEq

namespace RatchetState

/-- Whether messages can be sent. -/
def canSend (r : RatchetState) : Bool := r.sendingChain.isSome

/-- The key of the next message to send, and the state after taking it. -/
def nextSendingKey (r : RatchetState) : Option MessageKey × RatchetState :=
  match r.sendingChain with
  | none => (none, r)
  | some c => (some c.messageKey, { r with sendingChain := some c.next })

/-- The key of the next message to receive, and the state after taking it. -/
def nextReceivingKey (r : RatchetState) : Option MessageKey × RatchetState :=
  match r.receivingChain with
  | none => (none, r)
  | some c => (some c.messageKey, { r with receivingChain := some c.next })

/-- A step on the chains of a ratchet. -/
inductive Step
  /-- Take the key of the next message to send. -/
  | send
  /-- Take the key of the next message to receive. -/
  | receive
  | dropSending
  | dropReceiving
deriving DecidableEq

/-- The key that a step takes, if it takes one, and the state after it. -/
def step (r : RatchetState) : Step → Option MessageKey × RatchetState
  | .send => r.nextSendingKey
  | .receive => r.nextReceivingKey
  | .dropSending => (none, { r with sendingChain := none })
  | .dropReceiving => (none, { r with receivingChain := none })

/-- The keys that some steps take in turn, and the state after them. -/
def run : RatchetState → List Step → List (Option MessageKey) × RatchetState
  | r, [] => ([], r)
  | r, s :: rest =>
    let (key, r) := r.step s
    let (keys, r) := run r rest
    (key :: keys, r)

/-- Whether two states share a root key and each sends on the chain the other receives on. -/
def sharesChains (r s : RatchetState) : Bool :=
  r.rootKey = s.rootKey ∧ r.sendingChain = s.receivingChain ∧ r.receivingChain = s.sendingChain

/-- Whether two states are the two ends of one ratchet. -/
def mirrors (r s : RatchetState) : Bool :=
  r.sharesChains s ∧ r.localKey = s.remoteKey ∧ r.remoteKey = s.localKey

end RatchetState

/-! ### Initialization -/

/-- The keys a handshake leaves one party with. -/
structure RatchetParameters where
  ourBase : KeyPair
  theirBase : PublicKey
  /-- Becomes our first ratchet key. -/
  ourEphemeral : KeyPair
  theirEphemeral : PublicKey
  ourIdentity : KeyPair
  theirIdentity : PublicKey
deriving DecidableEq

namespace RatchetParameters

variable (dh : DiffieHellman)

/-- The label that keeps these derivations apart from all others. -/
def info : Bytes := Bytes.ofString "keystone ratchet v3"

/-- Whether we hold the lower base key. -/
def isLow (q : RatchetParameters) : Bool := q.ourBase.publicKey.key.lt q.theirBase.key

/-- The agreements of either party's base key with the other's identity, that of
the lower base key first. -/
def crossAgreements (q : RatchetParameters) : Except CryptoError (Key × Key) := do
  if q.isLow then
    let first ← q.ourBase.agree dh q.theirIdentity
    let second ← q.ourIdentity.agree dh q.theirBase
    return (first, second)
  else
    let first ← q.ourIdentity.agree dh q.theirBase
    let second ← q.ourBase.agree dh q.theirIdentity
    return (first, second)

/-- What the keys are derived from: a prefix no agreement has, then the four agreements. -/
def material (q : RatchetParameters) : Except CryptoError Bytes := do
  let (first, second) ← q.crossAgreements dh
  let base ← q.ourBase.agree dh q.theirBase
  let ephemeral ← q.ourEphemeral.agree dh q.theirEphemeral
  return List.replicate 32 0xff ++ first.bytes ++ second.bytes ++ base.bytes ++ ephemeral.bytes

/-- The three keys derived from some material. -/
def expansion (material : Bytes) : Bytes :=
  Hkdf.expand (Hkdf.extract (List.replicate 32 0) material) info 3

/-- Key `i` of the three derived from some material. -/
def derivedKey (material : Bytes) (i : Fin 3) : Key where
  bytes := ((expansion material).drop (32 * i)).take 32
  length_bytes := by simp [expansion]; omega

/-- The ratchet that some material makes, as we hold it: the root key, then the chain the lower base
key sends on, then the other. -/
def start (q : RatchetParameters) (material : Bytes) : RatchetState :=
  let low := ChainKey.start (derivedKey material 1)
  let high := ChainKey.start (derivedKey material 2)
  { rootKey := derivedKey material 0
    localKey := q.ourEphemeral.publicKey
    remoteKey := q.theirEphemeral
    sendingChain := some (if q.isLow then low else high)
    receivingChain := some (if q.isLow then high else low) }

/-- The ratchet that the keys make. -/
def initialState (q : RatchetParameters) : Except CryptoError RatchetState := do
  return q.start (← q.material dh)

end RatchetParameters

/-! ### Suites -/

/-- What a handshake needs of the cryptography: the public key of a secret and the ratchet of the
keys exchanged. -/
structure Suite where
  publicKey : SecretKey → PublicKey
  initialState : RatchetParameters → Except CryptoError RatchetState

namespace Suite

/-- Triple agreement over a Diffie–Hellman function. -/
def tripleAgreement (dh : DiffieHellman) : Suite where
  publicKey := dh.publicKey
  initialState q := q.initialState dh

/-- Triple agreement on Curve25519. -/
def x25519 : Suite := tripleAgreement .x25519

/-- The suite whose ratchets cannot be initialized, for the given reason. -/
def refusing (suite : Suite) (reason : String) : Suite :=
  { suite with initialState := fun _ => .error (.keyDerivation reason) }

/-- The key pair of a secret. -/
def keyPair (suite : Suite) (s : SecretKey) : KeyPair := ⟨suite.publicKey s, s⟩

end Suite

end SecureSession
