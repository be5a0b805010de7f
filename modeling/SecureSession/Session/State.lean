import SecureSession.Message.PreKeyMessage
import SecureSession.Ratchet

/-! # Session states

One ratchet session with a peer device, and the keys of a key exchange that
waits for its response. -/

namespace SecureSession

/-! ### States -/

/-- The prekey a session was built with, kept until the peer answers. -/
structure UnacknowledgedPreKey where
  /-- The number of the peer's prekey. -/
  prekeyId : UInt32
  /-- Our base key. -/
  baseKey : PublicKey
deriving DecidableEq

/-- A session with a peer device. -/
structure SessionState where
  /-- The version the session was built in. -/
  version : UInt8
  /-- Our identity when the session was built. -/
  localIdentity : PublicKey
  /-- The peer's identity when the session was built. -/
  remoteIdentity : PublicKey
  ratchet : RatchetState
  unacknowledged : Option UnacknowledgedPreKey
deriving DecidableEq

namespace SessionState

/-- A session just built, in the current version. -/
def fresh (localIdentity remoteIdentity : PublicKey) (ratchet : RatchetState) : SessionState where
  version := Version.newest
  localIdentity
  remoteIdentity
  ratchet
  unacknowledged := none

/-- Whether messages can be sent. -/
def canSend (s : SessionState) : Bool := s.ratchet.canSend

/-- Whether the session was built in a version no longer read. -/
def isLegacy (s : SessionState) : Bool := s.version < Version.oldest

/-- A message wrapped so that the peer can build its side, as long as the peer has not answered. -/
def wrap? (s : SessionState) (message : RatchetMessage) : Option PreKeyMessage :=
  s.unacknowledged.map fun u => {
    prekeyId := u.prekeyId
    baseKey := u.baseKey
    identityKey := s.localIdentity
    message }

/-- The next message to send, with the given content. -/
def nextMessage (s : SessionState) (ciphertext : Bytes) : RatchetMessage where
  senderEphemeral := s.ratchet.localKey
  counter := s.ratchet.sendingChain.elim 0 ChainKey.index
  previousCounter := 0
  ciphertext

/-- Whether the peer's state fits ours: the chains are shared, and our ratchet key and the peer's
identity are known to the other side. -/
def fits (ours theirs : SessionState) : Bool :=
  ours.ratchet.sharesChains theirs.ratchet ∧ ours.ratchet.localKey = theirs.ratchet.remoteKey ∧
    ours.remoteIdentity = theirs.localIdentity

end SessionState

/-! ### Exchanges -/

/-- The keys of an exchange we opened or are about to answer. -/
structure PendingExchange where
  /-- The number both legs carry. -/
  sequence : UInt32
  base : KeyPair
  ephemeral : KeyPair
  identity : KeyPair
deriving DecidableEq

end SecureSession
