import SecureSession.Address
import SecureSession.Identity.Notice
import SecureSession.Message.HandshakeMessage

/-! # Actions

Operations send, notify and schedule nothing themselves. They answer with actions, to be carried out
once their writes are done. -/

namespace SecureSession

/-- Work for the transport and the user interface. -/
inductive SessionAction
  /-- Send a handshake message to a device. -/
  | sendHandshake (address : Address) (thread : UInt64) (message : HandshakeMessage)
  /-- Show the security of a conversation anew. -/
  | securityUpdate (thread : UInt64)
  /-- Try again to read the messages of a device that came too early. -/
  | drainPending (address : Address)
  /-- Insert a system message. -/
  | notify (notice : IdentityNotice)
deriving DecidableEq

/-- How a step of a handshake ended. -/
inductive HandshakeStatus
  /-- Our initiate is on its way. -/
  | initiated
  /-- There is a new live session. -/
  | established
  /-- A first message for a session that is there already. -/
  | duplicate
  /-- A response to no exchange under way. -/
  | stale
  /-- A message in a version no longer read. -/
  | legacy
deriving DecidableEq

/-- The answer of a step of a handshake. -/
structure HandshakeOutcome where
  status : HandshakeStatus
  actions : List SessionAction
deriving DecidableEq

namespace HandshakeOutcome

/-- A message that was dropped. -/
def dropped (status : HandshakeStatus) : HandshakeOutcome := ⟨status, []⟩

/-- Whether there is a new live session. -/
def isEstablished (o : HandshakeOutcome) : Bool := o.status = .established

end HandshakeOutcome

/-- The answer of a change to an identity. -/
structure IdentityUpdate where
  /-- Whether a key or a confirmation on file was replaced. -/
  changed : Bool
  actions : List SessionAction
deriving DecidableEq

/-- Nothing was replaced. -/
def IdentityUpdate.unchanged : IdentityUpdate := ⟨false, []⟩

end SecureSession
