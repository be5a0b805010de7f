import SecureSession.Message.KeyExchangeMessage
import SecureSession.Message.PreKeyMessage

/-! # Handshake messages

The transport labels a payload with its family; the version byte and the flags decide the rest. -/

namespace SecureSession

/-- The family of a payload. -/
inductive HandshakeKind
  | prekey
  | keyExchange
deriving DecidableEq, Inhabited

/-- A message of a handshake. -/
inductive HandshakeMessage
  /-- The first message on a session built from a bundle. -/
  | bundle (message : PreKeyMessage)
  /-- The peer opens a key exchange. -/
  | initiate (message : KeyExchangeMessage)
  /-- The peer answers our initiate. -/
  | response (message : KeyExchangeMessage)
  /-- A message in a version no longer read. -/
  | legacy (kind : HandshakeKind) (used : UInt8)
deriving DecidableEq

namespace HandshakeMessage

/-- The family of the message. -/
def kind : HandshakeMessage → HandshakeKind
  | bundle _ => .prekey
  | initiate _ | response _ => .keyExchange
  | legacy kind _ => kind

/-- The bytes of the message. A legacy message has none. -/
def encode : HandshakeMessage → Except ProtocolError Bytes
  | bundle m => .ok m.encode
  | initiate m | response m => .ok m.encode
  | legacy _ used => .error (Version.unsupported used)

/-- The message that opens or answers an exchange. -/
def ofExchange (m : KeyExchangeMessage) : HandshakeMessage :=
  if m.isInitiate then initiate m else response m

/-- The message of the given family in some bytes. The body of a legacy message is not looked at. -/
def decode (kind : HandshakeKind) (bytes : Bytes) : Except ProtocolError HandshakeMessage := do
  let v ← Version.peek bytes
  if v.isLegacy then return legacy kind v.used
  match kind with
  | .prekey => return bundle (← PreKeyMessage.decode bytes)
  | .keyExchange => return ofExchange (← KeyExchangeMessage.decode bytes)

end HandshakeMessage

end SecureSession
