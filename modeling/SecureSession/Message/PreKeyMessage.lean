import SecureSession.Message.RatchetMessage

/-! # Prekey messages

The first message to a peer that was offline when the session was built. It names the
prekey that was used, so the peer can build its side of the session and read the
message it carries in one go. -/

namespace SecureSession

/-- A first message that names a prekey of its recipient. -/
structure PreKeyMessage where
  prekeyId : UInt32
  /-- The sender's base key. -/
  baseKey : PublicKey
  /-- The sender's identity. -/
  identityKey : PublicKey
  /-- The first message of the session. -/
  message : RatchetMessage
deriving DecidableEq

namespace PreKeyMessage

/-- The fields as they are read. -/
def fields : Cbor.Fields (Option UInt32 × Option Bytes × Option Bytes × Option Bytes × Unit) :=
  .optional "prekey_id" Cbor.Decoder.uint32 <|
  .optional "base_key" Cbor.Decoder.octets <|
  .optional "identity_key" Cbor.Decoder.octets <|
  .optional "message" Cbor.Decoder.octets .nil

/-- The structure of a message. -/
def toItem (m : PreKeyMessage) : Cbor.Item := .fields [
  ("prekey_id", .unsigned m.prekeyId.toNat),
  ("base_key", Frame.keyItem m.baseKey),
  ("identity_key", Frame.keyItem m.identityKey),
  ("message", .octets m.message.encode)]

/-- The bytes of a message. -/
def encode (m : PreKeyMessage) : Bytes := Frame.encode m.toItem

/-- What the refusal of the message carried inside means for the message around it. -/
def innerError : ProtocolError → ProtocolError
  | .invalidMessage defect => .invalidMessage (.inner defect)
  | .invalidVersion used _ _ => .invalidMessage (.innerVersion used)

/-- The message in some bytes. The message inside is read before the other fields are looked at. -/
def decode (bytes : Bytes) : Except ProtocolError PreKeyMessage := do
  let (prekeyId, baseKey, identityKey, message, _) ← Frame.decode fields bytes
  let message ← (RatchetMessage.decode (← Frame.required "message" message)).mapError innerError
  return {
    prekeyId := ← Frame.required "prekey_id" prekeyId
    baseKey := ← Frame.requiredKey "base_key" baseKey
    identityKey := ← Frame.requiredKey "identity_key" identityKey
    message }

end PreKeyMessage

end SecureSession
