import SecureSession.Message.Frame

/-! # Ratchet messages

An encrypted message of a session. Establishing a session looks at the sender's ratchet key only;
the rest is carried along. -/

namespace SecureSession

/-- A message of a session. -/
structure RatchetMessage where
  /-- The sender's current ratchet key. -/
  senderEphemeral : PublicKey
  /-- The position in the sender's chain. -/
  counter : UInt32
  /-- The length of the sender's previous chain. -/
  previousCounter : UInt32
  ciphertext : Bytes
deriving DecidableEq

namespace RatchetMessage

/-- The fields as they are read. -/
def fields : Cbor.Fields (Option Bytes × Option UInt32 × Option UInt32 × Option Bytes × Unit) :=
  .optional "sender_ephemeral" Cbor.Decoder.octets <|
  .optional "counter" Cbor.Decoder.uint32 <|
  .optional "previous_counter" Cbor.Decoder.uint32 <|
  .optional "ciphertext" Cbor.Decoder.octets .nil

/-- The structure of a message. -/
def toItem (m : RatchetMessage) : Cbor.Item := .fields [
  ("sender_ephemeral", Frame.keyItem m.senderEphemeral),
  ("counter", .unsigned m.counter.toNat),
  ("previous_counter", .unsigned m.previousCounter.toNat),
  ("ciphertext", .octets m.ciphertext)]

/-- The bytes of a message. -/
def encode (m : RatchetMessage) : Bytes := Frame.encode m.toItem

/-- The message in some bytes. -/
def decode (bytes : Bytes) : Except ProtocolError RatchetMessage := do
  let (senderEphemeral, counter, previousCounter, ciphertext, _) ← Frame.decode fields bytes
  return {
    senderEphemeral := ← Frame.requiredKey "sender_ephemeral" senderEphemeral
    counter := ← Frame.required "counter" counter
    previousCounter := ← Frame.required "previous_counter" previousCounter
    ciphertext := ← Frame.required "ciphertext" ciphertext }

end RatchetMessage

end SecureSession
