import SecureSession.Message.Frame

/-! # Prekey bundles

What a device publishes so that a session with it can be built while it is offline. -/

namespace SecureSession

/-- A published prekey of a device. -/
structure PreKeyBundle where
  deviceId : UInt32
  /-- The number to name in the first message. -/
  prekeyId : UInt32
  prekey : PublicKey
  /-- The device's identity. -/
  identityKey : PublicKey
deriving DecidableEq

namespace PreKeyBundle

/-- The fields as they are read. -/
def fields : Cbor.Fields (Option UInt32 × Option UInt32 × Option Bytes × Option Bytes × Unit) :=
  .optional "device_id" Cbor.Decoder.uint32 <|
  .optional "prekey_id" Cbor.Decoder.uint32 <|
  .optional "prekey" Cbor.Decoder.octets <|
  .optional "identity_key" Cbor.Decoder.octets .nil

/-- The structure of a bundle. -/
def toItem (b : PreKeyBundle) : Cbor.Item := .fields [
  ("device_id", .unsigned b.deviceId.toNat),
  ("prekey_id", .unsigned b.prekeyId.toNat),
  ("prekey", Frame.keyItem b.prekey),
  ("identity_key", Frame.keyItem b.identityKey)]

/-- The bytes of a bundle. -/
def encode (b : PreKeyBundle) : Bytes := Frame.encode b.toItem

/-- The bundle in some bytes. -/
def decode (bytes : Bytes) : Except ProtocolError PreKeyBundle := do
  let (deviceId, prekeyId, prekey, identityKey, _) ← Frame.decode fields bytes
  return {
    deviceId := ← Frame.required "device_id" deviceId
    prekeyId := ← Frame.required "prekey_id" prekeyId
    prekey := ← Frame.requiredKey "prekey" prekey
    identityKey := ← Frame.requiredKey "identity_key" identityKey }

end PreKeyBundle

end SecureSession
