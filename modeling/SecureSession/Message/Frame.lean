import SecureSession.Cbor.Fields
import SecureSession.Cbor.Item
import SecureSession.Message.Version

/-! # Framing

A message is a version byte and a structure. Every field may be left out as far as the structure
goes; which ones a message needs is for the message to say. -/

namespace SecureSession.Frame

/-- The message with the given structure, in the current version. -/
def encode (body : Cbor.Item) : Bytes := Version.current.toByte :: body.encode

/-- The fields of a message in a supported version. -/
def decode {τ : Type} (fields : Cbor.Fields τ) (bytes : Bytes) : Except ProtocolError τ := do
  match fields.decoder.run (← Version.supportedBody bytes) with
  | .ok body => return body
  | .error e => throw (.invalidMessage (.undecodable e))

/-- A field that has to be there. -/
def required {α : Type} (name : String) : Option α → Except ProtocolError α
  | some value => .ok value
  | none => .error (.invalidMessage (.missing name))

/-- A field that has to be there and to be a key. -/
def requiredKey (name : String) (field : Option Bytes) : Except ProtocolError PublicKey := do
  let raw ← required name field
  match PublicKey.ofBytes? raw with
  | some key => return key
  | none => throw (.invalidMessage (.keyLength name raw.length))

/-- A key as a field. -/
def keyItem (key : PublicKey) : Cbor.Item := .octets key.bytes

end SecureSession.Frame
