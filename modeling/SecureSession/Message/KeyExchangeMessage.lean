import SecureSession.Message.Frame

/-! # Key-exchange messages

The two legs of the handshake between peers that are both online. Flags tell the legs apart and mark
a response whose sender had an initiate of its own on the way. -/

namespace SecureSession

/-! ### Flags -/

/-- The role of a key-exchange message, as a set of bits. -/
structure ExchangeFlags where
  bits : UInt8
deriving DecidableEq

namespace ExchangeFlags

/-- Opens an exchange. -/
def initiate : ExchangeFlags := ⟨1⟩

/-- Answers an initiate. -/
def response : ExchangeFlags := ⟨2⟩

/-- The responder had an initiate of its own on the way and used its keys again. -/
def simultaneous : ExchangeFlags := ⟨4⟩

/-- All bits of two sets. -/
def union (f g : ExchangeFlags) : ExchangeFlags := ⟨f.bits ||| g.bits⟩

/-- Whether all bits of `g` are set. -/
def contains (f g : ExchangeFlags) : Bool := f.bits &&& g.bits = g.bits

/-- Whether some bit of `g` is set. -/
def meets (f g : ExchangeFlags) : Bool := f.bits &&& g.bits ≠ 0

/-- Every bit that has a meaning. -/
def all : ExchangeFlags := (initiate.union response).union simultaneous

/-- The flags with the given bits: none without a meaning, and at least one role. -/
def ofBits (bits : UInt8) : Except Defect ExchangeFlags :=
  if !all.contains ⟨bits⟩ then .error (.unknownFlags bits)
  else if meets ⟨bits⟩ (initiate.union response) then .ok ⟨bits⟩
  else .error .noRole

end ExchangeFlags

/-! ### Messages -/

/-- One leg of a key exchange. -/
structure KeyExchangeMessage where
  /-- The number of the exchange; a response repeats that of the initiate. -/
  sequence : UInt32
  flags : ExchangeFlags
  baseKey : PublicKey
  ephemeralKey : PublicKey
  identityKey : PublicKey
deriving DecidableEq

namespace KeyExchangeMessage

/-- Whether the message opens an exchange. -/
def isInitiate (m : KeyExchangeMessage) : Bool := m.flags.contains .initiate

/-- Whether the message answers an initiate. -/
def isResponse (m : KeyExchangeMessage) : Bool := m.flags.contains .response

/-- Whether the message answers an initiate that crossed one of its sender's. -/
def isSimultaneousResponse (m : KeyExchangeMessage) : Bool :=
  m.flags.contains (ExchangeFlags.union .response .simultaneous)

/-- The fields as they are read. -/
def fields : Cbor.Fields
    (Option UInt32 × Option UInt8 × Option Bytes × Option Bytes × Option Bytes × Unit) :=
  .optional "sequence" Cbor.Decoder.uint32 <|
  .optional "flags" Cbor.Decoder.uint8 <|
  .optional "base_key" Cbor.Decoder.octets <|
  .optional "ephemeral_key" Cbor.Decoder.octets <|
  .optional "identity_key" Cbor.Decoder.octets .nil

/-- The structure of a message. -/
def toItem (m : KeyExchangeMessage) : Cbor.Item := .fields [
  ("sequence", .unsigned m.sequence.toNat),
  ("flags", .unsigned m.flags.bits.toNat),
  ("base_key", Frame.keyItem m.baseKey),
  ("ephemeral_key", Frame.keyItem m.ephemeralKey),
  ("identity_key", Frame.keyItem m.identityKey)]

/-- The bytes of a message. -/
def encode (m : KeyExchangeMessage) : Bytes := Frame.encode m.toItem

/-- The message in some bytes. The flags are looked at before the other fields. -/
def decode (bytes : Bytes) : Except ProtocolError KeyExchangeMessage := do
  let (sequence, flags, baseKey, ephemeralKey, identityKey, _) ← Frame.decode fields bytes
  let flags ← (ExchangeFlags.ofBits (← Frame.required "flags" flags)).mapError .invalidMessage
  return {
    sequence := ← Frame.required "sequence" sequence
    flags
    baseKey := ← Frame.requiredKey "base_key" baseKey
    ephemeralKey := ← Frame.requiredKey "ephemeral_key" ephemeralKey
    identityKey := ← Frame.requiredKey "identity_key" identityKey }

end KeyExchangeMessage

end SecureSession
