import SecureSession.Cbor.Fields
import SecureSession.Cbor.Item
import SecureSession.Error
import SecureSession.Session.Record

/-! # Stored session records

A stored record is a format byte and a structure. The keys of a pair are stored side by side and are
not checked against each other. -/

namespace SecureSession

open Cbor (Decoder Fields Item)

/-! ### Key pairs and chains -/

/-- A public key as stored. -/
def PublicKey.toItem (k : PublicKey) : Item := .octets k.bytes

/-- A key pair as stored. -/
def KeyPair.toItem (k : KeyPair) : Item := .fields [
  ("public", k.publicKey.toItem), ("secret", .octets k.secretKey.key.bytes)]

/-- Reads a key pair. -/
def KeyPair.decoder : Decoder KeyPair :=
  (Fields.required "public" Decoder.publicKey <|
    .required "secret" Decoder.secretKey .nil).decoder.map
    fun (publicKey, secretKey, _) => { publicKey, secretKey }

/-- A chain key as stored. -/
def ChainKey.toItem (c : ChainKey) : Item := .fields [
  ("key", .octets c.key.bytes), ("index", .unsigned c.index.toNat)]

/-- Reads a chain key. -/
def ChainKey.decoder : Decoder ChainKey :=
  (Fields.required "key" Decoder.key <| .required "index" Decoder.uint32 .nil).decoder.map
    fun (key, index, _) => { key, index }

/-- A ratchet as stored. -/
def RatchetState.toItem (r : RatchetState) : Item := .fields [
  ("root_key", .octets r.rootKey.bytes), ("local_ratchet_key", r.localKey.toItem),
  ("remote_ratchet_key", r.remoteKey.toItem),
  ("sender_chain", .optional ChainKey.toItem r.sendingChain),
  ("receiver_chain", .optional ChainKey.toItem r.receivingChain)]

/-- Reads a ratchet. -/
def RatchetState.decoder : Decoder RatchetState :=
  (Fields.required "root_key" Decoder.key <|
    .required "local_ratchet_key" Decoder.publicKey <|
    .required "remote_ratchet_key" Decoder.publicKey <|
    .optional "sender_chain" ChainKey.decoder <|
    .optional "receiver_chain" ChainKey.decoder .nil).decoder.map
    fun (rootKey, localKey, remoteKey, sendingChain, receivingChain, _) =>
      { rootKey, localKey, remoteKey, sendingChain, receivingChain }

/-! ### Sessions and exchanges -/

/-- An unacknowledged prekey as stored. -/
def UnacknowledgedPreKey.toItem (u : UnacknowledgedPreKey) : Item := .fields [
  ("prekey_id", .unsigned u.prekeyId.toNat), ("base_key", u.baseKey.toItem)]

/-- Reads an unacknowledged prekey. -/
def UnacknowledgedPreKey.decoder : Decoder UnacknowledgedPreKey :=
  (Fields.required "prekey_id" Decoder.uint32 <|
    .required "base_key" Decoder.publicKey .nil).decoder.map
    fun (prekeyId, baseKey, _) => { prekeyId, baseKey }

/-- A session as stored. -/
def SessionState.toItem (s : SessionState) : Item := .fields [
  ("version", .unsigned s.version.toNat), ("local_identity", s.localIdentity.toItem),
  ("remote_identity", s.remoteIdentity.toItem), ("ratchet", s.ratchet.toItem),
  ("unacknowledged_prekey", .optional UnacknowledgedPreKey.toItem s.unacknowledged)]

/-- Reads a session. -/
def SessionState.decoder : Decoder SessionState :=
  (Fields.required "version" Decoder.uint8 <|
    .required "local_identity" Decoder.publicKey <|
    .required "remote_identity" Decoder.publicKey <|
    .required "ratchet" RatchetState.decoder <|
    .optional "unacknowledged_prekey" UnacknowledgedPreKey.decoder .nil).decoder.map
    fun (version, localIdentity, remoteIdentity, ratchet, unacknowledged, _) =>
      { version, localIdentity, remoteIdentity, ratchet, unacknowledged }

/-- An exchange as stored. -/
def PendingExchange.toItem (p : PendingExchange) : Item := .fields [
  ("sequence", .unsigned p.sequence.toNat), ("base", p.base.toItem),
  ("ephemeral", p.ephemeral.toItem), ("identity", p.identity.toItem)]

/-- Reads an exchange. -/
def PendingExchange.decoder : Decoder PendingExchange :=
  (Fields.required "sequence" Decoder.uint32 <|
    .required "base" KeyPair.decoder <|
    .required "ephemeral" KeyPair.decoder <|
    .required "identity" KeyPair.decoder .nil).decoder.map
    fun (sequence, base, ephemeral, identity, _) => { sequence, base, ephemeral, identity }

/-! ### Records -/

namespace SessionRecord

/-- The format byte of a stored record. -/
def format : UInt8 := 1

/-- A record as stored. -/
def toItem (r : SessionRecord) : Item := .fields [
  ("current", .optional SessionState.toItem r.current),
  ("previous", .array (r.previous.map SessionState.toItem)),
  ("pending", .optional PendingExchange.toItem r.pending)]

/-- Reads a record. -/
def decoder : Decoder SessionRecord :=
  (Fields.optional "current" SessionState.decoder <|
    .required "previous" SessionState.decoder.listOf <|
    .optional "pending" PendingExchange.decoder .nil).decoder.map
    fun (current, previous, pending, _) => { current, previous, pending }

/-- The bytes stored for a record. -/
def encode (r : SessionRecord) : Bytes := format :: r.toItem.encode

/-- The record in some stored bytes. -/
def decode : Bytes → Except StorageError SessionRecord
  | [] => .error (.corrupted .emptyRecord)
  | b :: body =>
    if b = format then
      match decoder.run body with
      | .error e => .error (.corrupted (.undecodable e))
      | .ok r =>
        if archiveLimit < r.previous.length then
          .error (.corrupted (.archiveTooLong r.previous.length))
        else .ok r
    else .error (.corrupted (.unknownFormat b))

end SessionRecord

end SecureSession
