import SecureSession.Session.Codec

/-! # Identity records

The identity key on file for a peer, and how far the user has confirmed it. -/

namespace SecureSession

/-! ### Verification -/

/-- How far a key is confirmed. -/
inductive Verification
  /-- Trusted on first use. -/
  | default
  /-- Compared by the user. -/
  | verified
  /-- Changed after the user had compared another key. -/
  | unverified
deriving DecidableEq, Inhabited

namespace Verification

/-- What becomes of a confirmation when the key changes: a peer once verified stays flagged. -/
def afterKeyChange : Verification → Verification
  | default => default
  | verified | unverified => unverified

/-- The number a confirmation is stored as. -/
def toByte : Verification → UInt8
  | default => 0
  | verified => 1
  | unverified => 2

/-- The confirmation stored as a number. -/
def ofByte? (b : UInt8) : Option Verification :=
  if b = 0 then some default else if b = 1 then some verified
    else if b = 2 then some unverified else none

@[simp] theorem ofByte?_toByte (v : Verification) : ofByte? v.toByte = some v := by cases v <;> rfl

end Verification

/-! ### Records -/

/-- What is on file for a peer. -/
structure IdentityRecord where
  identityKey : PublicKey
  verification : Verification
  /-- Whether no other key came before. -/
  firstUse : Bool
  /-- When the peer was first met, in milliseconds. -/
  createdAt : UInt64
  /-- When the key or its confirmation last changed, in milliseconds. -/
  updatedAt : UInt64
deriving DecidableEq

namespace IdentityRecord

open Cbor (Decoder Fields Item)

/-- A record as stored. -/
def toItem (r : IdentityRecord) : Item := .fields [
  ("identity_key", r.identityKey.toItem), ("status", .unsigned r.verification.toByte.toNat),
  ("first_use", .bool r.firstUse), ("created_at_ms", .unsigned r.createdAt.toNat),
  ("updated_at_ms", .unsigned r.updatedAt.toNat)]

/-- Reads a record. -/
def decoder : Decoder IdentityRecord :=
  (Fields.required "identity_key" Decoder.publicKey <|
    .required "status" (Decoder.uint8.filterMap Verification.ofByte?) <|
    .required "first_use" Decoder.bool <|
    .required "created_at_ms" Decoder.uint64 <|
    .required "updated_at_ms" Decoder.uint64 .nil).decoder.map
    fun (identityKey, verification, firstUse, createdAt, updatedAt, _) =>
      { identityKey, verification, firstUse, createdAt, updatedAt }

/-- The bytes stored for a record. -/
def encode (r : IdentityRecord) : Bytes := r.toItem.encode

/-- The record in some bytes. -/
def read (bytes : Bytes) : Except Cbor.Error IdentityRecord := decoder.run bytes

/-- The record in some stored bytes. -/
def decode (bytes : Bytes) : Except StorageError IdentityRecord :=
  (read bytes).mapError fun e => .corrupted (.undecodable e)

end IdentityRecord

end SecureSession
