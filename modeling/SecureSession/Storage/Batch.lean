import SecureSession.Identity.Record
import SecureSession.SortedMap

/-! # Batches of writes

The writes an operation wants, to be applied together or not at all. A later write to a key takes
the place of an earlier one. -/

namespace SecureSession

/-- Writes to sessions and identities. -/
structure Batch where
  /-- The record to store at an address, or none to delete what is there. -/
  sessions : SortedMap Address (Option SessionRecord)
  /-- The record to file under a name. -/
  identities : SortedMap String IdentityRecord
deriving DecidableEq

namespace Batch

/-- No writes. -/
def empty : Batch := ⟨.empty, .empty⟩

/-- How many writes there are. -/
def size (b : Batch) : Nat := b.sessions.size + b.identities.size

/-- Whether there are no writes. -/
def isEmpty (b : Batch) : Bool := b.sessions.isEmpty && b.identities.isEmpty

/-- Stores a session record. -/
def put (b : Batch) (a : Address) (r : SessionRecord) : Batch :=
  { b with sessions := b.sessions.insert a (some r) }

/-- Deletes a session record. -/
def delete (b : Batch) (a : Address) : Batch := { b with sessions := b.sessions.insert a none }

/-- Files an identity. -/
def putIdentity (b : Batch) (name : String) (r : IdentityRecord) : Batch :=
  { b with identities := b.identities.insert name r }

/-- The write for an address: none, or a deletion, or the record to store. -/
def staged? (b : Batch) (a : Address) : Option (Option SessionRecord) := b.sessions.get? a

/-- The record to store at an address, if one is to be stored. -/
def stagedRecord? (b : Batch) (a : Address) : Option SessionRecord := (b.staged? a).join

/-- The batch without a write for an address. -/
def withdraw (b : Batch) (a : Address) : Batch := { b with sessions := b.sessions.erase a }

/-- The devices of a peer for which a record is to be stored, ascending. -/
def devices (b : Batch) (name : String) : List UInt32 :=
  (b.sessions.entries.filter fun e => e.1.name == name && e.2.isSome).map fun e => e.1.device

end Batch

end SecureSession
