import SecureSession.Storage.Batch

/-! # Vaults

What one account has stored: session records by address and identities by peer name, both in encoded
form, so that what cannot be read shows when it is loaded. -/

namespace SecureSession

/-- The stored content of an account. -/
structure Vault where
  sessions : SortedMap Address Bytes
  identities : SortedMap String Bytes
deriving DecidableEq

namespace Vault

/-- Nothing stored. -/
def empty : Vault := ⟨.empty, .empty⟩

instance : Inhabited Vault := ⟨empty⟩

/-! ### Reading -/

/-- Reads what is there, if anything is. -/
def read? {α : Type} (decode : Bytes → Except StorageError α) :
    Option Bytes → Except StorageError (Option α)
  | none => .ok none
  | some bytes => (decode bytes).map some

/-- The session record at an address, if there is one. -/
def session? (v : Vault) (a : Address) : Except StorageError (Option SessionRecord) :=
  read? SessionRecord.decode (v.sessions.get? a)

/-- The session records at some addresses, in order. -/
def sessions? (v : Vault) (l : List Address) : Except StorageError (List (Option SessionRecord)) :=
  l.mapM v.session?

/-- The identity filed under a name, if there is one. -/
def identity? (v : Vault) (name : String) : Except StorageError (Option IdentityRecord) :=
  read? IdentityRecord.decode (v.identities.get? name)

/-- Every address with a session record, ascending. -/
def addresses (v : Vault) : List Address := v.sessions.keys

/-- The devices of a peer with a session record, ascending. -/
def devices (v : Vault) (name : String) : List UInt32 :=
  (v.addresses.filter fun a => a.name == name).map Address.device

/-- How many session records there are. -/
def sessionCount (v : Vault) : Nat := v.sessions.size

/-! ### Writing -/

/-- One write to the sessions. -/
def writeSession (m : SortedMap Address Bytes) (e : Address × Option SessionRecord) :
    SortedMap Address Bytes :=
  match e.2 with
  | some r => m.insert e.1 r.encode
  | none => m.erase e.1

/-- The content after all writes of a batch. -/
def apply (v : Vault) (b : Batch) : Vault where
  sessions := b.sessions.entries.foldl writeSession v.sessions
  identities := b.identities.entries.foldl (fun m e => m.insert e.1 e.2.encode) v.identities

/-- The content with some bytes in place of a session record, readable or not. -/
def putRaw (v : Vault) (a : Address) (bytes : Bytes) : Vault :=
  { v with sessions := v.sessions.insert a bytes }

end Vault

end SecureSession
