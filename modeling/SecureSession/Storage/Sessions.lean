import SecureSession.Storage.Storage

/-! # Operations on session records

Reading the session records of an account, and the plans for storing,
deleting and archiving them. -/

namespace SecureSession

/-- The state of the handshake with a device. -/
inductive HandshakeState
  /-- Nothing to send on and no exchange under way. -/
  | noSession
  /-- An exchange is under way. -/
  | pendingInitiate
  /-- A session can be sent on. -/
  | established
deriving DecidableEq

/-- A result of the storage as one of a session operation. -/
def SessionError.ofStorage {α : Type} (r : Except StorageError α) : Except SessionError α :=
  r.mapError .storage

namespace Vault

/-! ### Reading -/

/-- The record at an address, empty if there is none. -/
def load (v : Vault) (a : Address) : Except SessionError SessionRecord := do
  return (← SessionError.ofStorage (v.session? a)).getD .empty

/-- The records at some addresses, none of which may be missing. -/
def loadExisting (v : Vault) (l : List Address) : Except SessionError (List SessionRecord) := do
  let loaded ← SessionError.ofStorage (v.sessions? l)
  let missing := loaded.countP Option.isNone
  if 0 < missing then throw (.noSession l.length missing)
  return loaded.filterMap id

/-- Whether there is an active session at an address. -/
def containsSession (v : Vault) (a : Address) : Except SessionError Bool := do
  return (← SessionError.ofStorage (v.session? a)).any SessionRecord.isActive

/-- The devices of a peer with a record, the primary one apart. -/
def subDevices (v : Vault) (name : String) : List UInt32 :=
  (v.devices name).filter (· != Address.primaryDevice)

/-- The addresses of the devices of a peer with a record. -/
def addressesOf (v : Vault) (name : String) : List Address := (v.devices name).map (⟨name, ·⟩)

/-- The addresses of some peers at which there is an active session, ascending. -/
def activeAddresses (v : Vault) (names : List String) : Except SessionError (List Address) := do
  let active ← (names.flatMap v.addressesOf).filterMapM fun a => do
    return if ← v.containsSession a then some a else none
  return SortedMap.sortUnique active

/-- The state of the handshake with a device. -/
def handshakeState (v : Vault) (a : Address) : Except SessionError HandshakeState := do
  let r ← v.load a
  return if r.pending.isSome then .pendingInitiate
    else if r.isActive then .established else .noSession

/-- The identity filed under a name, if there is one. -/
def loadIdentity (v : Vault) (name : String) : Except SessionError (Option IdentityRecord) :=
  SessionError.ofStorage (v.identity? name)

/-! ### Storing and deleting -/

/-- Stores a record. -/
def store (a : Address) (r : SessionRecord) : Plan Unit := ⟨Batch.empty.put a r, ()⟩

/-- Deletes a record. -/
def delete (a : Address) : Plan Unit := ⟨Batch.empty.delete a, ()⟩

/-- Deletes every record of a peer and answers how many there were. -/
def deleteAll (v : Vault) (name : String) : Plan Nat :=
  ⟨(v.addressesOf name).foldl Batch.delete .empty, (v.devices name).length⟩

/-- Notes that the peer answered on the live session, and answers whether that was news. -/
def acknowledge (v : Vault) (a : Address) : Except SessionError (Plan Bool) := do
  let r ← v.load a
  if r.isUnacknowledged then return (store a r.acknowledge).map fun _ => true
  return .reply false

/-- Runs some steps on the ratchet of the live session at an address. Without
one, nothing is stored. -/
def runRatchet (v : Vault) (a : Address) (l : List RatchetState.Step) :
    Except SessionError (Plan (Option (List (Option MessageKey)))) := do
  match (← v.load a).runRatchet l with
  | none => return .reply none
  | some (keys, r) => return (store a r).map fun _ => some keys

/-! ### Archiving -/

/-- The record at an address as a batch would leave it. -/
def loadStaged (v : Vault) (b : Batch) (a : Address) : Except SessionError SessionRecord :=
  match b.staged? a with
  | some staged => .ok (staged.getD .empty)
  | none => v.load a

/-- Archives the live session at an address, if there is one, and counts it. -/
def stageArchive (v : Vault) (acc : Batch × Nat) (a : Address) :
    Except SessionError (Batch × Nat) := do
  let r ← v.loadStaged acc.1 a
  return if r.current.isSome then (acc.1.put a r.archive, acc.2 + 1) else acc

/-- The devices of a peer with a record, stored or staged, ascending. -/
def stagedDevices (v : Vault) (b : Batch) (name : String) : List UInt32 :=
  SortedMap.sortUnique (v.devices name ++ b.devices name)

/-- Archives the live sessions of every device of a peer, in the form they are staged in. -/
def stageArchiveAll (v : Vault) (b : Batch) (name : String) : Except SessionError (Batch × Nat) :=
  ((v.stagedDevices b name).map (⟨name, ·⟩)).foldlM v.stageArchive (b, 0)

/-- Archives the live sessions at some addresses and answers how many there were. -/
def archiveAt (v : Vault) (l : List Address) : Except SessionError (Plan Nat) := do
  let (writes, archived) ← l.foldlM v.stageArchive (.empty, 0)
  return ⟨writes, archived⟩

/-- Archives the live session at an address and answers whether there was one. -/
def archive (v : Vault) (a : Address) : Except SessionError (Plan Bool) := do
  return (← v.archiveAt [a]).map (0 < ·)

/-- Archives the live sessions of the other devices of a peer. -/
def archiveSiblings (v : Vault) (a : Address) : Except SessionError (Plan Nat) :=
  v.archiveAt ((v.addressesOf a.name).filter (· != a))

/-- Archives every live session. -/
def archiveAll (v : Vault) : Except SessionError (Plan Nat) := v.archiveAt v.addresses

end Vault

end SecureSession
