import SecureSession.Error
import SecureSession.SortedMap

/-! # Prekeys

The prekeys a device has published and still holds. Any one operation on them can be made to fail,
as that of a store on a disk might. -/

namespace SecureSession

/-- What is wrong with a store of prekeys. -/
inductive PreKeyFault
  /-- Asking whether a prekey is held fails. -/
  | contains
  /-- Loading fails. -/
  | load
  /-- Removing fails. -/
  | remove
  /-- Every prekey seems to be held. -/
  | phantom
deriving DecidableEq

/-- The published prekeys that are held, by number. -/
structure PreKeys where
  held : SortedMap UInt32 KeyPair
  fault : Option PreKeyFault
deriving DecidableEq

namespace PreKeys

/-- No prekeys, no fault. -/
def empty : PreKeys := ⟨.empty, none⟩

instance : Inhabited PreKeys := ⟨empty⟩

/-- How many prekeys are held. -/
def size (p : PreKeys) : Nat := p.held.size

/-- Whether no prekey is held. -/
def isEmpty (p : PreKeys) : Bool := p.held.isEmpty

/-- Holds a key pair under a number, in place of any other. -/
def insert (p : PreKeys) (id : UInt32) (pair : KeyPair) : PreKeys :=
  { p with held := p.held.insert id pair }

/-- The failure of an operation. -/
def outage (operation : String) : StorageError := .unavailable (.fault operation)

/-- Whether a prekey is held. -/
def contains (p : PreKeys) (id : UInt32) : Except StorageError Bool :=
  match p.fault with
  | some .contains => .error (outage "contains")
  | some .phantom => .ok true
  | _ => .ok (p.held.contains id)

/-- The key pair held under a number. -/
def load (p : PreKeys) (id : UInt32) : Except StorageError KeyPair :=
  if p.fault = some .load then .error (outage "load")
  else
    match p.held.get? id with
    | some pair => .ok pair
    | none => .error (.missingPreKey id)

/-- The prekeys without one; it need not be held. -/
def remove (p : PreKeys) (id : UInt32) : Except StorageError PreKeys :=
  if p.fault = some .remove then .error (outage "remove")
  else .ok { p with held := p.held.erase id }

/-- The prekeys without one, or as they are if it cannot be removed. -/
def discard (p : PreKeys) (id : UInt32) : PreKeys :=
  match p.remove id with
  | .ok p => p
  | .error _ => p

end PreKeys

end SecureSession
