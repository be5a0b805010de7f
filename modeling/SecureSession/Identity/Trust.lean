import SecureSession.Action
import SecureSession.Storage.Sessions

/-! # Trust in identities

A peer's first identity key is trusted. Another key later on is refused or accepted as the policy
says; where it is accepted, every session with every device of the peer is archived by the same
batch that replaces the key. Changes are announced. -/

namespace SecureSession

/-- What to do about a key that is not the one on file. -/
inductive TrustPolicy
  | rejectChanged
  | acceptChanged
deriving DecidableEq, Inhabited

/-- The policy of an account, and the groups that a peer is in. -/
structure Trust where
  policy : TrustPolicy
  groups : String → List String

namespace Trust

/-- The notices of a change, to be inserted. -/
def announce (t : Trust) (peer : String) (origin : NoticeOrigin) (change : IdentityChange) :
    List SessionAction :=
  (IdentityNotice.announce peer (t.groups peer) origin change).map .notify

/-- Whether a key may be used for a session with an address. -/
def validate (t : Trust) (v : Vault) (a : Address) (key : PublicKey) :
    Except SessionError Bool := do
  match ← v.loadIdentity a.name with
  | none => return true
  | some r => return r.identityKey = key ∨ t.policy = .acceptChanged

/-- Refuses a key that may not be used for a session with an address. -/
def require (t : Trust) (v : Vault) (a : Address) (key : PublicKey) : Except SessionError Unit := do
  if !(← t.validate v a key) then throw (.trustRejected a)

/-! ### Keys -/

/-- The record of a peer met for the first time. -/
def firstRecord (now : UInt64) (key : PublicKey) : IdentityRecord :=
  ⟨key, .default, true, now, now⟩

/-- The record after the key has changed. -/
def changedRecord (now : UInt64) (key : PublicKey) (r : IdentityRecord) : IdentityRecord :=
  { r with
    identityKey := key
    verification := r.verification.afterKeyChange
    firstUse := false
    updatedAt := now }

/-- Files the key of the peer at an address on top of other writes. Sessions that those writes store
are archived as they store them. -/
def stageSave (t : Trust) (v : Vault) (now : UInt64) (a : Address) (key : PublicKey) (b : Batch) :
    Except SessionError (Batch × IdentityUpdate) := do
  match ← v.loadIdentity a.name with
  | none => return (b.putIdentity a.name (firstRecord now key), .unchanged)
  | some r =>
    if r.identityKey = key then return (b, .unchanged)
    let (b, _) ← v.stageArchiveAll b a.name
    return (b.putIdentity a.name (changedRecord now key r),
      ⟨true, t.announce a.name .elsewhere .keyChanged⟩)

/-- Files the key of the peer at an address. -/
def save (t : Trust) (now : UInt64) (a : Address) (key : PublicKey) (v : Vault) :
    Except SessionError (Plan IdentityUpdate) := do
  let (writes, update) ← t.stageSave v now a key .empty
  return ⟨writes, update⟩

/-! ### Confirmations -/

/-- The change that a new confirmation is announced as. -/
def changeTo : Verification → IdentityChange
  | .verified => .markedVerified
  | .default | .unverified => .markedUnverified

/-- Gives the record of a peer another confirmation. -/
def setVerification (t : Trust) (now : UInt64) (name : String) (r : IdentityRecord)
    (verification : Verification) (origin : NoticeOrigin) : Plan IdentityUpdate :=
  if r.verification = verification then .reply .unchanged
  else ⟨Batch.empty.putIdentity name { r with verification, updatedAt := now },
    ⟨true, t.announce name origin (changeTo verification)⟩⟩

/-- Marks a peer as confirmed, or as trusted on first use, or as in need of confirmation. -/
def mark (t : Trust) (now : UInt64) (name : String) (verification : Verification)
    (origin : NoticeOrigin) (v : Vault) : Except SessionError (Plan IdentityUpdate) := do
  match ← v.loadIdentity name with
  | none => return .reply .unchanged
  | some r => return t.setVerification now name r verification origin

/-- Applies the confirmation that another device of the user's claims for a key, if
that is the key on file. -/
def reconcile (t : Trust) (now : UInt64) (name : String) (key : PublicKey)
    (verification : Verification) (v : Vault) : Except SessionError (Plan IdentityUpdate) := do
  match ← v.loadIdentity name with
  | none => return .reply .unchanged
  | some r =>
    if r.identityKey = key then return t.setVerification now name r verification .elsewhere
    return .reply .unchanged

end Trust

end SecureSession
