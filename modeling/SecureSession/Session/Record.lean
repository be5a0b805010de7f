import SecureSession.Session.State

/-! # Session records

What is stored for one peer device: the live session, if there is one, an archive of earlier ones,
newest first and bounded in length, and the exchange under way, if there is one. The archive lets
late messages still be read. -/

namespace SecureSession

/-- Everything about one peer device. -/
structure SessionRecord where
  /-- The live session. -/
  current : Option SessionState
  /-- The archive, newest first. -/
  previous : List SessionState
  /-- The exchange under way. -/
  pending : Option PendingExchange
deriving DecidableEq

namespace SessionRecord

/-- The most sessions an archive holds. -/
def archiveLimit : Nat := 40

/-- The record without content. -/
def empty : SessionRecord := ⟨none, [], none⟩

instance : Inhabited SessionRecord := ⟨empty⟩

/-- Whether there is nothing in the record. -/
def isFresh (r : SessionRecord) : Bool := r.current.isNone && r.previous.isEmpty && r.pending.isNone

/-- Whether the live session can send. -/
def canSend (r : SessionRecord) : Bool := r.current.any SessionState.canSend

/-- The version of the live session, zero without one. -/
def version (r : SessionRecord) : UInt8 := r.current.elim 0 SessionState.version

/-- Whether the live session can send and has the current version. -/
def isActive (r : SessionRecord) : Bool := r.canSend && r.version == Version.newest

/-! ### Live session and archive -/

/-- Moves the live session to the front of the archive; the oldest beyond the limit is dropped. -/
def archive (r : SessionRecord) : SessionRecord :=
  match r.current with
  | none => r
  | some s => { r with current := none, previous := (s :: r.previous).take archiveLimit }

/-- Makes `s` the live session and archives the one before it. -/
def promote (r : SessionRecord) (s : SessionState) : SessionRecord :=
  { r.archive with current := some s }

/-- Drops archived sessions in versions no longer read. -/
def purgeLegacy (r : SessionRecord) : SessionRecord :=
  { r with previous := r.previous.filter fun s => !s.isLegacy }

/-- How many archived sessions `purgeLegacy` drops. -/
def legacyCount (r : SessionRecord) : Nat := r.previous.length - r.purgeLegacy.previous.length

/-- Applies `f` to the live session. -/
def modifyCurrent (r : SessionRecord) (f : SessionState → SessionState) : SessionRecord :=
  { r with current := r.current.map f }

/-- Runs some steps on the ratchet of the live session, if there is one. -/
def runRatchet (r : SessionRecord) (l : List RatchetState.Step) :
    Option (List (Option MessageKey) × SessionRecord) :=
  r.current.map fun s =>
    ((s.ratchet.run l).1, { r with current := some { s with ratchet := (s.ratchet.run l).2 } })

/-- Whether the peer has still to answer on the live session. -/
def isUnacknowledged (r : SessionRecord) : Bool := (r.current.bind (·.unacknowledged)).isSome

/-- Notes that the peer answered on the live session. -/
def acknowledge (r : SessionRecord) : SessionRecord :=
  r.modifyCurrent fun s => { s with unacknowledged := none }

/-! ### The exchange under way -/

/-- Starts an exchange, in place of any other. -/
def setPending (r : SessionRecord) (p : PendingExchange) : SessionRecord :=
  { r with pending := some p }

/-- Ends the exchange under way. -/
def clearPending (r : SessionRecord) : SessionRecord := { r with pending := none }

end SessionRecord

end SecureSession
