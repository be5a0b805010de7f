import SecureSession.Session.Record

/-! # Sample sessions

Sessions with made-up keys that can be told apart at a glance, and the records that they leave. -/

namespace SecureSession

/-- The keys of a sample session. -/
structure SessionSample where
  /-- The byte that its root key and its own ratchet key repeat; the others follow. -/
  tag : UInt8
  version : UInt8
  sends : Bool
  receives : Bool
  localIdentity : PublicKey
  remoteIdentity : PublicKey
  unacknowledged : Option UnacknowledgedPreKey
deriving DecidableEq

/-- A chain at its start, of a key that repeats a byte. -/
def ChainKey.sample (b : UInt8) : ChainKey := .start (.replicate b)

/-- The session of a sample. -/
def SessionSample.state (s : SessionSample) : SessionState where
  version := s.version
  localIdentity := s.localIdentity
  remoteIdentity := s.remoteIdentity
  ratchet := {
    rootKey := .replicate s.tag
    localKey := ⟨.replicate s.tag⟩
    remoteKey := ⟨.replicate (s.tag + 1)⟩
    sendingChain := if s.sends then some (.sample s.tag) else none
    receivingChain := if s.receives then some (.sample (s.tag + 2)) else none }
  unacknowledged := s.unacknowledged

/-- The record after some sessions were made live in turn, the last one archived if so wished, and
an exchange was opened. -/
def SessionRecord.ofHistory (states : List SessionState) (archived : Bool)
    (pending : Option PendingExchange) : SessionRecord :=
  let r := states.foldl promote empty
  { (if archived then r.archive else r) with pending }

end SecureSession
