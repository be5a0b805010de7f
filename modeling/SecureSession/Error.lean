import SecureSession.Address
import SecureSession.Key
import SecureSession.Message.Version

/-! # Errors of storage and of sessions

An error names its cause; `message` words the report. An error is retryable if the same operation
may succeed later without a change on either side. -/

namespace SecureSession

/-! ### Storage -/

/-- Why the storage did not answer. -/
inductive Outage
  /-- A failure was injected, and a batch of that many writes was dropped. -/
  | injected (writes : Nat)
  /-- A failure was injected into an operation of that name. -/
  | fault (operation : String)
  | other (reason : String)
deriving DecidableEq

/-- The description of an outage. -/
def Outage.message : Outage → String
  | injected writes => s!"injected failure ({writes} writes dropped)"
  | fault operation => s!"{operation} fault"
  | other reason => reason

/-- What is wrong with a stored record. -/
inductive Corruption
  | emptyRecord
  | unknownFormat (format : UInt8)
  | undecodable (error : Cbor.Error)
  | archiveTooLong (length : Nat)
  | other (reason : String)
deriving DecidableEq

/-- The description of a corruption. -/
def Corruption.message : Corruption → String
  | emptyRecord => "empty record"
  | unknownFormat format => s!"unknown record format {format}"
  | undecodable error => s!"CBOR decode: {error.name}"
  | archiveTooLong length => s!"{length} archived states"
  | other reason => reason

/-- An error of the storage. -/
inductive StorageError
  /-- The operation was not carried out; nothing was written. -/
  | unavailable (outage : Outage)
  /-- A stored record cannot be read. -/
  | corrupted (corruption : Corruption)
  /-- A prekey is not held. -/
  | missingPreKey (prekeyId : UInt32)
deriving DecidableEq

namespace StorageError

/-- The report of the error. -/
def message : StorageError → String
  | unavailable outage => s!"storage unavailable: {outage.message}"
  | corrupted corruption => s!"corrupted record: {corruption.message}"
  | missingPreKey prekeyId => s!"prekey {prekeyId} not found"

/-- Whether the same operation may succeed later. -/
def isTransient : StorageError → Bool
  | unavailable _ => true
  | _ => false

end StorageError

/-! ### Sessions -/

/-- An error of a session operation. -/
inductive SessionError
  | protocol (error : ProtocolError)
  /-- A first message names a prekey that is not held. -/
  | invalidKeyId (prekeyId : UInt32)
  /-- Of some addresses that should all have a record, some have none. -/
  | noSession (requested missing : Nat)
  /-- The trust policy refuses an identity key. -/
  | trustRejected (address : Address)
  | crypto (error : CryptoError)
  | storage (error : StorageError)
deriving DecidableEq

namespace SessionError

/-- The report of the error. -/
def message : SessionError → String
  | protocol error => s!"protocol error: {error.message}"
  | invalidKeyId prekeyId => s!"no such prekey: {prekeyId}"
  | noSession requested missing =>
    s!"no session: {missing} of {requested} addresses have no record"
  | trustRejected address => s!"untrusted identity key for {address.display}"
  | crypto error => s!"crypto error: {error.message}"
  | storage error => s!"storage error: {error.message}"

/-- Whether the same operation may succeed later. A missing session can be built. -/
def isRetryable : SessionError → Bool
  | noSession .. => true
  | storage error => error.isTransient
  | _ => false

end SessionError

end SecureSession
