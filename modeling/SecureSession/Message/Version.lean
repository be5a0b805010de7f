import SecureSession.Address
import SecureSession.Cbor.Header

/-! # Versions and protocol errors

Every message starts with a byte that names the version it is written in and the oldest
its sender reads. Versions below the oldest supported are legacy, versions above the
current one are refused. -/

namespace SecureSession

/-- What is wrong with a message. -/
inductive Defect
  | empty
  | undecodable (error : Cbor.Error)
  | missing (field : String)
  | keyLength (field : String) (length : Nat)
  | unknownFlags (bits : UInt8)
  | noRole
  /-- The message carried inside is defective. -/
  | inner (defect : Defect)
  /-- The message carried inside has an unsupported version. -/
  | innerVersion (used : UInt8)
  /-- A bundle of one device was used for another. -/
  | misdirected (device : UInt32) (address : Address)
  | other (reason : String)
deriving DecidableEq

/-- The description of a defect. -/
def Defect.message : Defect → String
  | empty => "empty message"
  | undecodable error => s!"CBOR decode: {error.name}"
  | missing field => s!"incomplete message: missing {field}"
  | keyLength field length => s!"{field}: expected 32 bytes, got {length}"
  | unknownFlags bits => s!"unknown flags 0x{Bytes.hex [bits]}"
  | noRole => "neither initiate nor response"
  | inner defect => s!"inner message: {defect.message}"
  | innerVersion used => s!"inner message: unsupported version {used}"
  | misdirected device address => s!"bundle for device {device} sent to {address.display}"
  | other reason => reason

/-- Why a message is refused. -/
inductive ProtocolError
  | invalidVersion (used minimum maximum : UInt8)
  | invalidMessage (defect : Defect)
deriving DecidableEq

/-- The report of a refused message. -/
def ProtocolError.message : ProtocolError → String
  | invalidVersion used minimum maximum =>
    s!"unsupported version {used} (supported {minimum}..={maximum})"
  | invalidMessage defect => s!"invalid message: {defect.message}"

/-! ### The version byte -/

/-- What the first byte of a message says. -/
structure Version where
  /-- The version the message is written in. -/
  used : UInt8
  /-- The oldest version its sender reads. -/
  minimum : UInt8
deriving DecidableEq, Inhabited

namespace Version

/-- The version this library writes, and the newest it reads. -/
def newest : UInt8 := 3

/-- The oldest version this library reads. -/
def oldest : UInt8 := 2

/-- The version of the messages this library writes. -/
def current : Version := ⟨newest, oldest⟩

/-- The version used in the high half, the minimum in the low half; higher bits are lost. -/
def toByte (v : Version) : UInt8 := (v.used <<< 4) ||| (v.minimum &&& 0x0f)

/-- The two halves of a byte. -/
def ofByte (b : UInt8) : Version := ⟨b >>> 4, b &&& 0x0f⟩

/-- Whether the version is older than any this library reads. -/
def isLegacy (v : Version) : Bool := v.used < oldest

/-- The refusal of a version. -/
def unsupported (used : UInt8) : ProtocolError := .invalidVersion used oldest newest

/-- The version of a message, if it is not newer than the current one. -/
def peek : Bytes → Except ProtocolError Version
  | [] => .error (.invalidMessage .empty)
  | b :: _ =>
    if newest < (ofByte b).used then .error (unsupported (ofByte b).used) else .ok (ofByte b)

/-- What follows the version byte of a message in a supported version. -/
def supportedBody (bytes : Bytes) : Except ProtocolError Bytes := do
  let v ← peek bytes
  if v.isLegacy then throw (unsupported v.used)
  return bytes.drop 1

end Version

end SecureSession
