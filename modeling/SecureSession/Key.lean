import SecureSession.Bytes
import SecureSession.Crypto.X25519

/-! # Keys and key agreement

Every key is thirty-two bytes. A key pair is agreed with a public key through a Diffie–Hellman
function, which is a parameter: what is built on it needs only the laws of the function, not the
curve behind it. -/

namespace SecureSession

/-- Thirty-two bytes. -/
structure Key where
  bytes : Bytes
  length_bytes : bytes.length = 32
deriving DecidableEq

/-- A key that may be shown to anyone. -/
structure PublicKey where
  key : Key
deriving DecidableEq

/-- A key that is never shown. -/
structure SecretKey where
  key : Key
deriving DecidableEq

/-- A secret and the public key that goes with it. -/
structure KeyPair where
  publicKey : PublicKey
  secretKey : SecretKey
deriving DecidableEq

/-! ### Bytes -/

namespace Key

/-- The key with the given bytes, if they are thirty-two. -/
def ofBytes? (bytes : Bytes) : Option Key :=
  if h : bytes.length = 32 then some ⟨bytes, h⟩ else none

/-- One byte thirty-two times. -/
def replicate (b : UInt8) : Key := ⟨List.replicate 32 b, by simp⟩

instance : Inhabited Key := ⟨replicate 0⟩

@[simp] theorem ofBytes?_bytes (k : Key) : ofBytes? k.bytes = some k := by
  simp [ofBytes?, k.length_bytes]

/-- The order of the bytes, first byte first. -/
def lt (a b : Key) : Bool := decide (a.bytes < b.bytes)

end Key

namespace PublicKey

/-- The bytes of the key. -/
def bytes (k : PublicKey) : Bytes := k.key.bytes

/-- The public key with the given bytes, if they are thirty-two. -/
def ofBytes? (bytes : Bytes) : Option PublicKey := (Key.ofBytes? bytes).map mk

instance : Inhabited PublicKey := ⟨⟨default⟩⟩

/-- How two keys are ordered by their bytes. -/
def compare (a b : PublicKey) : Ordering :=
  if a.key.lt b.key then .lt else if a = b then .eq else .gt

end PublicKey

instance : Inhabited SecretKey := ⟨⟨default⟩⟩

instance : Inhabited KeyPair := ⟨⟨default, default⟩⟩

/-! ### Agreement -/

/-- Why key material could not be derived. -/
inductive CryptoError
  /-- The public key forces the shared secret to a known value. -/
  | nonContributory
  /-- The derivation itself failed. -/
  | keyDerivation (reason : String)
deriving DecidableEq

/-- What is reported of a failed derivation. -/
def CryptoError.message : CryptoError → String
  | nonContributory => "key agreement produced a non-contributory shared secret"
  | keyDerivation reason => s!"key derivation failed: {reason}"

/-- A Diffie–Hellman function: the public key of a secret, and the secret that its holder shares
with the holder of a public key. -/
structure DiffieHellman where
  publicKey : SecretKey → PublicKey
  sharedSecret : SecretKey → PublicKey → Key

/-- Diffie–Hellman on Curve25519. -/
def DiffieHellman.x25519 : DiffieHellman where
  publicKey s := ⟨X25519.publicKey s.key.bytes, X25519.length_multiply ..⟩
  sharedSecret s k := ⟨X25519.sharedSecret s.key.bytes k.bytes, X25519.length_multiply ..⟩

namespace KeyPair

variable (dh : DiffieHellman)

/-- The key pair of a secret. -/
def ofSecret (s : SecretKey) : KeyPair := ⟨dh.publicKey s, s⟩

/-- The secret shared with the holder of a public key; a shared secret of zeros is refused. -/
def agree (pair : KeyPair) (their : PublicKey) : Except CryptoError Key :=
  let shared := dh.sharedSecret pair.secretKey their
  if shared = .replicate 0 then .error .nonContributory else .ok shared

end KeyPair

end SecureSession
