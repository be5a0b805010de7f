import SecureSession.Crypto.Hmac
import SecureSession.Key

/-! # Key chains

Each chain key yields one message key and one successor. The two come from the chain key under
different labels, so neither gives the other away. -/

namespace SecureSession

/-- A position in a chain of keys. -/
structure ChainKey where
  key : Key
  index : UInt32
deriving DecidableEq

/-- The key of one message, with its position in the chain. -/
structure MessageKey where
  key : Key
  index : UInt32
deriving DecidableEq

namespace ChainKey

/-- The start of a chain. -/
def start (key : Key) : ChainKey := ⟨key, 0⟩

/-- The key derived under a label. -/
def derive (c : ChainKey) (label : UInt8) : Key :=
  ⟨Hmac.code c.key.bytes [label], Hmac.length_code ..⟩

/-- The message key at this position. -/
def messageKey (c : ChainKey) : MessageKey := ⟨c.derive 1, c.index⟩

/-- The next position; the index starts over at zero after the last one. -/
def next (c : ChainKey) : ChainKey := ⟨c.derive 2, c.index + 1⟩

end ChainKey

end SecureSession
