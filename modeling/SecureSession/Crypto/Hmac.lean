import SecureSession.Crypto.Sha256

/-! # Message authentication and key derivation

HMAC over SHA-256, and the two steps of HKDF built on it: extraction of a pseudorandom key from
input material and expansion of that key to any length. -/

namespace SecureSession

/-! ### HMAC -/

namespace Hmac

/-- The key filled up with zeros to a block of the hash; a longer key is hashed first. -/
def blockKey (key : Bytes) : Bytes :=
  let key := if 64 < key.length then Sha256.hash key else key
  key ++ List.replicate (64 - key.length) 0

/-- The authentication code of a message, thirty-two bytes. -/
def code (key message : Bytes) : Bytes :=
  let key := blockKey key
  Sha256.hash (key.map (· ^^^ 0x5c) ++ Sha256.hash (key.map (· ^^^ 0x36) ++ message))

@[simp] theorem length_code (key message : Bytes) : (code key message).length = 32 := by
  simp [code]

end Hmac

/-! ### HKDF -/

namespace Hkdf

/-- The pseudorandom key in some input material. -/
def extract (salt material : Bytes) : Bytes := Hmac.code salt material

/-- The blocks `i + 1, …, i + n` of the expansion, `last` being block `i`. -/
def blocks (key info : Bytes) : (n i : Nat) → (last : Bytes) → Bytes
  | 0, _, _ => []
  | n + 1, i, last =>
    let block := Hmac.code key (last ++ info ++ [UInt8.ofNat (i + 1)])
    block ++ blocks key info n (i + 1) block

/-- Thirty-two bytes per block, `n` blocks in a row. -/
def expand (key info : Bytes) (n : Nat) : Bytes := blocks key info n 0 []

@[simp] theorem length_blocks (key info : Bytes) :
    ∀ n i last, (blocks key info n i last).length = 32 * n
  | 0, _, _ => rfl
  | n + 1, i, last => by simp [blocks, length_blocks key info n]; omega

@[simp] theorem length_expand (key info : Bytes) (n : Nat) : (expand key info n).length = 32 * n :=
  length_blocks key info n 0 []

end Hkdf

end SecureSession
