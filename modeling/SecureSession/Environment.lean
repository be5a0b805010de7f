import SecureSession.Crypto.ChaCha20
import SecureSession.Error
import SecureSession.Ratchet

/-! # Environments

Where time and random bytes come from. Both are values: to draw is to get bytes and a new
environment, so an operation can be repeated from the same environment with the same result. -/

namespace SecureSession

/-! ### Random bytes -/

/-- A source of random bytes. -/
inductive RandomSource
  /-- A keystream. -/
  | stream (s : ChaCha20.Stream)
  /-- One byte over and over, the next one higher at every draw. -/
  | counter (next : UInt8)
deriving DecidableEq

namespace RandomSource

/-- Draws `n` bytes. -/
def bytes : RandomSource → (n : Nat) → Bytes × RandomSource
  | stream s, n => ((s.bytes n).1, stream (s.bytes n).2)
  | counter b, n => (List.replicate n b, counter (b + 1))

@[simp] theorem length_bytes (s : RandomSource) (n : Nat) : (s.bytes n).1.length = n := by
  cases s <;> simp [bytes]

end RandomSource

/-! ### Environments -/

/-- A clock and a source of random bytes. -/
structure Environment where
  source : RandomSource
  /-- The time in milliseconds. -/
  now : UInt64
deriving DecidableEq

namespace Environment

/-- The time at which a seeded environment starts. -/
def epoch : UInt64 := 1700000000000

/-- The environment of a seed. -/
def ofSeed (seed : UInt64) : Environment := ⟨.stream (.ofSeed seed), epoch⟩

instance : Inhabited Environment := ⟨ofSeed 0⟩

/-- Moves the clock. -/
def advance (e : Environment) (milliseconds : UInt64) : Environment :=
  { e with now := e.now + milliseconds }

/-- Draws `n` bytes. -/
def bytes (e : Environment) (n : Nat) : Bytes × Environment :=
  ((e.source.bytes n).1, { e with source := (e.source.bytes n).2 })

/-- Draws a number of thirty-two bits. -/
def uint32 (e : Environment) : UInt32 × Environment :=
  (UInt32.ofNat (Bytes.toNatBE (e.bytes 4).1), (e.bytes 4).2)

/-- Draws a secret. -/
def secret (e : Environment) : SecretKey × Environment :=
  (⟨⟨(e.bytes 32).1, RandomSource.length_bytes ..⟩⟩, (e.bytes 32).2)

/-- Draws a key pair. -/
def keyPair (suite : Suite) (e : Environment) : KeyPair × Environment :=
  (suite.keyPair e.secret.1, e.secret.2)

/-- Draws the seed of another environment, which has a clock of its own. -/
def fork (e : Environment) : Environment × Environment :=
  (ofSeed (UInt64.ofNat (Bytes.toNatLE (e.bytes 8).1)), (e.bytes 8).2)

end Environment

/-! ### Drawing in steps -/

/-- A step that may draw from an environment and may fail; what was drawn
before a failure stays drawn. -/
abbrev Draw (α : Type) := EStateM SessionError Environment α

namespace Draw

/-- A step that does not draw. -/
def lift {α : Type} : Except SessionError α → Draw α
  | .ok a => pure a
  | .error e => throw e

/-- Draws a number of thirty-two bits. -/
def uint32 : Draw UInt32 := modifyGet Environment.uint32

/-- Draws a key pair. -/
def keyPair (suite : Suite) : Draw KeyPair := modifyGet (Environment.keyPair suite)

end Draw

end SecureSession
