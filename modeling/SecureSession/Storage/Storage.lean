import SecureSession.Crypto.ChaCha20
import SecureSession.Storage.Vault

/-! # Storage

The vaults of all accounts behind a fault injector. Reading always works; a commit fails if a
failure was armed, or by chance at a given rate. A commit that fails writes nothing. -/

namespace SecureSession

/-! ### Faults -/

/-- When commits fail. -/
structure Faults where
  /-- Where chance comes from. -/
  stream : ChaCha20.Stream
  /-- The rate of failures, in units of `2 ^ -64`. -/
  rate : Nat
  /-- Whether the next commit fails in any case. -/
  armed : Bool
  /-- How many commits have failed. -/
  failed : Nat
deriving DecidableEq

namespace Faults

/-- The rate at which every commit fails. -/
def certain : Nat := UInt64.size

/-- Failures at a rate, by the stream of a seed. -/
def seeded (seed : UInt64) (rate : Nat) : Faults := ⟨.ofSeed seed, rate, false, 0⟩

/-- No failures but those armed. -/
def never : Faults := seeded 0 0

/-- Makes the next commit fail. -/
def arm (f : Faults) : Faults := { f with armed := true }

/-- Whether the next commit fails. An armed failure comes before chance, and chance is not asked
where the rate leaves no doubt. -/
def strike (f : Faults) : Bool × Faults :=
  if f.armed then (true, { f with armed := false, failed := f.failed + 1 })
  else if f.rate = 0 then (false, f)
  else if certain ≤ f.rate then (true, { f with failed := f.failed + 1 })
  else
    let (drawn, stream) := f.stream.uint64
    if drawn < f.rate then (true, { f with stream, failed := f.failed + 1 })
      else (false, { f with stream })

end Faults

/-! ### Storage -/

/-- The stored content of every account, and when commits fail. -/
structure Storage where
  vaults : SortedMap String Vault
  faults : Faults
deriving DecidableEq

/-- What an operation writes, in one batch, and what it answers once that is done. -/
structure Plan (α : Type) where
  writes : Batch
  answer : α

namespace Plan

/-- An answer without writes. -/
def reply {α : Type} (answer : α) : Plan α := ⟨.empty, answer⟩

/-- The plan with another answer. -/
def map {α β : Type} (f : α → β) (p : Plan α) : Plan β := ⟨p.writes, f p.answer⟩

end Plan

namespace Storage

/-- Nothing stored. -/
def empty (faults : Faults) : Storage := ⟨.empty, faults⟩

/-- The stored content of an account. -/
def vault (s : Storage) (account : String) : Vault := (s.vaults.get? account).getD .empty

/-- The storage with another content for an account. -/
def setVault (s : Storage) (account : String) (v : Vault) : Storage :=
  { s with vaults := s.vaults.insert account v }

/-- Applies a batch to the content of an account, or fails. -/
def commit (s : Storage) (account : String) (b : Batch) : Except StorageError Unit × Storage :=
  match s.faults.strike with
  | (true, faults) => (.error (.unavailable (.injected b.size)), { s with faults })
  | (false, faults) => (.ok (), { s with faults }.setVault account ((s.vault account).apply b))

/-- Carries out a plan. Nothing is committed for a plan that could not be
made, or without writes. -/
def carryOut {α : Type} (s : Storage) (account : String) :
    Except SessionError (Plan α) → Except SessionError α × Storage
  | .error e => (.error e, s)
  | .ok plan =>
    if plan.writes.isEmpty then (.ok plan.answer, s)
    else
      match s.commit account plan.writes with
      | (.ok (), s) => (.ok plan.answer, s)
      | (.error e, s) => (.error (.storage e), s)

/-- Carries out the plan made for the content of an account. -/
def run {α : Type} (s : Storage) (account : String) (plan : Vault → Except SessionError (Plan α)) :
    Except SessionError α × Storage :=
  s.carryOut account (plan (s.vault account))

end Storage

end SecureSession
