import SecureSession.Storage.Storage

/-! # Trials of a storage

One batch committed over and over, to see when commits fail. -/

namespace SecureSession.Storage

/-- Commits a batch once for each position up to `n`, a failure armed before those of `armed`.
Answers which commits succeeded. -/
def trial (account : String) (b : Batch) (armed : List Nat) (s : Storage) :
    (n : Nat) → List Bool × Storage
  | 0 => ([], s)
  | n + 1 =>
    let (before, s) := trial account b armed s n
    let s := if n ∈ armed then { s with faults := s.faults.arm } else s
    let (result, s) := s.commit account b
    (before ++ [result.toBool], s)

end SecureSession.Storage
