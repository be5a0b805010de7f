import SecureSession.Cbor.Header
import SecureSession.Utf8

/-! # Reading strings

A byte or text string is one segment of known length, or segments up to a break. Indefinite strings
may nest. What is done with a segment is a step of the caller's. -/

namespace SecureSession.Cbor.Reader

/-! ### Segments -/

/-- Segments up to the break that closes `depth` open strings, in `fuel` bytes. -/
def segmentsIn {σ : Type} (part : Header → Option (Option Nat)) (step : Nat → σ → Reader σ) :
    (fuel depth : Nat) → σ → Reader σ
  | 0, _, _ => throw .io
  | fuel + 1, depth, s => do
    match ← header with
    | .stop => if depth ≤ 1 then return s else segmentsIn part step fuel (depth - 1) s
    | h =>
      match part h with
      | none => throw .malformed
      | some none => segmentsIn part step fuel (depth + 1) s
      | some (some n) => segmentsIn part step fuel depth (← step n s)

/-- The segments of a string whose head gave `length`. -/
def segments {σ : Type} (part : Header → Option (Option Nat)) (step : Nat → σ → Reader σ) :
    (length : Option Nat) → σ → Reader σ
  | some n, s => step n s
  | none, s => fun input => segmentsIn part step input.length 1 s input

/-- The length of a segment of a byte string. -/
def bytesPart : Header → Option (Option Nat)
  | .bytes length => some length
  | _ => none

/-- The length of a segment of a text string. -/
def textPart : Header → Option (Option Nat)
  | .text length => some length
  | _ => none

/-! ### Byte strings -/

/-- Adds a segment to a byte string. -/
def bytesStep (n : Nat) (read : Bytes) : Reader Bytes := do return read ++ (← take n)

/-- The content of a byte string whose head gave `length`. -/
def byteString (length : Option Nat) : Reader Bytes := segments bytesPart bytesStep length []

/-! ### Big numbers -/

/-- The most bytes a big number may have, leading zeros apart. -/
def bigLimit : Nat := 16

/-- More bytes of a big number, leading zeros dropped. -/
def significant (read more : Bytes) : Bytes :=
  if read.isEmpty then more.dropWhile (· == 0) else read ++ more

/-- Adds a segment to a big number. A number too big is noticed in blocks of sixteen bytes, so it
may be noticed before the end of the input is. -/
def bigStep (n : Nat) (read : Bytes) : Reader Bytes := fun input =>
  let present := if Bytes.hasLength n input then n else input.length / bigLimit * bigLimit
  if bigLimit < (significant read (input.take present)).length then .error .semantic
  else (do return significant read (← take n) : Reader Bytes) input

/-- The big number in a byte string whose head gave `length`. -/
def bigNumber (length : Option Nat) : Reader Nat := do
  return Bytes.toNatBE (← segments bytesPart bigStep length [])

/-! ### Text strings -/

/-- The most bytes of a text read at once. -/
def blockSize : Nat := 4096

/-- Whether one of the whole blocks of a text of `n` bytes that the input cuts off is malformed.
Bytes of a character that a block splits are carried over to the next. -/
def brokenBlock : (fuel n : Nat) → (carried input : Bytes) → Bool
  | 0, _, _, _ => false
  | fuel + 1, n, carried, input =>
    let size := min (blockSize - carried.length) n
    if Bytes.hasLength size input then
      let open' := Utf8.unread (carried ++ input.take size)
      3 < open'.length || brokenBlock fuel (n - size) open' (input.drop size)
    else false

/-- Passes over a segment of a text. -/
def textStep (n : Nat) (_ : Unit) : Reader Unit := fun input =>
  if Bytes.hasLength n input then
    if Utf8.isValid (input.take n) then .ok ((), input.drop n) else .error .malformed
  else if brokenBlock input.length n [] input then .error .malformed
  else .error .io

/-- Passes over a text whose head gave `length`. -/
def skipText (length : Option Nat) : Reader Unit := segments textPart textStep length ()

end SecureSession.Cbor.Reader
