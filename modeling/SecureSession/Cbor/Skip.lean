import SecureSession.Cbor.Segment

/-! # Passing over values

The value of an unknown key is passed over, whatever it is. Arrays, maps and tags nest within a
budget: entering one takes one from it. -/

namespace SecureSession.Cbor

/-! ### Sequences -/

namespace Reader

/-- A step per item, `n` times. -/
def repeats {σ : Type} (step : σ → Reader σ) : (n : Nat) → σ → Reader σ
  | 0, s => pure s
  | n + 1, s => do repeats step n (← step s)

/-- A step per item up to a break, in `fuel` bytes. -/
def untilStopIn {σ : Type} (step : σ → Reader σ) : (fuel : Nat) → σ → Reader σ
  | 0, _ => throw .io
  | fuel + 1, s => fun input =>
    match input with
    | [] => .error .io
    | b :: rest =>
      if b = 0xff then .ok (s, rest)
      else (do untilStopIn step fuel (← step s) : Reader σ) input

/-- A step per item of a sequence whose head gave `length`. -/
def items {σ : Type} (step : σ → Reader σ) : (length : Option Nat) → σ → Reader σ
  | some n, s => repeats step n s
  | none, s => fun input => untilStopIn step input.length s input

/-! ### Skipping -/

/-- The bytes of a big number that directly follow a tag for one, if they do. -/
def tagged? (t : Nat) : Header → Option Nat
  | .bytes (some n) => if (t = 2 ∨ t = 3) ∧ n ≤ bigLimit then some n else none
  | _ => none

/-- Passes over what a tag is on. A big number that is negative has to stay below `2 ^ 127`. -/
def skipTagged (t : Nat) (value : Reader Unit) : Reader Unit := fun input =>
  if t = 2 ∨ t = 3 then
    match header input with
    | .error e => .error e
    | .ok (h, rest) =>
      match tagged? t h with
      | none => value input
      | some n => (do
          let digits ← take n
          if t = 3 ∧ 1 <<< 127 ≤ Bytes.toNatBE digits then throw .semantic : Reader Unit) rest
  else value input

/-- Passes over an item, given how to pass over the items in it, if it may have any. -/
def skipItem (nested : Option (Reader Unit)) : Reader Unit := do
  let inner := nested.getD (throw .recursionLimit)
  match ← header with
  | .unsigned _ | .negative _ | .float => pure ()
  | .simple n => if 20 ≤ n ∧ n ≤ 23 then pure () else throw .semantic
  | .stop => throw .semantic
  | .bytes length => do let _ ← byteString length
  | .text length => skipText length
  | .array length =>
    if nested.isNone then throw .recursionLimit else items (fun _ => inner) length ()
  | .map length =>
    if nested.isNone then throw .recursionLimit
    else items (fun _ => do inner; inner) length ()
  | .tag t => skipTagged t inner

/-- Passes over an item, with a budget for nesting. -/
def skip : (budget : Nat) → Reader Unit
  | 0 => skipItem none
  | budget + 1 => skipItem (some (skip budget))

end Reader

end SecureSession.Cbor
