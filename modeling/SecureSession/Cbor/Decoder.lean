import SecureSession.Cbor.Skip
import SecureSession.Key

/-! # Reading values of known types

A decoder reads a value whose type the caller knows, with a budget for nesting. Tags in front of
such a value are passed over. -/

namespace SecureSession.Cbor

/-- A reader of values that may nest within a budget. -/
abbrev Decoder (α : Type) := (budget : Nat) → Reader α

/-- The depth to which a top-level item may nest. -/
def depthLimit : Nat := 256

namespace Decoder

variable {α β : Type}

/-- Reads the item at the front of a byte string; what follows it is ignored. -/
def run (d : Decoder α) (input : Bytes) : Except Error α := (d depthLimit input).map Prod.fst

/-- The value with a function applied. -/
def map (f : α → β) (d : Decoder α) : Decoder β := fun budget => do return f (← d budget)

/-- The value a partial function gives; where it gives none, the item is not the one called for. -/
def filterMap (f : α → Option β) (d : Decoder α) : Decoder β := fun budget => do
  match f (← d budget) with
  | some b => return b
  | none => throw .semantic

/-- Takes one from the budget. -/
def enter (d : Decoder α) : Decoder α
  | 0 => throw .recursionLimit
  | budget + 1 => d budget

/-! ### Numbers and truth values -/

/-- A number below `bound`. A big number may stand for it. -/
def natural (bound : Nat) : Decoder Nat := fun _ => do
  match ← Reader.headerPast fun t => t != 2 && t != 3 with
  | .unsigned n => if n < bound then return n else throw .semantic
  | .tag t =>
    match ← Reader.header with
    | .bytes length =>
      let n ← Reader.bigNumber length
      if t = 2 ∧ n < bound then return n else throw .semantic
    | _ => throw .semantic
  | _ => throw .semantic

/-- A number of eight bits. -/
def uint8 : Decoder UInt8 := (natural UInt8.size).map UInt8.ofNat

/-- A number of thirty-two bits. -/
def uint32 : Decoder UInt32 := (natural UInt32.size).map UInt32.ofNat

/-- A number of sixty-four bits. -/
def uint64 : Decoder UInt64 := (natural UInt64.size).map UInt64.ofNat

/-- A truth value. -/
def bool : Decoder Bool := fun _ => do
  match ← Reader.headerPastTags with
  | .simple 20 => return false
  | .simple 21 => return true
  | _ => throw .semantic

/-- A value, or null in its place. -/
def optional (d : Decoder α) : Decoder (Option α) := fun budget input =>
  match Reader.header input with
  | .error e => .error e
  | .ok (.simple 22, rest) => .ok (none, rest)
  | .ok (.simple 23, rest) => .ok (none, rest)
  | .ok _ => (do return some (← d budget) : Reader (Option α)) input

/-! ### Sequences -/

/-- Adds a value in front of those read before it. -/
def push (d : Decoder α) (budget : Nat) (read : List α) : Reader (List α) := do
  return (← d budget) :: read

/-- The bytes of a byte string or of an array of numbers. -/
def octets : Decoder Bytes := fun budget => do
  match ← Reader.headerPastTags with
  | .array length =>
    enter (fun b => do return (← Reader.items (push uint8 b) length []).reverse) budget
  | .bytes length => Reader.byteString length
  | _ => throw .semantic

/-- The values of an array. An empty byte string is an empty array. -/
def listOf (d : Decoder α) : Decoder (List α) := fun budget => do
  match ← Reader.headerPastTags with
  | .array length => enter (fun b => do return (← Reader.items (push d b) length []).reverse) budget
  | .bytes length => if (← Reader.byteString length).isEmpty then return [] else throw .semantic
  | _ => throw .semantic

/-- A step per item of a sequence whose head gave `length`, `n` times at most. Items beyond that and
the break are left unread. -/
def itemsUpTo {σ : Type} (step : σ → Reader σ) (n : Nat) : (length : Option Nat) → σ → Reader σ
  | some m, s => Reader.repeats step (min n m) s
  | none, s => go n s
where
  /-- A step per item up to a break. -/
  go : (n : Nat) → σ → Reader σ
    | 0, s => pure s
    | n + 1, s => fun input =>
      match input with
      | [] => .error .io
      | b :: rest => if b = 0xff then .ok (s, rest) else (do go n (← step s) : Reader σ) input

/-- The first `n` bytes of a byte string, or those of an array, which leaves the others unread. -/
def octetsUpTo (n : Nat) : Decoder Bytes := fun budget => do
  match ← Reader.headerPastTags with
  | .array length =>
    enter (fun b => do return (← itemsUpTo (push uint8 b) n length []).reverse) budget
  | .bytes length => return (← Reader.byteString length).take n
  | _ => throw .semantic

/-- A key. -/
def key : Decoder Key := (octetsUpTo 32).filterMap Key.ofBytes?

/-- A public key. -/
def publicKey : Decoder PublicKey := key.map PublicKey.mk

/-- A secret key. -/
def secretKey : Decoder SecretKey := key.map SecretKey.mk

end Decoder

end SecureSession.Cbor
