import SecureSession.Bytes

/-! # Reading CBOR heads

A reader takes a value off the front of a byte string and leaves the rest. The head of a data item
names its major type and its argument; lengths need not be in their shortest form. -/

namespace SecureSession.Cbor

/-- Why a byte string could not be read. -/
inductive Error
  /-- The input ends early. -/
  | io
  /-- The bytes are no data item. -/
  | malformed
  /-- The data item is not the one called for. -/
  | semantic
  /-- Items are nested too deeply. -/
  | recursionLimit
deriving DecidableEq

/-- The kind of an error, as reports name it. -/
def Error.name : Error → String
  | io => "Io"
  | malformed => "Syntax"
  | semantic => "Semantic"
  | recursionLimit => "RecursionLimitExceeded"

/-- A reader of values off the front of a byte string. -/
abbrev Reader (α : Type) := StateT Bytes (Except Error) α

/-- The head of a data item. An absent length is announced by a break. -/
inductive Header
  | unsigned (n : Nat)
  | negative (n : Nat)
  | bytes (length : Option Nat)
  | text (length : Option Nat)
  | array (length : Option Nat)
  | map (length : Option Nat)
  | tag (n : Nat)
  | simple (n : Nat)
  | float
  | stop
deriving DecidableEq

namespace Reader

/-- The next `n` bytes. -/
def take (n : Nat) : Reader Bytes := fun input =>
  if Bytes.hasLength n input then .ok (input.take n, input.drop n) else .error .io

/-- The next byte. -/
def byte : Reader UInt8
  | [] => .error .io
  | b :: rest => .ok (b, rest)

/-- The argument that the low five bits of a first byte announce; `none` if it is indefinite. -/
def argument (minor : Nat) : Reader (Option Nat) :=
  if minor < 24 then pure (some minor)
  else if minor < 28 then do return some (Bytes.toNatBE (← take (1 <<< (minor - 24))))
  else if minor = 31 then pure none
  else throw .malformed

/-- The head with the given major type and argument. -/
def headerOf (major minor : Nat) : Option Nat → Reader Header
  | some n =>
    match major with
    | 0 => pure (.unsigned n)
    | 1 => pure (.negative n)
    | 2 => pure (.bytes n)
    | 3 => pure (.text n)
    | 4 => pure (.array n)
    | 5 => pure (.map n)
    | 6 => pure (.tag n)
    | _ => pure (if minor ≤ 24 then .simple n else .float)
  | none =>
    match major with
    | 2 => pure (.bytes none)
    | 3 => pure (.text none)
    | 4 => pure (.array none)
    | 5 => pure (.map none)
    | 7 => pure .stop
    | _ => throw .malformed

/-- The head of the next item. -/
def header : Reader Header := do
  let first ← byte
  let minor := first.toNat % 32
  headerOf (first.toNat / 32) minor (← argument minor)

/-- The first head that is not one of the tags passed over, among as many as `fuel` has bytes. -/
def headerPastIn (passes : Nat → Bool) : (fuel : Bytes) → Reader Header
  | [] => throw .io
  | _ :: fuel => do
    match ← header with
    | .tag t => if passes t then headerPastIn passes fuel else return .tag t
    | h => return h

/-- The first head that is not one of the tags passed over. -/
def headerPast (passes : Nat → Bool) : Reader Header := fun input =>
  headerPastIn passes input input

/-- The first head that is not a tag. -/
def headerPastTags : Reader Header := headerPast fun _ => true

end Reader

end SecureSession.Cbor
