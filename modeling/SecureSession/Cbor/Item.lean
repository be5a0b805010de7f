import SecureSession.Bytes

/-! # CBOR data items and their encoding

The data items this library writes, and those others may put beside them. Every item has one
encoding: the shortest heads and definite lengths. -/

namespace SecureSession.Cbor

/-- A data item. -/
inductive Item
  /-- The number itself. -/
  | unsigned (n : Nat)
  /-- The number `-1 - n`. -/
  | negative (n : Nat)
  | bytes (content : Bytes)
  /-- A text, in UTF-8. -/
  | text (content : Bytes)
  | array (items : List Item)
  | map (entries : List (Item × Item))
  | bool (b : Bool)
  | null

/-- The head of an item: its major type and its argument in the fewest bytes. -/
def head (major argument : Nat) : Bytes :=
  if argument < 24 then [UInt8.ofNat (32 * major + argument)]
  else if argument < UInt8.size then UInt8.ofNat (32 * major + 24) :: Bytes.ofNatBE 1 argument
  else if argument < UInt16.size then UInt8.ofNat (32 * major + 25) :: Bytes.ofNatBE 2 argument
  else if argument < UInt32.size then UInt8.ofNat (32 * major + 26) :: Bytes.ofNatBE 4 argument
  else UInt8.ofNat (32 * major + 27) :: Bytes.ofNatBE 8 argument

namespace Item

mutual

/-- The encoding of an item. -/
def encode : Item → Bytes
  | unsigned n => head 0 n
  | negative n => head 1 n
  | bytes content => head 2 content.length ++ content
  | text content => head 3 content.length ++ content
  | array items => head 4 items.length ++ encodeAll items
  | map entries => head 5 entries.length ++ encodeEntries entries
  | bool b => [if b then 0xf5 else 0xf4]
  | null => [0xf6]

/-- The encodings of some items, one after the other. -/
def encodeAll : List Item → Bytes
  | [] => []
  | item :: rest => item.encode ++ encodeAll rest

/-- The encodings of keys and values in turn. -/
def encodeEntries : List (Item × Item) → Bytes
  | [] => []
  | (key, value) :: rest => key.encode ++ (value.encode ++ encodeEntries rest)

end

/-! ### Items of common shapes -/

/-- A byte string written as the array of its bytes. -/
def octets (content : Bytes) : Item := array (content.map fun b => unsigned b.toNat)

/-- A value that may be absent. -/
def optional {α : Type} (item : α → Item) : Option α → Item
  | none => null
  | some a => item a

/-- A structure: its fields under their names. -/
def fields (entries : List (String × Item)) : Item :=
  map (entries.map fun e => (text (Bytes.ofString e.1), e.2))

end Item

end SecureSession.Cbor
