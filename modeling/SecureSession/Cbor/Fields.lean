import SecureSession.Cbor.Decoder

/-! # Reading structures

A structure is a map from field names to values. Its fields may come in any order, each once; keys
that name no field are passed over together with their values. -/

namespace SecureSession.Cbor

/-- The fields of a structure: the name of each, how its value is read, and the value it has when it
is left out, if it may be. The index is the product of the values' types. -/
inductive Fields : Type → Type 1
  | nil : Fields Unit
  | cons {α β : Type} (name : String) (value : Decoder α) (absent : Option α) (rest : Fields β) :
      Fields (α × β)

namespace Fields

variable {α β : Type}

/-- A field that has to be there. -/
def required (name : String) (value : Decoder α) (rest : Fields β) : Fields (α × β) :=
  .cons name value none rest

/-- A field that may be left out or null. -/
def optional (name : String) (value : Decoder α) (rest : Fields β) : Fields (Option α × β) :=
  .cons name value.optional (some none) rest

/-! ### Drafts -/

/-- What has been read of a structure: the values of the fields seen. -/
def Draft : {τ : Type} → Fields τ → Type
  | _, .nil => Unit
  | _, @cons α _ _ _ _ rest => Option α × rest.Draft

/-- No field seen. -/
def blank : {τ : Type} → (fs : Fields τ) → fs.Draft
  | _, .nil => ()
  | _, .cons _ _ _ rest => (none, rest.blank)

/-- How to go on after a key: none if it names no field. A field may not be seen twice. -/
def fill : {τ : Type} → (fs : Fields τ) → (key : Bytes) → fs.Draft → Option (Decoder fs.Draft)
  | _, .nil, _, _ => none
  | _, .cons name value _ rest, key, draft =>
    if key = Bytes.ofString name then
      some fun budget => do
        if draft.1.isSome then throw .semantic
        return (some (← value budget), draft.2)
    else (rest.fill key draft.2).map fun more budget => do return (draft.1, ← more budget)

/-- The structure, if no field is missing. -/
def finish : {τ : Type} → (fs : Fields τ) → fs.Draft → Option τ
  | _, .nil, _ => some ()
  | _, .cons _ _ absent rest, draft => do return (← draft.1 <|> absent, ← rest.finish draft.2)

/-! ### Reading -/

/-- The longest key of a structure. -/
def keyLimit : Nat := 4096

/-- A key: a text or byte string in one piece. -/
def key : Reader Bytes := do
  match ← Reader.headerPastTags with
  | .text (some n) =>
    if keyLimit < n then throw .semantic
    let name ← Reader.take n
    if Utf8.isValid name then return name else throw .malformed
  | .bytes (some n) => if keyLimit < n then throw .semantic else Reader.take n
  | _ => throw .semantic

variable {τ : Type} (fs : Fields τ)

/-- Reads a key and its value. -/
def entry (budget : Nat) (draft : fs.Draft) : Reader fs.Draft := do
  match fs.fill (← key) draft with
  | some value => value budget
  | none => do
    Reader.skip budget
    return draft

/-- Reads the structure. -/
def decoder : Decoder τ := fun budget => do
  match ← Reader.headerPastTags with
  | .map length =>
    Decoder.enter (fun b => do
      match fs.finish (← Reader.items (fs.entry b) length fs.blank) with
      | some t => return t
      | none => throw .semantic) budget
  | _ => throw .semantic

end Fields

end SecureSession.Cbor
