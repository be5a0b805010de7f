import SecureSession.Cbor.Fields
import SecureSession.Proofs.Cbor.Values

/-! # Reading back structures

A structure written with its fields in their order is read back. Each entry fills the draft of its
own field and leaves the others alone, whichever fields come before it. -/

namespace SecureSession.Cbor.Fields

open Decoder (ReadsAt)

/-! ### Keys -/

/-- Whether a name may stand as a key. -/
def IsKey (name : String) : Prop :=
  (Bytes.ofString name).length ≤ keyLimit ∧ Utf8.isValid (Bytes.ofString name) = true

instance (name : String) : Decidable (IsKey name) := inferInstanceAs (Decidable (_ ∧ _))

/-- The names of the fields, in order. -/
def names : {τ : Type} → Fields τ → List String
  | _, .nil => []
  | _, .cons name _ _ rest => name :: rest.names

/-- Whether all names may stand as keys, no two are the same key, and a
head can announce them all. -/
def WellNamed {τ : Type} (fs : Fields τ) : Prop :=
  (fs.names.map Bytes.ofString).Nodup ∧ (∀ name ∈ fs.names, IsKey name) ∧
    fs.names.length < UInt64.size

instance {τ : Type} (fs : Fields τ) : Decidable fs.WellNamed :=
  inferInstanceAs (Decidable (_ ∧ _ ∧ _))

theorem reads_key {name : String} (h : IsKey name) :
    key.Reads (Item.text (Bytes.ofString name)).encode (Bytes.ofString name) := by
  obtain ⟨hlength, hvalid⟩ := h
  have hn : (Bytes.ofString name).length < UInt64.size := by
    simp only [keyLimit, UInt64.size] at hlength ⊢; omega
  rw [Item.encode]
  refine ((Reader.reads_header_text hn).past (Reader.head_ne_nil _ _) (by simp)).bind ?_
  simp only [Nat.not_lt.mpr hlength, if_false]
  refine (Reader.reads_take rfl).last ?_
  rw [if_pos hvalid]
  exact Reader.Reads.pure _

/-! ### Entries -/

/-- The encoding of a field. -/
def entryBytes (e : String × Item) : Bytes := (Item.text (Bytes.ofString e.1)).encode ++ e.2.encode

theorem encodeEntries_fields : ∀ l : List (String × Item),
    Item.encodeEntries (l.map fun e => (Item.text (Bytes.ofString e.1), e.2)) = l.flatMap entryBytes
  | [] => by simp [Item.encodeEntries]
  | e :: l => by simp [Item.encodeEntries, encodeEntries_fields l, entryBytes]

/-- The draft in which every field has been seen. -/
def filled : {τ : Type} → (fs : Fields τ) → τ → fs.Draft
  | _, .nil, _ => ()
  | _, .cons _ _ _ rest, t => (some t.1, rest.filled t.2)

theorem finish_filled : ∀ {τ : Type} (fs : Fields τ) (t : τ), fs.finish (fs.filled t) = some t
  | _, .nil, _ => rfl
  | _, .cons _ _ _ rest, t => by simp [finish, filled, finish_filled rest t.2]

variable {τ α : Type} {budget depth : Nat}

/-- What an entry leads to once its key is read. -/
theorem entry_key {fs : Fields τ} {name : String} (h : IsKey name) (draft : fs.Draft)
    (input : Bytes) :
    fs.entry budget draft ((Item.text (Bytes.ofString name)).encode ++ input) =
      (match fs.fill (Bytes.ofString name) draft with
        | some value => value budget
        | none => do
          Reader.skip budget
          return draft : Reader fs.Draft) input := by
  rw [entry]
  show (key _ >>= fun p => _) = _
  rw [reads_key h]
  rfl

section

variable {name : String} {value : Decoder α} {absent : Option α} {rest : Fields τ}

/-- What has been seen of the first field, and of the others. -/
def draftCons (seen : Option α) (draft : rest.Draft) : (cons name value absent rest).Draft :=
  (seen, draft)

theorem fill_self (draft : rest.Draft) :
    fill (cons name value absent rest) (Bytes.ofString name) (draftCons none draft) =
      some fun budget => do return draftCons (some (← value budget)) draft := if_pos rfl

theorem fill_other {k : Bytes} (h : k ≠ Bytes.ofString name) (seen : Option α)
    (draft : rest.Draft) :
    fill (cons name value absent rest) k (draftCons seen draft) =
      (rest.fill k draft).map fun more budget => do return draftCons seen (← more budget) :=
    if_neg h

/-- The entry of the first field fills it. -/
theorem entry_self {item : Item} {a : α} (h : IsKey name) (ha : ReadsAt value depth item.encode a)
    (hd : depth ≤ budget) (draft : rest.Draft) :
    ((cons name value absent rest).entry budget (draftCons none draft)).Reads
      (entryBytes (name, item)) (draftCons (some a) draft) := by
  intro input
  rw [entryBytes, List.append_assoc, entry_key h, fill_self]
  exact (ha budget hd).map (f := fun a => draftCons (some a) draft) input

/-- The entry of another field leaves the first one alone. -/
theorem entry_other {e : String × Item} (h : IsKey e.1)
    (hne : Bytes.ofString e.1 ≠ Bytes.ofString name) (seen : Option α) {draft draft' : rest.Draft}
    (hrest : (rest.entry budget draft).Reads (entryBytes e) draft') :
    ((cons name value absent rest).entry budget (draftCons seen draft)).Reads (entryBytes e)
      (draftCons seen draft') := by
  intro input
  have hr := hrest input
  rw [entryBytes, List.append_assoc, entry_key h] at hr ⊢
  rw [fill_other hne]
  cases hf : rest.fill (Bytes.ofString e.1) draft with
  | none =>
    simp only [hf, Option.map_none] at hr ⊢
    change (Reader.skip budget _ >>= fun p => Except.ok (draft, p.2)) = _ at hr
    change (Reader.skip budget _ >>= fun p => Except.ok (draftCons seen draft, p.2)) = _
    cases hs : Reader.skip budget (e.2.encode ++ input) with
    | error err => rw [hs] at hr; cases hr
    | ok p => rw [hs] at hr; cases hr; rfl
  | some more =>
    simp only [hf, Option.map_some] at hr ⊢
    exact congrArg (Except.map fun p => (draftCons seen p.1, p.2)) hr

theorem runs_other (seen : Option α) {draft draft' : rest.Draft} {l : List (String × Item)}
    (hkeys : ∀ e ∈ l, IsKey e.1) (hne : ∀ e ∈ l, Bytes.ofString e.1 ≠ Bytes.ofString name)
    (h : Reader.Runs (rest.entry budget) entryBytes draft l draft') :
    Reader.Runs ((cons name value absent rest).entry budget) entryBytes (draftCons seen draft) l
      (draftCons seen draft') := by
  induction h with
  | nil s => exact .nil _
  | cons ha _ ih =>
    exact .cons (entry_other (hkeys _ (by simp)) (hne _ (by simp)) seen ha)
      (ih (fun e he => hkeys e (by simp [he])) fun e he => hne e (by simp [he]))

end

/-! ### Structures -/

/-- The fields of a structure in their order, each written so that its value is read back. -/
inductive Written (depth : Nat) : {τ : Type} → Fields τ → List (String × Item) → τ → Prop
  | nil : Written depth .nil [] ()
  | cons {α β : Type} {name : String} {value : Decoder α} {absent : Option α} {rest : Fields β}
      {item : Item} {items : List (String × Item)} {a : α} {b : β} :
      ReadsAt value depth item.encode a → Written depth rest items b →
      Written depth (.cons name value absent rest) ((name, item) :: items) (a, b)

theorem Written.names_eq {fs : Fields τ} {items : List (String × Item)} {t : τ}
    (h : Written depth fs items t) : items.map Prod.fst = fs.names := by
  induction h with
  | nil => rfl
  | cons _ _ ih => rw [List.map_cons, ih, names]

theorem Written.length_lt {fs : Fields τ} {items : List (String × Item)} {t : τ}
    (h : Written depth fs items t) (hfs : fs.WellNamed) : items.length < UInt64.size := by
  rw [← List.length_map (f := Prod.fst), h.names_eq]; exact hfs.2.2

theorem Written.runs {fs : Fields τ} {items : List (String × Item)} {t : τ}
    (h : Written depth fs items t) (hnodup : (fs.names.map Bytes.ofString).Nodup)
    (hkeys : ∀ name ∈ fs.names, IsKey name) (hd : depth ≤ budget) :
    Reader.Runs (fs.entry budget) entryBytes fs.blank items (fs.filled t) := by
  induction h with
  | nil => exact .nil _
  | @cons _ _ _ _ _ rest _ items _ _ ha hrest ih =>
    simp only [names, List.map_cons, List.nodup_cons, List.mem_cons,
      forall_eq_or_imp] at hnodup hkeys
    have hmem : ∀ e ∈ items, e.1 ∈ rest.names := fun e he => by
      rw [← hrest.names_eq]; exact List.mem_map_of_mem he
    refine .cons (entry_self hkeys.1 ha hd _)
      (runs_other _ (fun e he => hkeys.2 _ (hmem e he)) (fun e he heq => hnodup.1 ?_)
        (ih hnodup.2 hkeys.2))
    exact heq ▸ List.mem_map_of_mem (hmem e he)

/-- A structure is read back from its fields. -/
theorem Written.readsAt {fs : Fields τ} {items : List (String × Item)} {t : τ}
    (h : Written depth fs items t) (hfs : fs.WellNamed) :
    ReadsAt fs.decoder (depth + 1) (Item.fields items).encode t := by
  intro budget hb
  rw [Item.fields, Item.encode, List.length_map, encodeEntries_fields]
  refine ((Reader.reads_header_map (h.length_lt hfs)).past (Reader.head_ne_nil _ _)
    (by simp)).bind ?_
  refine ReadsAt.enter (fun b hb => ?_) budget hb
  refine (h.runs hfs.1 hfs.2.1 hb).reads.last ?_
  simp only [finish_filled]
  exact Reader.Reads.pure t

theorem present_fields {items : List (String × Item)} (hn : items.length < UInt64.size) :
    Decoder.Present (Item.fields items).encode := by
  rw [Item.fields, Item.encode, List.length_map]
  exact Decoder.present_of_header (Reader.reads_header_map hn) (by simp) (by simp)

end SecureSession.Cbor.Fields
