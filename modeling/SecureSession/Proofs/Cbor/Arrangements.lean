import SecureSession.Proofs.Cbor.Encodings
import SecureSession.Proofs.Cbor.Structures

/-! # Entries in any arrangement

A structure is read from the entries of a map in whatever order they come, and whatever stands
between them. Field by field, its value is what the one value given for the field reads as, or the
value that it has when none is given; two values for a field are one too many. Nothing else is read
as a structure. -/

namespace SecureSession.Cbor

open Reader (Answers Opens Reads Settles)

/-! ### Entries -/

/-- An entry of a map: the head of its key, the text that this announces, and
the bytes of its value. -/
structure Entry where
  head : Bytes
  key : Bytes
  value : Bytes

namespace Entry

/-- The bytes of the entry. -/
def bytes (e : Entry) : Bytes := e.head ++ e.key ++ e.value

/-- Whether the key is a text that may stand as a key, in one piece. -/
structure IsKeyed (e : Entry) : Prop where
  head : IsHead 3 e.key.length e.head
  length : e.key.length ≤ Fields.keyLimit
  valid : Utf8.isValid e.key = true

/-- The entry of a field, as this library writes it. -/
def ofField (f : String × Item) : Entry where
  head := Cbor.head 3 (Bytes.ofString f.1).length
  key := Bytes.ofString f.1
  value := f.2.encode

/-- The values that are given for a key, in their order. -/
def valuesOf (key : Bytes) (l : List Entry) : List Bytes := (l.filter (·.key == key)).map value

variable {e : Entry} {key : Bytes} {l l' : List Entry}

theorem IsKeyed.opens (h : e.IsKeyed) : Opens e.bytes := by
  rw [bytes, List.append_assoc]
  exact ((Reader.announces_text.reads h.head).opens nofun).append _

theorem IsKeyed.reads_key (h : e.IsKeyed) : Fields.key.Reads (e.head ++ e.key) e.key := by
  have hhead := Reader.announces_text.reads h.head
  refine (hhead.past hhead.ne_nil nofun).bind ?_
  simp only [Nat.not_lt.mpr h.length, if_false]
  refine (Reader.reads_take rfl).last ?_
  rw [if_pos h.valid]
  exact Reads.pure _

theorem isKeyed_ofField {f : String × Item} (h : Fields.IsKey f.1) : (ofField f).IsKeyed where
  head := isHead_head (h.1.trans_lt (by decide))
  length := h.1
  valid := h.2

theorem valuesOf_append : valuesOf key (l ++ l') = valuesOf key l ++ valuesOf key l' := by
  rw [valuesOf, List.filter_append, List.map_append]
  rfl

theorem valuesOf_self : valuesOf e.key [e] = [e.value] := by simp [valuesOf]

theorem valuesOf_of_ne (h : ∀ e ∈ l, e.key ≠ key) : valuesOf key l = [] := by
  rw [valuesOf, List.map_eq_nil_iff, List.filter_eq_nil_iff]
  intro e he
  rw [beq_iff_eq]
  exact h e he

theorem valuesOf_perm (h : l.Perm l') : (valuesOf key l).Perm (valuesOf key l') :=
  (h.filter _).map _

end Entry

open Entry (valuesOf)

namespace Fields

variable {τ α : Type} {budget : Nat}

/-! ### Drafts -/

/-- What is seen of a field where some values came for it. -/
def Sees (r : Reader α) : List Bytes → Option α → Prop
  | [], seen => seen = none
  | [value], seen => ∃ a, seen = some a ∧ r.Reads value a
  | _ :: _ :: _, _ => False

/-- Whether a draft is what has been seen of some entries. -/
def Saw (budget : Nat) : {τ : Type} → (fs : Fields τ) → List Entry → fs.Draft → Prop
  | _, .nil, _, _ => True
  | _, .cons name value _ rest, l, draft =>
    Sees (value budget) (valuesOf (Bytes.ofString name) l) draft.1 ∧ rest.Saw budget l draft.2

theorem Sees.unique {r : Reader α} {values : List Bytes} {seen seen' : Option α}
    (h : Sees r values seen) (h' : Sees r values seen') : seen = seen' := by
  match values with
  | [] => exact Eq.trans h (Eq.symm h')
  | [value] =>
    obtain ⟨a, rfl, ha⟩ := h
    obtain ⟨a', rfl, ha'⟩ := h'
    have heq := (ha []).symm.trans (ha' [])
    cases heq
    rfl
  | _ :: _ :: _ => exact h.elim

theorem Sees.of_append {r : Reader α} : ∀ {values more : List Bytes} {seen : Option α},
    Sees r (values ++ more) seen → ∃ seen', Sees r values seen'
  | [], _, _, _ => ⟨none, rfl⟩
  | [_], [], seen, h => ⟨seen, h⟩
  | [_], _ :: _, _, h => h.elim
  | _ :: _ :: _, _, _, h => h.elim

theorem sees_none {r : Reader α} {values : List Bytes} : Sees r values none ↔ values = [] := by
  match values with
  | [] => exact ⟨fun _ => rfl, fun _ => rfl⟩
  | [_] => exact ⟨fun ⟨_, ha, _⟩ => (nomatch ha), nofun⟩
  | _ :: _ :: _ => exact ⟨False.elim, nofun⟩

/-- After a value, no other may come. -/
theorem Sees.not_append {r : Reader α} {value : Bytes} {a : α} {seen : Option α} :
    ∀ {values : List Bytes}, Sees r values (some a) → ¬Sees r (values ++ [value]) seen
  | [], h, _ => nomatch h
  | [_], _, h => h
  | _ :: _ :: _, h, _ => h

theorem saw_blank : ∀ {τ : Type} (fs : Fields τ), fs.Saw budget [] fs.blank
  | _, .nil => trivial
  | _, .cons _ _ _ rest => ⟨rfl, rest.saw_blank⟩

theorem Saw.unique : ∀ {τ : Type} {fs : Fields τ} {l : List Entry} {draft draft' : fs.Draft},
    fs.Saw budget l draft → fs.Saw budget l draft' → draft = draft'
  | _, .nil, _, _, _, _, _ => rfl
  | _, .cons .., _, _, _, h, h' => Prod.ext (h.1.unique h'.1) (h.2.unique h'.2)

theorem Saw.of_append : ∀ {τ : Type} {fs : Fields τ} {l more : List Entry} {draft : fs.Draft},
    fs.Saw budget (l ++ more) draft → ∃ draft', fs.Saw budget l draft'
  | _, .nil, _, _, _, _ => ⟨(), trivial⟩
  | _, .cons .., _, _, _, h => by
    obtain ⟨hfirst, hrest⟩ := h
    rw [Entry.valuesOf_append] at hfirst
    obtain ⟨seen, hseen⟩ := hfirst.of_append
    obtain ⟨draft, hdraft⟩ := Saw.of_append hrest
    exact ⟨(seen, draft), hseen, hdraft⟩

/-- An entry for no field changes nothing. -/
theorem saw_append_other {e : Entry} :
    ∀ {τ : Type} {fs : Fields τ} {l : List Entry} {draft : fs.Draft},
    e.key ∉ fs.names.map Bytes.ofString → (fs.Saw budget (l ++ [e]) draft ↔ fs.Saw budget l draft)
  | _, .nil, _, _, _ => Iff.rfl
  | _, .cons name _ _ rest, l, draft, h => by
    rw [names, List.map_cons, List.mem_cons, not_or] at h
    have hvalues : valuesOf (Bytes.ofString name) (l ++ [e]) =
        valuesOf (Bytes.ofString name) l := by
      rw [Entry.valuesOf_append, Entry.valuesOf_of_ne (l := [e]) (by simpa using h.1),
        List.append_nil]
    unfold Saw
    rw [hvalues, saw_append_other h.2]

/-! ### One entry -/

/-- Whether it is settled what comes of the value of an entry: as that of the field
it names, or passed over. -/
def Decides (budget : Nat) : {τ : Type} → Fields τ → Entry → Prop
  | _, .nil, e => (Reader.skip budget).Reads e.value ()
  | _, .cons name value _ rest, e =>
    if e.key = Bytes.ofString name then (value budget).Settles e.value else rest.Decides budget e

/-- How to go on after the key of an entry. -/
def proceed (fs : Fields τ) (budget : Nat) (key : Bytes) (draft : fs.Draft) : Reader fs.Draft :=
  match fs.fill key draft with
  | some value => value budget
  | none => do
    Reader.skip budget
    return draft

section

variable {name : String} {value : Decoder α} {absent : Option α} {rest : Fields τ} {key : Bytes}

theorem proceed_seen {a : α} (h : key = Bytes.ofString name) (draft : rest.Draft) :
    proceed (cons name value absent rest) budget key (draftCons (some a) draft) =
      MonadExcept.throw Error.semantic := by
  unfold proceed
  rw [show fill (cons name value absent rest) key (draftCons (some a) draft) = some _ from if_pos h]
  rfl

theorem proceed_unseen (h : key = Bytes.ofString name) (draft : rest.Draft) :
    proceed (cons name value absent rest) budget key (draftCons none draft) =
      do return draftCons (some (← value budget)) draft := by
  unfold proceed
  rw [h, fill_self]

theorem proceed_other (h : key ≠ Bytes.ofString name) (seen : Option α) (draft : rest.Draft) :
    proceed (cons name value absent rest) budget key (draftCons seen draft) =
      do return draftCons seen (← rest.proceed budget key draft) := by
  unfold proceed
  rw [fill_other h]
  cases rest.fill key draft with
  | none =>
    funext input
    show (Reader.skip budget input >>= fun p => Except.ok (draftCons seen draft, p.2)) =
      ((Reader.skip budget input >>= fun p => Except.ok (draft, p.2)) >>= fun p =>
        Except.ok (draftCons seen p.1, p.2))
    cases Reader.skip budget input <;> rfl
  | some more => rfl

end

/-- Whether it is settled what comes of an entry, and that is a draft exactly if the draft is what
is seen of the entry and those that were seen before it. -/
def Follows (fs : Fields τ) (budget : Nat) (e : Entry) (draft : fs.Draft) : Prop :=
  ∃ x, (fs.proceed budget e.key draft).Answers e.value x ∧
    ∀ l, fs.Saw budget l draft → ∀ draft', x = .ok draft' ↔ fs.Saw budget (l ++ [e]) draft'

section

variable {name : String} {value : Decoder α} {absent : Option α} {rest : Fields τ} {e : Entry}

/-- The first value for a field is read, a second one is refused. -/
theorem follows_self (hkey : e.key = Bytes.ofString name)
    (hrest : e.key ∉ rest.names.map Bytes.ofString) (hvalue : (value budget).Settles e.value)
    (seen : Option α) (draft : rest.Draft) :
    Follows (cons name value absent rest) budget e (draftCons seen draft) := by
  have hvalues : ∀ l, valuesOf (Bytes.ofString name) (l ++ [e]) =
      valuesOf (Bytes.ofString name) l ++ [e.value] := fun l => by
    rw [Entry.valuesOf_append, ← hkey, Entry.valuesOf_self]
  cases seen with
  | some a =>
    refine ⟨.error .semantic, ?_, fun l hl draft' => ⟨nofun, fun hall => ?_⟩⟩
    · rw [proceed_seen hkey]
      exact Reader.answers_throw _ _
    · have hboth := hall.1
      rw [hvalues] at hboth
      exact absurd hboth (Sees.not_append hl.1)
  | none =>
    refine ⟨((value budget).answer e.value).map fun a => draftCons (some a) draft, ?_,
      fun l hl draft' => ?_⟩
    · rw [proceed_unseen hkey]
      exact Answers.map hvalue _
    · unfold Saw
      rw [hvalues, sees_none.mp hl.1, saw_append_other hrest, map_eq_ok]
      constructor
      · rintro ⟨a, ha, rfl⟩
        exact ⟨⟨a, rfl, hvalue.answer_eq_ok.mp ha⟩, hl.2⟩
      · rintro ⟨⟨a, ha, hread⟩, hdraft⟩
        exact ⟨a, hvalue.answer_eq_ok.mpr hread, Prod.ext ha.symm (hl.2.unique hdraft)⟩

/-- An entry for another field leaves the first one alone. -/
theorem follows_other (hkey : e.key ≠ Bytes.ofString name) (seen : Option α) {draft : rest.Draft}
    (h : rest.Follows budget e draft) :
    Follows (cons name value absent rest) budget e (draftCons seen draft) := by
  obtain ⟨x, hx, hiff⟩ := h
  refine ⟨x.map (draftCons seen), ?_, fun l hl draft' => ?_⟩
  · rw [proceed_other hkey]
    exact hx.map _
  · have hvalues : valuesOf (Bytes.ofString name) (l ++ [e]) =
        valuesOf (Bytes.ofString name) l := by
      rw [Entry.valuesOf_append, Entry.valuesOf_of_ne (l := [e]) (by simpa using hkey),
        List.append_nil]
    unfold Saw
    rw [hvalues, map_eq_ok]
    constructor
    · rintro ⟨d, hd, rfl⟩
      exact ⟨hl.1, (hiff l hl.2 d).mp hd⟩
    · rintro ⟨hfirst, hdraft⟩
      exact ⟨draft'.2, (hiff l hl.2 _).mpr hdraft, Prod.ext (hl.1.unique hfirst) rfl⟩

end

theorem follows : ∀ {τ : Type} {fs : Fields τ} {e : Entry}, (fs.names.map Bytes.ofString).Nodup →
    fs.Decides budget e → ∀ draft : fs.Draft, fs.Follows budget e draft
  | _, .nil, e, _, h, draft => by
    have hskip : (Reader.skip budget).Reads e.value () := h
    exact ⟨.ok draft, hskip.last (Reads.pure draft),
      fun l _ draft' => ⟨fun _ => trivial, fun _ => rfl⟩⟩
  | _, .cons name value absent rest, e, hnodup, h, draft => by
    obtain ⟨seen, draft⟩ := draft
    rw [names, List.map_cons, List.nodup_cons] at hnodup
    unfold Decides at h
    by_cases hkey : e.key = Bytes.ofString name
    · rw [if_pos hkey] at h
      exact follows_self hkey (hkey ▸ hnodup.1) h seen draft
    · rw [if_neg hkey] at h
      exact follows_other hkey seen (follows hnodup.2 h draft)

/-- Whether the key of an entry is read, and it is settled what comes of its value. -/
structure Admits (fs : Fields τ) (budget : Nat) (e : Entry) : Prop where
  keyed : e.IsKeyed
  decides : fs.Decides budget e

theorem answer_entry {fs : Fields τ} {e : Entry} {l : List Entry} {draft : fs.Draft}
    (hfs : (fs.names.map Bytes.ofString).Nodup) (he : fs.Admits budget e) :
    (fs.entry budget draft).Settles e.bytes ∧ (fs.Saw budget l draft → ∀ draft',
      (fs.entry budget draft).answer e.bytes = .ok draft' ↔ fs.Saw budget (l ++ [e]) draft') := by
  obtain ⟨x, hx, hiff⟩ := follows hfs he.decides draft
  have hentry : (fs.entry budget draft).Answers e.bytes x :=
    he.keyed.reads_key.answers_bind (f := fun key => fs.proceed budget key draft) hx
  refine ⟨hentry.settles, fun hl draft' => ?_⟩
  rw [hentry.answer_eq]
  exact hiff l hl draft'

/-! ### All entries -/

/-- The draft that is left by some entries is what was seen of them all. -/
theorem foldlM_entry {fs : Fields τ} (hfs : (fs.names.map Bytes.ofString).Nodup) :
    ∀ {more l : List Entry} {draft : fs.Draft}, (∀ e ∈ more, fs.Admits budget e) →
      fs.Saw budget l draft → ∀ draft',
        more.foldlM (fun draft e => (fs.entry budget draft).answer e.bytes) draft = .ok draft' ↔
          fs.Saw budget (l ++ more) draft'
  | [], l, draft, _, hl, draft' => by
    rw [List.append_nil]
    constructor
    · rintro ⟨⟩
      exact hl
    · exact fun h => congrArg Except.ok (hl.unique h)
  | e :: more, l, draft, hmore, hl, draft' => by
    have hfirst := (answer_entry hfs (hmore e List.mem_cons_self)).2 hl
    have hrest : ∀ {draft₁ : fs.Draft}, fs.Saw budget (l ++ [e]) draft₁ →
        (more.foldlM (fun draft e => (fs.entry budget draft).answer e.bytes) draft₁ = .ok draft' ↔
          fs.Saw budget (l ++ [e] ++ more) draft') := fun h₁ =>
      foldlM_entry hfs (fun e he => hmore e (List.mem_cons_of_mem _ he)) h₁ draft'
    rw [List.foldlM_cons, List.append_cons, bind_eq_ok]
    constructor
    · rintro ⟨draft₁, h₁, h⟩
      exact (hrest ((hfirst draft₁).mp h₁)).mp h
    · intro h
      obtain ⟨draft₁, h₁⟩ := h.of_append
      exact ⟨draft₁, (hfirst draft₁).mpr h₁, (hrest h₁).mpr h⟩

/-- Whether a value is what the values given for a field come to. -/
def Gives (r : Reader α) (absent : Option α) : List Bytes → α → Prop
  | [], a => absent = some a
  | [value], a => r.Reads value a
  | _ :: _ :: _, _ => False

theorem Gives.cases {r : Reader α} {absent : Option α} {values : List Bytes} {a : α}
    (h : Gives r absent values a) :
    (values = [] ∧ absent = some a) ∨ ∃ value, values = [value] ∧ r.Reads value a := by
  rcases values with _ | ⟨value, _ | ⟨_, _⟩⟩
  · exact .inl ⟨rfl, h⟩
  · exact .inr ⟨value, rfl, h⟩
  · exact h.elim

/-- Whether a structure is what some entries come to, field by field. -/
def Accounts (budget : Nat) : {τ : Type} → (fs : Fields τ) → List Entry → τ → Prop
  | _, .nil, _, _ => True
  | _, .cons name value absent rest, l, t =>
    Gives (value budget) absent (valuesOf (Bytes.ofString name) l) t.1 ∧ rest.Accounts budget l t.2

theorem gives_iff {r : Reader α} {absent : Option α} {values : List Bytes} {a : α} :
    Gives r absent values a ↔ ∃ seen, Sees r values seen ∧ (seen <|> absent) = some a := by
  match values with
  | [] => exact ⟨fun h => ⟨none, rfl, h⟩, fun ⟨_, hseen, h⟩ => by cases hseen; exact h⟩
  | [value] =>
    constructor
    · exact fun h => ⟨some a, ⟨a, rfl, h⟩, rfl⟩
    · rintro ⟨_, ⟨a', rfl, hread⟩, h⟩
      cases h
      exact hread
  | _ :: _ :: _ => exact ⟨False.elim, fun ⟨_, hseen, _⟩ => hseen.elim⟩

theorem accounts_iff : ∀ {τ : Type} {fs : Fields τ} {l : List Entry} {t : τ},
    fs.Accounts budget l t ↔ ∃ draft, fs.Saw budget l draft ∧ fs.finish draft = some t
  | _, .nil, _, _ => ⟨fun _ => ⟨(), trivial, rfl⟩, fun _ => trivial⟩
  | _, .cons name value absent rest, l, (a, t) => by
    unfold Accounts
    rw [gives_iff, accounts_iff]
    constructor
    · rintro ⟨⟨seen, hseen, ha⟩, draft, hdraft, ht⟩
      refine ⟨(seen, draft), ⟨hseen, hdraft⟩, ?_⟩
      show (do return (← seen <|> absent, ← rest.finish draft)) = some (a, t)
      rw [ha, ht]
      rfl
    · rintro ⟨⟨seen, draft⟩, ⟨hseen, hdraft⟩, h⟩
      change (do return (← seen <|> absent, ← rest.finish draft)) = some (a, t) at h
      cases hfirst : (seen <|> absent) with
      | none => rw [hfirst] at h; cases h
      | some a' =>
        cases hrest : rest.finish draft with
        | none => rw [hfirst, hrest] at h; cases h
        | some t' =>
          rw [hfirst, hrest] at h
          cases h
          exact ⟨⟨seen, hseen, hfirst⟩, draft, hdraft, hrest⟩

/-- How to go on after the last entry. -/
def close (fs : Fields τ) (draft : fs.Draft) : Reader τ :=
  match fs.finish draft with
  | some t => return t
  | none => MonadExcept.throw Error.semantic

theorem answers_close (fs : Fields τ) (draft : fs.Draft) :
    (fs.close draft).Answers [] ((fs.finish draft).elim (.error .semantic) .ok) := by
  unfold close
  cases fs.finish draft with
  | some t => exact (Reads.pure t).answers
  | none => exact Reader.answers_throw _ _

/-- A structure is read from the entries of a map exactly if it is what they come to. -/
theorem run_decoder_eq_ok {fs : Fields τ} (hfs : (fs.names.map Bytes.ofString).Nodup)
    {l : List Entry} (hl : ∀ e ∈ l, fs.Admits (depthLimit - 1) e) {bytes : Bytes}
    (hbytes : Encloses 5 l.length (l.flatMap Entry.bytes) bytes) {t : τ} :
    fs.decoder.run bytes = .ok t ↔ fs.Accounts (depthLimit - 1) l t := by
  obtain ⟨head, length, body, rfl, hhead, hbody⟩ := hbytes.split Reader.announces_map
  have hsettles : ∀ draft, ∀ e ∈ l, (fs.entry (depthLimit - 1) draft).Settles e.bytes :=
    fun draft e he => (answer_entry (l := []) hfs (hl e he)).1
  have hitems := Reader.answers_items hsettles (fun e he => (hl e he).keyed.opens) hbody fs.blank
  have hall : (fs.decoder depthLimit).Answers (head ++ body) _ :=
    (hhead.past hhead.ne_nil nofun).answers_bind (hitems.last fun draft _ => answers_close fs draft)
  show (fs.decoder depthLimit).answer (head ++ body) = _ ↔ _
  rw [hall.answer_eq, bind_eq_ok, accounts_iff]
  refine exists_congr fun draft => and_congr ?_ ?_
  · rw [foldlM_entry hfs hl fs.saw_blank, List.nil_append]
  · cases fs.finish draft with
    | some t' => simp
    | none => simp

end Fields

end SecureSession.Cbor
