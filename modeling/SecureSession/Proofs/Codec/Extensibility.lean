import SecureSession.Proofs.Cbor.Arrangements
import SecureSession.Proofs.Codec.Frames

/-! # Messages with more fields

A message is read from its fields in whatever order they come, and entries that no field is named by
may stand between them, so that later versions may add some. Every field has to be there, once, and
a key has to be one. -/

namespace SecureSession

open Cbor (Decoder Encloses Encodes Entry Fields Item depthLimit)
open Cbor.Entry (valuesOf ofField)
open Cbor.Fields (Written)

/-! ### Keys that are none -/

/-- An array of numbers that has not as many as a key has bytes. -/
def Cbor.IsMisfit (bytes : Bytes) : Prop :=
  ∃ depth ints, Encodes depth (.array ints) bytes ∧ (∀ item ∈ ints, item.IsInteger) ∧
    ints.length ≠ 32

theorem Cbor.Decoder.settles_misfit {bytes : Bytes} (h : Cbor.IsMisfit bytes) {budget : Nat} :
    (Decoder.octets.optional (budget + 1)).Settles bytes ∧
      ∀ {field : Option Bytes}, field.elim 0 List.length = 32 →
        ¬(Decoder.octets.optional (budget + 1)).Reads bytes field := by
  obtain ⟨depth, ints, hbytes, hints, hlength⟩ := h
  have hoctets : (Decoder.octets (budget + 1)).Settles bytes ∧ ∀ raw,
      (Decoder.octets (budget + 1)).Reads bytes raw → raw.length = ints.length :=
    Decoder.settles_octets hbytes hints
  obtain ⟨hsettles, hraw⟩ := hoctets
  have hoptional := Decoder.answers_optional (Decoder.present_encodes hbytes) hsettles
  refine ⟨hoptional.settles, fun hfield hread => ?_⟩
  obtain ⟨raw, hoctets, rfl⟩ :=
    map_eq_ok.mp (hoptional.answer_eq.symm.trans hread.answers.answer_eq)
  exact hlength ((hraw raw (hsettles.answer_eq_ok.mp hoctets)).symm.trans hfield)

/-! ### What a message needs -/

namespace Cbor.Fields

variable {τ α : Type} {keys : List String}

/-- Whether the value of a field is not left out, and not what a misfit reads
as if it has to be a key. -/
def IsGivenAndNoMisfit (keys : List String) (name : String) (value : Decoder α)
    (absent : Option α) (a : α) : Prop :=
  absent ≠ some a ∧ (Bytes.ofString name ∈ keys.map Bytes.ofString → ∀ bytes, IsMisfit bytes →
    (value (depthLimit - 1)).Settles bytes ∧ ¬(value (depthLimit - 1)).Reads bytes a)

/-- Whether no field is left out, and no key is what a misfit reads as. -/
def Whole (keys : List String) : {τ : Type} → Fields τ → τ → Prop
  | _, .nil, _ => True
  | _, .cons name value absent rest, t =>
    IsGivenAndNoMisfit keys name value absent t.1 ∧ rest.Whole keys t.2

/-- What comes to a whole structure gives every field once, and no misfit for a key. -/
theorem Whole.valuesOf_eq : ∀ {τ : Type} {fs : Fields τ} {l : List Entry} {t : τ}, fs.Whole keys t →
    fs.Accounts (depthLimit - 1) l t →
    ∀ name ∈ fs.names, ∃ v, valuesOf (Bytes.ofString name) l = [v] ∧
      (Bytes.ofString name ∈ keys.map Bytes.ofString → ¬IsMisfit v)
  | _, .nil, _, _, _, _, _, hname => nomatch hname
  | _, .cons name value absent rest, l, t, h, hl, name', hname => by
    obtain ⟨⟨habsent, hmisfit⟩, hrest⟩ := h
    obtain ⟨hgives, hl⟩ := hl
    rw [names, List.mem_cons] at hname
    obtain rfl | hname := hname
    · obtain ⟨-, hgiven⟩ | ⟨v, hvalues, hread⟩ := hgives.cases
      · exact absurd hgiven habsent
      · exact ⟨v, hvalues, fun hkey hv => (hmisfit hkey v hv).2 hread⟩
    · exact hrest.valuesOf_eq hl name' hname

theorem Whole.decides : ∀ {τ : Type} {fs : Fields τ} {e : Entry} {t : τ}, fs.Whole keys t →
    e.key ∈ fs.names.map Bytes.ofString → e.key ∈ keys.map Bytes.ofString → IsMisfit e.value →
      fs.Decides (depthLimit - 1) e
  | _, .nil, _, _, _, hname, _, _ => nomatch hname
  | _, .cons name value absent rest, e, t, h, hname, hkey, hvalue => by
    unfold Decides
    split_ifs with heq
    · exact (h.1.2 (heq ▸ hkey) _ hvalue).1
    · rw [names, List.map_cons, List.mem_cons] at hname
      exact h.2.decides (hname.resolve_left heq) hkey hvalue

/-! ### Entries of a message -/

theorem decides_extension {e : Entry} :
    ∀ {τ : Type} {fs : Fields τ}, e.key ∉ fs.names.map Bytes.ofString →
    (Reader.skip (depthLimit - 1)).Reads e.value () → fs.Decides (depthLimit - 1) e
  | _, .nil, _, h => h
  | _, .cons name value absent rest, hkey, h => by
    rw [names, List.map_cons, List.mem_cons, not_or] at hkey
    unfold Decides
    rw [if_neg hkey.1]
    exact decides_extension hkey.2 h

variable {fs : Fields τ} {items : List (String × Item)} {t : τ}

theorem Written.decides (h : Written 1 fs items t) (hfs : (fs.names.map Bytes.ofString).Nodup)
    {f : String × Item} (hf : f ∈ items) : fs.Decides (depthLimit - 1) (ofField f) := by
  induction h with
  | nil => cases hf
  | @cons _ _ name _ _ rest item items _ _ ha hrest ih =>
    rw [names, List.map_cons, List.nodup_cons] at hfs
    unfold Decides
    rw [List.mem_cons] at hf
    obtain rfl | hf := hf
    · rw [if_pos (show (ofField (name, item)).key = Bytes.ofString name from rfl)]
      exact (ha _ (by decide)).settles
    · have hmem : f.1 ∈ rest.names := hrest.names_eq ▸ List.mem_map_of_mem hf
      have hne : (ofField f).key ≠ Bytes.ofString name := fun heq =>
        hfs.1 (List.mem_map.mpr ⟨f.1, hmem, heq⟩)
      rw [if_neg hne]
      exact ih hfs.2 hf

/-- What was written comes to the structure, wherever its entries stand. -/
theorem Written.accounts (h : Written 1 fs items t) {l : List Entry}
    (hl : ∀ f ∈ items, valuesOf (Bytes.ofString f.1) l = [f.2.encode]) :
    fs.Accounts (depthLimit - 1) l t := by
  induction h with
  | nil => trivial
  | @cons _ _ name _ _ _ item items _ _ ha _ ih =>
    unfold Accounts
    rw [hl (name, item) List.mem_cons_self]
    exact ⟨ha _ (by decide), ih fun f hf => hl f (List.mem_cons_of_mem _ hf)⟩

end Cbor.Fields

/-! ### Frames -/

/-- An entry that no field is named by: any text for its key, and for its value any item that nests
no deeper than can be read. -/
structure Cbor.Entry.IsExtension (names : List String) (e : Entry) : Prop where
  keyed : e.IsKeyed
  unknown : e.key ∉ names.map Bytes.ofString
  value : ∃ depth item, depth < depthLimit ∧ Encodes depth item e.value

namespace Frame

/-- Whether a message in a version that is read has a map of some entries for its body. -/
def Carries (l : List Entry) (bytes : Bytes) : Prop :=
  ∃ first body, bytes = first :: body ∧ Version.IsRead first ∧
    Encloses 5 l.length (l.flatMap Entry.bytes) body

variable {τ α : Type} {fs : Fields τ} {l : List Entry} {bytes : Bytes} {t : τ}

theorem decode_eq_ok (hfs : (fs.names.map Bytes.ofString).Nodup)
    (hl : ∀ e ∈ l, fs.Admits (depthLimit - 1) e) (h : Carries l bytes) :
    decode fs bytes = .ok t ↔ fs.Accounts (depthLimit - 1) l t := by
  obtain ⟨first, body, rfl, hfirst, hbody⟩ := h
  rw [decode_of_isRead hfirst, mapError_eq_ok]
  exact Fields.run_decoder_eq_ok hfs hl hbody

end Frame

/-- The entries of a message of which one is spoiled: left out, given twice, or not
the key that it has to be. -/
inductive Spoils (fields : List (String × Item)) (keys : List String) : List Entry → Prop
  | removed (before after : List (String × Item)) {f : String × Item} :
    fields = before ++ f :: after →
      Spoils fields keys ((before ++ after).map ofField)
  | repeated {f : String × Item} : f ∈ fields → Spoils fields keys (ofField f :: fields.map ofField)
  | misfit (before after : List (String × Item)) {f : String × Item} {value : Bytes} :
      fields = before ++ f :: after → f.1 ∈ keys → Cbor.IsMisfit value →
      Spoils fields keys ({ ofField f with value } :: (before ++ after).map ofField)

/-- What a decoder makes of the fields of a message in any order, with any extensions between them;
`keys` are the names of those that have to be keys. -/
structure Extensible {α : Type} (decode : Bytes → Except ProtocolError α)
    (fields : List (String × Item)) (keys : List String) (m : α) : Prop where
  arranged : ∀ {extensions l : List Entry} {bytes : Bytes},
    (∀ e ∈ extensions, e.IsExtension (fields.map Prod.fst)) →
    l.Perm (fields.map ofField ++ extensions) → Frame.Carries l bytes → decode bytes = .ok m
  spoiled : ∀ {own extensions l : List Entry} {bytes : Bytes}, Spoils fields keys own →
    (∀ e ∈ extensions, e.IsExtension (fields.map Prod.fst)) →
    l.Perm (own ++ extensions) → Frame.Carries l bytes → ∃ e, decode bytes = .error e ∧ e.IsDefect

section

variable {τ α : Type} {fs : Fields τ} {fields : List (String × Item)} {keys : List String} {t : τ}
  {own extensions l : List Entry}

/-- Extensions give no field a value. -/
theorem valuesOf_arranged (hextensions : ∀ e ∈ extensions, e.IsExtension (fields.map Prod.fst))
    (hl : l.Perm (own ++ extensions)) {name : String} (hname : name ∈ fields.map Prod.fst) :
    (valuesOf (Bytes.ofString name) l).Perm (valuesOf (Bytes.ofString name) own) := by
  have hnone : valuesOf (Bytes.ofString name) extensions = [] :=
    Entry.valuesOf_of_ne fun e he heq =>
      (hextensions e he).unknown (heq ▸ List.mem_map_of_mem hname)
  have hall : (valuesOf (Bytes.ofString name) l).Perm
      (valuesOf (Bytes.ofString name) (own ++ extensions)) := Entry.valuesOf_perm hl
  rwa [Entry.valuesOf_append, hnone, List.append_nil] at hall

/-- No other field is named as the one between. -/
theorem valuesOf_others {before after : List (String × Item)} {f : String × Item}
    (hnodup : ((fields.map Prod.fst).map Bytes.ofString).Nodup)
    (hf : fields = before ++ f :: after) :
    valuesOf (Bytes.ofString f.1) ((before ++ after).map ofField) = [] := by
  subst hf
  have hperm : ((before ++ f :: after).map Prod.fst).map Bytes.ofString |>.Perm
      (Bytes.ofString f.1 :: ((before ++ after).map Prod.fst).map Bytes.ofString) :=
    (List.perm_middle.map Prod.fst).map Bytes.ofString
  have hfresh := (List.nodup_cons.mp (hperm.nodup_iff.mp hnodup)).1
  refine Entry.valuesOf_of_ne fun e he heq => hfresh ?_
  obtain ⟨g, hg, rfl⟩ := List.mem_map.mp he
  exact List.mem_map.mpr ⟨g.1, List.mem_map_of_mem hg, heq⟩

theorem valuesOf_own (hnodup : ((fields.map Prod.fst).map Bytes.ofString).Nodup) {f : String × Item}
    (hf : f ∈ fields) : valuesOf (Bytes.ofString f.1) (fields.map ofField) = [f.2.encode] := by
  obtain ⟨before, after, hsplit⟩ := List.append_of_mem hf
  have hothers := valuesOf_others hnodup hsplit
  have hself : valuesOf (Bytes.ofString f.1) [ofField f] = [f.2.encode] := Entry.valuesOf_self
  rw [List.map_append, Entry.valuesOf_append, List.append_eq_nil_iff] at hothers
  rw [hsplit, List.map_append, List.map_cons, List.append_cons, Entry.valuesOf_append,
    Entry.valuesOf_append, hothers.1, hothers.2, hself]
  rfl

/-- A spoiled message gives some field no value, two, or one that does not fit. -/
theorem Spoils.unfit (h : Spoils fields keys own)
    (hnodup : ((fields.map Prod.fst).map Bytes.ofString).Nodup) : ∃ name ∈ fields.map Prod.fst, ∀ v,
      valuesOf (Bytes.ofString name) own = [v] →
        Bytes.ofString name ∈ keys.map Bytes.ofString ∧ Cbor.IsMisfit v := by
  cases h with
  | @removed before after f hf =>
    refine ⟨f.1, hf ▸ by simp, fun v hv => ?_⟩
    rw [valuesOf_others hnodup hf] at hv
    cases hv
  | @repeated f hf =>
    refine ⟨f.1, List.mem_map_of_mem hf, fun v hv => ?_⟩
    have hself : valuesOf (Bytes.ofString f.1) [ofField f] = [f.2.encode] := Entry.valuesOf_self
    rw [← List.singleton_append, Entry.valuesOf_append, valuesOf_own hnodup hf, hself] at hv
    cases hv
  | @misfit before after f value hf hkey hvalue =>
    refine ⟨f.1, hf ▸ by simp, fun v hv => ?_⟩
    have hself : valuesOf (Bytes.ofString f.1) [{ ofField f with value }] = [value] :=
      Entry.valuesOf_self (e := { ofField f with value })
    rw [← List.singleton_append, Entry.valuesOf_append, valuesOf_others hnodup hf, hself] at hv
    cases hv
    exact ⟨List.mem_map_of_mem hkey, hvalue⟩

/-- Whatever is spoiled, an entry is as it was written, or a misfit in place of a key. -/
theorem Spoils.mem (h : Spoils fields keys own) {e : Entry} (he : e ∈ own) :
    ∃ f ∈ fields, e = ofField f ∨
      f.1 ∈ keys ∧ ∃ value, Cbor.IsMisfit value ∧ e = { ofField f with value } := by
  cases h with
  | @removed before after f hf =>
    obtain ⟨g, hg, rfl⟩ := List.mem_map.mp he
    refine ⟨g, ?_, .inl rfl⟩
    rw [hf]
    exact List.perm_middle.mem_iff.mpr (List.mem_cons_of_mem f hg)
  | @repeated f hf =>
    obtain rfl | he := List.mem_cons.mp he
    · exact ⟨f, hf, .inl rfl⟩
    · obtain ⟨g, hg, rfl⟩ := List.mem_map.mp he
      exact ⟨g, hg, .inl rfl⟩
  | @misfit before after f value hf hkey hvalue =>
    obtain rfl | he := List.mem_cons.mp he
    · exact ⟨f, hf ▸ by simp, .inr ⟨hkey, value, hvalue, rfl⟩⟩
    · obtain ⟨g, hg, rfl⟩ := List.mem_map.mp he
      refine ⟨g, ?_, .inl rfl⟩
      rw [hf]
      exact List.perm_middle.mem_iff.mpr (List.mem_cons_of_mem f hg)

theorem Cbor.Fields.Written.admits (hw : Written 1 fs fields t) (hfs : fs.WellNamed)
    {f : String × Item} (hf : f ∈ fields) : fs.Admits (depthLimit - 1) (ofField f) where
  keyed := Entry.isKeyed_ofField (hfs.2.1 f.1 (hw.names_eq ▸ List.mem_map_of_mem hf))
  decides := hw.decides hfs.1 hf

theorem Spoils.admits (h : Spoils fields keys own) (hw : Written 1 fs fields t) (hfs : fs.WellNamed)
    (ht : fs.Whole keys t) {e : Entry} (he : e ∈ own) : fs.Admits (depthLimit - 1) e := by
  obtain ⟨f, hf, rfl | ⟨hkey, value, hvalue, rfl⟩⟩ := h.mem he
  · exact hw.admits hfs hf
  · obtain ⟨hhead, hlength, hvalid⟩ := (hw.admits hfs hf).keyed
    have hname : Bytes.ofString f.1 ∈ fs.names.map Bytes.ofString :=
      List.mem_map_of_mem (hw.names_eq ▸ List.mem_map_of_mem hf)
    exact ⟨⟨hhead, hlength, hvalid⟩, ht.decides hname (List.mem_map_of_mem hkey) hvalue⟩

/-- So do extensions, which are passed over. -/
theorem admits_arranged (hnames : fields.map Prod.fst = fs.names)
    (hown : ∀ e ∈ own, fs.Admits (depthLimit - 1) e)
    (hextensions : ∀ e ∈ extensions, e.IsExtension (fields.map Prod.fst))
    (hl : l.Perm (own ++ extensions)) {e : Entry} (he : e ∈ l) : fs.Admits (depthLimit - 1) e := by
  obtain hmem | hmem := List.mem_append.mp (hl.mem_iff.mp he)
  · exact hown e hmem
  · obtain ⟨hkeyed, hunknown, depth, item, hdepth, hitem⟩ := hextensions e hmem
    refine ⟨hkeyed, Fields.decides_extension (hnames ▸ hunknown) ?_⟩
    exact hitem.reads_skip _ (Nat.le_pred_of_lt hdepth)

variable {assemble : τ → Except ProtocolError α} {m : α}

/-- A message that needs every field and its keys to be keys is read from its fields in any order,
with any extensions, and is refused if one of them is spoiled. -/
theorem Frame.extensible (hw : Written 1 fs fields t) (hfs : fs.WellNamed) (ht : assemble t = .ok m)
    (hdefects : ∀ t, OnlyDefects (assemble t))
    (hwhole : ∀ {t m}, assemble t = .ok m → fs.Whole keys t) :
    Extensible (fun bytes => Frame.decode fs bytes >>= assemble) fields keys m := by
  have hnames : fields.map Prod.fst = fs.names := hw.names_eq
  constructor
  · intro extensions l bytes hextensions hl hbytes
    have hown : ∀ e ∈ fields.map ofField, fs.Admits (depthLimit - 1) e := by
      intro e he
      obtain ⟨f, hf, rfl⟩ := List.mem_map.mp he
      exact hw.admits hfs hf
    have hadmits : ∀ e ∈ l, fs.Admits (depthLimit - 1) e := fun e =>
      admits_arranged hnames hown hextensions hl
    have haccounts : fs.Accounts (depthLimit - 1) l t := hw.accounts fun f hf => by
      have hvalues := valuesOf_arranged hextensions hl (List.mem_map_of_mem (f := Prod.fst) hf)
      rwa [valuesOf_own (hnames ▸ hfs.1) hf, List.perm_singleton] at hvalues
    show Frame.decode fs bytes >>= assemble = .ok m
    rw [(Frame.decode_eq_ok hfs.1 hadmits hbytes).mpr haccounts]
    exact ht
  · intro own extensions l bytes hown hextensions hl hbytes
    have hadmits : ∀ e ∈ l, fs.Admits (depthLimit - 1) e := fun e =>
      admits_arranged hnames (fun e => hown.admits hw hfs (hwhole ht)) hextensions hl
    show ∃ e, Frame.decode fs bytes >>= assemble = .error e ∧ e.IsDefect
    cases hresult : Frame.decode fs bytes >>= assemble with
    | error e =>
      obtain ⟨first, body, rfl, hfirst, -⟩ := hbytes
      exact ⟨e, rfl, ((Frame.onlyDefects_of_isRead hfirst body).bind hdefects) e hresult⟩
    | ok m' =>
      -- were it read, the spoiled field would have one value, and that would be no misfit
      obtain ⟨t', hdecode, hassemble⟩ := bind_eq_ok.mp hresult
      have haccounts := (Frame.decode_eq_ok hfs.1 hadmits hbytes).mp hdecode
      obtain ⟨name, hname, hunfit⟩ := hown.unfit (hnames ▸ hfs.1)
      obtain ⟨v, hv, hfit⟩ := (hwhole hassemble).valuesOf_eq haccounts name (hnames ▸ hname)
      have hvalues := valuesOf_arranged hextensions hl hname
      rw [hv, List.singleton_perm] at hvalues
      obtain ⟨hkey, hmisfit⟩ := hunfit v hvalues.symm
      exact absurd hmisfit (hfit hkey)

end

/-! ### Every message -/

theorem Cbor.Fields.IsGivenAndNoMisfit.of_key {keys : List String} {name label : String}
    {field : Option Bytes} {k : PublicKey} (h : Frame.requiredKey label field = .ok k) :
    Fields.IsGivenAndNoMisfit keys name Decoder.octets.optional (some none) field := by
  have hlength := Frame.length_of_requiredKey h
  refine ⟨?_, fun _ bytes hbytes => ?_⟩
  · rintro ⟨⟩
    cases hlength
  · obtain ⟨hsettles, hnot⟩ := Decoder.settles_misfit hbytes
    exact ⟨hsettles, hnot hlength⟩

theorem Cbor.Fields.IsGivenAndNoMisfit.of_value {α : Type} {keys : List String}
    {name label : String} {value : Decoder α} {field : Option α} {a : α}
    (h : Frame.required label field = .ok a)
    (hname : Bytes.ofString name ∉ keys.map Bytes.ofString) :
    Fields.IsGivenAndNoMisfit keys name value.optional (some none) field := by
  cases Frame.required_eq_ok.mp h
  exact ⟨nofun, fun hkey => absurd hkey hname⟩

theorem RatchetMessage.whole_of_assemble {t} {m : RatchetMessage} (h : assemble t = .ok m) :
    fields.Whole ["sender_ephemeral"] t := by
  obtain ⟨senderEphemeral, counter, previousCounter, ciphertext, _⟩ := t
  obtain ⟨_, hsender, h⟩ := bind_eq_ok.mp h
  obtain ⟨_, hcounter, h⟩ := bind_eq_ok.mp h
  obtain ⟨_, hprevious, h⟩ := bind_eq_ok.mp h
  obtain ⟨_, hciphertext, -⟩ := bind_eq_ok.mp h
  exact ⟨.of_key hsender, .of_value hcounter (by decide), .of_value hprevious (by decide),
    .of_value hciphertext (by decide), trivial⟩

theorem PreKeyMessage.whole_of_assemble {t} {m : PreKeyMessage} (h : assemble t = .ok m) :
    fields.Whole ["base_key", "identity_key"] t := by
  obtain ⟨prekeyId, baseKey, identityKey, message, _⟩ := t
  obtain ⟨_, hmessage, h⟩ := bind_eq_ok.mp h
  obtain ⟨_, -, h⟩ := bind_eq_ok.mp h
  obtain ⟨_, hprekey, h⟩ := bind_eq_ok.mp h
  obtain ⟨_, hbase, h⟩ := bind_eq_ok.mp h
  obtain ⟨_, hidentity, -⟩ := bind_eq_ok.mp h
  exact ⟨.of_value hprekey (by decide), .of_key hbase, .of_key hidentity,
    .of_value hmessage (by decide), trivial⟩

theorem PreKeyBundle.whole_of_assemble {t} {b : PreKeyBundle} (h : assemble t = .ok b) :
    fields.Whole ["prekey", "identity_key"] t := by
  obtain ⟨deviceId, prekeyId, prekey, identityKey, _⟩ := t
  obtain ⟨_, hdevice, h⟩ := bind_eq_ok.mp h
  obtain ⟨_, hprekeyId, h⟩ := bind_eq_ok.mp h
  obtain ⟨_, hprekey, h⟩ := bind_eq_ok.mp h
  obtain ⟨_, hidentity, -⟩ := bind_eq_ok.mp h
  exact ⟨.of_value hdevice (by decide), .of_value hprekeyId (by decide), .of_key hprekey,
    .of_key hidentity, trivial⟩

theorem KeyExchangeMessage.whole_of_assemble {t} {m : KeyExchangeMessage} (h : assemble t = .ok m) :
    fields.Whole ["base_key", "ephemeral_key", "identity_key"] t := by
  obtain ⟨sequence, flags, baseKey, ephemeralKey, identityKey, _⟩ := t
  obtain ⟨_, hflags, h⟩ := bind_eq_ok.mp h
  obtain ⟨_, -, h⟩ := bind_eq_ok.mp h
  obtain ⟨_, hsequence, h⟩ := bind_eq_ok.mp h
  obtain ⟨_, hbase, h⟩ := bind_eq_ok.mp h
  obtain ⟨_, hephemeral, h⟩ := bind_eq_ok.mp h
  obtain ⟨_, hidentity, -⟩ := bind_eq_ok.mp h
  exact ⟨.of_value hsequence (by decide), .of_value hflags (by decide), .of_key hbase,
    .of_key hephemeral, .of_key hidentity, trivial⟩

/-- Every message is read from its fields in any order, in either form of a map, under
any first byte of a version that is read, with any entries between them that no field is
named by. It is refused if a field is left out or given twice, and if a key is given as
another number of numbers. -/
theorem messages_extensible :
    (∀ m : RatchetMessage, m.ciphertext.length < UInt64.size →
      Extensible RatchetMessage.decode m.entries ["sender_ephemeral"] m) ∧
    (∀ m : PreKeyMessage, m.message.encode.length < UInt64.size →
      Extensible PreKeyMessage.decode m.entries ["base_key", "identity_key"] m) ∧
    (∀ b : PreKeyBundle, Extensible PreKeyBundle.decode b.entries ["prekey", "identity_key"] b) ∧
    ∀ m : KeyExchangeMessage, m.flags.IsValid →
      Extensible KeyExchangeMessage.decode m.entries
        ["base_key", "ephemeral_key", "identity_key"] m := by
  refine ⟨fun m hm => ?_, fun m hm => ?_, fun b => ?_, fun m hm => ?_⟩
  · exact Frame.extensible (RatchetMessage.written hm) RatchetMessage.fields_wellNamed
      m.assemble_parts RatchetMessage.onlyDefects_assemble RatchetMessage.whole_of_assemble
  · exact Frame.extensible (PreKeyMessage.written hm) PreKeyMessage.fields_wellNamed
      (PreKeyMessage.assemble_parts hm) PreKeyMessage.onlyDefects_assemble
        PreKeyMessage.whole_of_assemble
  · exact Frame.extensible b.written PreKeyBundle.fields_wellNamed b.assemble_parts
      PreKeyBundle.onlyDefects_assemble PreKeyBundle.whole_of_assemble
  · exact Frame.extensible m.written KeyExchangeMessage.fields_wellNamed
      (KeyExchangeMessage.assemble_parts_of_isValid hm) KeyExchangeMessage.onlyDefects_assemble
      KeyExchangeMessage.whole_of_assemble

/-- A leg with its fields from the last to the first behind an array that no field is named
by, in a map that ends with a break; then without its number, with its flags twice, and with a
base key of one number. -/
theorem messages_extensible_reversed :
    let leg : KeyExchangeMessage := {
      sequence := 9
      flags := .response
      baseKey := ⟨.replicate 3⟩
      ephemeralKey := ⟨.replicate 1⟩
      identityKey := ⟨.replicate 2⟩ }
    let extension : Entry := {
      head := [0x78, 1]
      key := Bytes.ofString "x"
      value := [0x9f, 0xa1, 0x18, 5, 0x5f, 0x41, 0, 0xff, 0x20, 0xff] }
    let framed (own : List Entry) : Bytes :=
      0x2f :: 0xbf :: ((extension :: own.reverse).flatMap Entry.bytes ++ [0xff])
    let base : Entry := { ofField ("base_key", .null) with value := [0x81, 7] }
    KeyExchangeMessage.decode (framed (leg.entries.map ofField)) = .ok leg ∧
    (∃ e, KeyExchangeMessage.decode (framed (leg.entries.tail.map ofField)) = .error e ∧
      e.IsDefect) ∧
    (∃ e, KeyExchangeMessage.decode
      (framed (ofField ("flags", .unsigned 2) :: leg.entries.map ofField)) = .error e ∧
      e.IsDefect) ∧
    ∃ e, KeyExchangeMessage.decode (framed (base :: (leg.entries.eraseIdx 2).map ofField)) =
      .error e ∧ e.IsDefect := by
  intro leg extension framed base
  have hlong : Cbor.IsHead 0 5 [0x18, 5] := .inr ⟨0, by decide, by decide, rfl⟩
  have hsegments : Encodes 0 (.bytes [0]) [0x5f, 0x41, 0, 0xff] :=
    .bytes (.segmented [([0x41], [0])] (by simpa using .inl ⟨by decide, rfl⟩) (by simp))
  have hmap : Encodes 1 (.map [(.unsigned 5, .bytes [0])]) [0xa1, 0x18, 5, 0x5f, 0x41, 0, 0xff] :=
    .map [((.unsigned 5, [0x18, 5]), (.bytes [0], [0x5f, 0x41, 0, 0xff]))]
      (by simpa using .unsigned hlong) (by simpa using hsegments)
      (.counted [0xa1] (.inl ⟨by decide, rfl⟩))
  have hnegative : Encodes 1 (.negative 0) [0x20] := .negative (.inl ⟨by decide, rfl⟩)
  have harray : Encodes 2 (.array [.map [(.unsigned 5, .bytes [0])], .negative 0])
      extension.value :=
    .array [(_, [0xa1, 0x18, 5, 0x5f, 0x41, 0, 0xff]), (_, [0x20])]
      (by simpa using ⟨hmap, hnegative⟩) .broken
  have hextension : ∀ e ∈ [extension], e.IsExtension (leg.entries.map Prod.fst) := by
    refine List.forall_mem_singleton.mpr
      ⟨⟨.inr ⟨0, by decide, by decide, rfl⟩, by decide, by decide⟩, ?_, 2, _, by decide, harray⟩
    decide
  have hcarries : ∀ own, Frame.Carries (extension :: own.reverse) (framed own) := fun own =>
    ⟨0x2f, _, rfl, by decide, .broken⟩
  have hperm : ∀ own : List Entry, (extension :: own.reverse).Perm (own ++ [extension]) :=
    fun own =>
      ((List.reverse_perm own).cons extension).trans (List.perm_append_singleton extension own).symm
  have hleg := messages_extensible.2.2.2 leg (by decide)
  have hmisfit : Cbor.IsMisfit [0x81, 7] := by
    refine ⟨1, [.unsigned 7], ?_, by simp [Item.IsInteger], by decide⟩
    exact .array [(.unsigned 7, [7])] (by simpa using .unsigned (.inl ⟨by decide, rfl⟩))
      (.counted [0x81] (.inl ⟨by decide, rfl⟩))
  refine ⟨hleg.arranged hextension (hperm _) (hcarries _),
    hleg.spoiled (.removed [] _ rfl) hextension (hperm _) (hcarries _),
    hleg.spoiled (.repeated (List.mem_cons_of_mem _ List.mem_cons_self)) hextension (hperm _)
      (hcarries _),
    hleg.spoiled (.misfit (leg.entries.take 2) _ rfl (by decide) hmisfit) hextension (hperm _)
      (hcarries _)⟩

end SecureSession
