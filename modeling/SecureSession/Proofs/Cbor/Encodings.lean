import SecureSession.Proofs.Cbor.Answering
import SecureSession.Proofs.Cbor.Values

/-! # Every encoding of a data item

Others need not write data items the one way this library does. Heads may be longer than
they have to be, strings may come in segments, and arrays and maps may end with a break in
place of being counted. Whatever the form, an item is passed over in full within a budget
of the depth it nests to. -/

namespace SecureSession.Cbor

/-! ### Heads -/

/-- Whether some bytes are a head of a major type with an argument, be it in
more bytes than it takes. -/
def IsHead (major n : Nat) (bytes : Bytes) : Prop :=
  (n < 24 ∧ bytes = [UInt8.ofNat (32 * major + n)]) ∨
    ∃ k, k < 4 ∧ n < 256 ^ 2 ^ k ∧
      bytes = UInt8.ofNat (32 * major + (24 + k)) :: Bytes.ofNatBE (2 ^ k) n

/-- Whether some bytes are the head of a simple value. -/
def IsSimple (n : Nat) (bytes : Bytes) : Prop :=
  bytes = [UInt8.ofNat (224 + n)] ∨ bytes = [0xf8, UInt8.ofNat n]

/-- The shortest head is one. -/
theorem isHead_head {major n : Nat} (hn : n < UInt64.size) : IsHead major n (head major n) := by
  unfold head
  split_ifs with h0 h1 h2 h3
  · exact .inl ⟨h0, rfl⟩
  · exact .inr ⟨0, by decide, h1, rfl⟩
  · exact .inr ⟨1, by decide, h2, rfl⟩
  · exact .inr ⟨2, by decide, h3, rfl⟩
  · exact .inr ⟨3, by decide, hn, rfl⟩

namespace Reader

theorem reads_header_byte {b : UInt8} {argumentBytes : Bytes} {n : Option Nat} {h : Header}
    (hargument : (argument (b.toNat % 32)).Reads argumentBytes n)
    (hh : headerOf (b.toNat / 32) (b.toNat % 32) n = Pure.pure h) :
    header.Reads (b :: argumentBytes) h := by
  have hbyte : byte.Reads [b] b := fun _ => rfl
  exact hbyte.bind (hargument.last (hh ▸ Reads.pure h))

/-- A head is read as the header of its argument, however many bytes that takes. -/
theorem reads_isHead {major n : Nat} {bytes : Bytes} (hbytes : IsHead major n bytes)
    (hmajor : major < 8) {h : Header} (hh : ∀ minor, headerOf major minor (some n) = Pure.pure h) :
    header.Reads bytes h := by
  have hfirst : ∀ minor, minor < 32 → (UInt8.ofNat (32 * major + minor)).toNat / 32 = major ∧
      (UInt8.ofNat (32 * major + minor)).toNat % 32 = minor := fun minor hminor => by
    rw [UInt8.toNat_ofNat']
    omega
  obtain ⟨hn, rfl⟩ | ⟨k, hk, hn, rfl⟩ := hbytes
  · obtain ⟨hdiv, hmod⟩ := hfirst n (by omega)
    refine reads_header_byte (n := some n) ?_ ?_
    · rw [hmod, argument, if_pos hn]
      exact Reads.pure _
    · rw [hdiv, hmod, hh]
  · obtain ⟨hdiv, hmod⟩ := hfirst (24 + k) (by omega)
    refine reads_header_byte (n := some n) ?_ ?_
    · rw [hmod]
      refine reads_argument (24 + k) (by omega) (by omega) ?_ hn
      rw [Nat.add_sub_cancel_left, Nat.one_shiftLeft]
    · rw [hdiv, hmod, hh]

/-- Whether the heads of a major type announce a length, or that a break will come. -/
structure Announces (major : Nat) (kind : Option Nat → Header) : Prop where
  lt : major < 8
  some : ∀ minor n, headerOf major minor (some n) = Pure.pure (kind (some n))
  none : headerOf major 31 none = Pure.pure (kind none)
  ne_stop : ∀ length, kind length ≠ .stop

theorem announces_bytes : Announces 2 .bytes := ⟨by decide, fun _ _ => rfl, rfl, nofun⟩

theorem announces_text : Announces 3 .text := ⟨by decide, fun _ _ => rfl, rfl, nofun⟩

theorem announces_array : Announces 4 .array := ⟨by decide, fun _ _ => rfl, rfl, nofun⟩

theorem announces_map : Announces 5 .map := ⟨by decide, fun _ _ => rfl, rfl, nofun⟩

section

variable {major : Nat} {kind : Option Nat → Header} (h : Announces major kind)
include h

theorem Announces.reads {n : Nat} {head : Bytes} (hhead : IsHead major n head) :
    header.Reads head (kind (Option.some n)) := reads_isHead hhead h.lt fun minor => h.some minor n

theorem Announces.reads_indefinite :
    header.Reads [UInt8.ofNat (32 * major + 31)] (kind Option.none) := by
  have hlt := h.lt
  have hdiv : (UInt8.ofNat (32 * major + 31)).toNat / 32 = major := by
    rw [UInt8.toNat_ofNat']; omega
  have hmod : (UInt8.ofNat (32 * major + 31)).toNat % 32 = 31 := by rw [UInt8.toNat_ofNat']; omega
  refine reads_header_byte (n := Option.none) ?_ ?_
  · rw [hmod]
    exact Reads.pure Option.none
  · rw [hdiv, hmod, h.none]

end

theorem reads_isSimple {n : Nat} {bytes : Bytes} (h : IsSimple n bytes) (hn : 20 ≤ n)
    (hn' : n ≤ 23) : header.Reads bytes (.simple n) := by
  obtain rfl | rfl | rfl | rfl : n = 20 ∨ n = 21 ∨ n = 22 ∨ n = 23 := by omega
  all_goals
    obtain rfl | rfl := h
    · exact fun _ => rfl
    · exact fun _ => rfl

end Reader

/-! ### Strings and sequences -/

open Reader (Announces Opens Reads Spans)

/-- The encodings of a string of a major type: in one piece, or in segments behind an indefinite
head. Each piece has to be valid. -/
inductive EncodesString (major : Nat) (valid : Bytes → Prop) : (content bytes : Bytes) → Prop
  | whole {content head : Bytes} : IsHead major content.length head → valid content →
      EncodesString major valid content (head ++ content)
  | segmented (segments : List (Bytes × Bytes)) : (∀ p ∈ segments, IsHead major p.2.length p.1) →
      (∀ p ∈ segments, valid p.2) →
      EncodesString major valid (segments.flatMap Prod.snd)
        (UInt8.ofNat (32 * major + 31) :: (segments.flatMap (fun p => p.1 ++ p.2) ++ [0xff]))

/-- The encodings of a sequence of a major type with `n` items: counted by its
head, or ended by a break. -/
inductive Encloses (major n : Nat) (content : Bytes) : Bytes → Prop
  | counted (head : Bytes) : IsHead major n head → Encloses major n content (head ++ content)
  | broken : Encloses major n content (UInt8.ofNat (32 * major + 31) :: (content ++ [0xff]))

section

variable {major n : Nat} {kind : Option Nat → Header} {valid : Bytes → Prop} {content bytes : Bytes}

/-- A string is read by a step that takes each piece of it. -/
theorem EncodesString.reads {σ : Type} (hbytes : EncodesString major valid content bytes)
    (part : Header → Option (Option Nat)) (step : Nat → σ → Reader σ) (h : Announces major kind)
    (hpart : ∀ n, part (kind (some n)) = some (some n))
    (hstep : ∀ piece, valid piece → ∀ s, ∃ s', (step piece.length s).Reads piece s') (s : σ) :
    ∃ head length body s', bytes = head ++ body ∧ Reader.header.Reads head (kind length) ∧
      (Reader.segments part step length s).Reads body s' := by
  cases hbytes with
  | @whole _ head hhead hvalid =>
    obtain ⟨s', hs⟩ := hstep content hvalid s
    exact ⟨head, some content.length, content, s', rfl, h.reads hhead, hs⟩
  | segmented segments hheads hvalid =>
    obtain ⟨s', hs⟩ := Reader.reads_segments (fun n => h.ne_stop (some n)) hpart
      (fun p hp => h.reads (hheads p hp)) (fun s p hp => hstep p.2 (hvalid p hp) s) s
    exact ⟨_, none, _, s', rfl, h.reads_indefinite, hs⟩

/-- A sequence is a head and what that announces. -/
theorem Encloses.split (hbytes : Encloses major n content bytes) (h : Announces major kind) :
    ∃ head length body, bytes = head ++ body ∧ Reader.header.Reads head (kind length) ∧
      Spans n content length body := by
  cases hbytes with
  | counted head hhead => exact ⟨head, some n, content, rfl, h.reads hhead, .counted⟩
  | broken => exact ⟨_, none, content ++ [0xff], rfl, h.reads_indefinite, .broken⟩

theorem Encloses.opens (hbytes : Encloses major n content bytes) (h : Announces major kind) :
    Opens bytes := by
  obtain ⟨head, length, body, rfl, hhead, -⟩ := hbytes.split h
  exact (hhead.opens (h.ne_stop length)).append body

theorem EncodesString.opens (hbytes : EncodesString major valid content bytes)
    (h : Announces major kind) : Opens bytes := by
  cases hbytes with
  | whole hhead => exact ((h.reads hhead).opens (h.ne_stop _)).append _
  | segmented => exact (h.reads_indefinite.opens (h.ne_stop _)).append _

end

/-! ### Items -/

/-- Whether some bytes are an encoding of an item in which arrays and maps
nest to a depth at most. -/
inductive Encodes : (depth : Nat) → Item → Bytes → Prop
  | unsigned {depth n : Nat} {bytes : Bytes} : IsHead 0 n bytes → Encodes depth (.unsigned n) bytes
  | negative {depth n : Nat} {bytes : Bytes} : IsHead 1 n bytes → Encodes depth (.negative n) bytes
  | bytes {depth : Nat} {content bytes : Bytes} : EncodesString 2 (fun _ => True) content bytes →
      Encodes depth (.bytes content) bytes
  | text {depth : Nat} {content bytes : Bytes} :
      EncodesString 3 (fun piece => Utf8.isValid piece = true) content bytes →
      Encodes depth (.text content) bytes
  | bool {depth : Nat} {b : Bool} {bytes : Bytes} : IsSimple (if b then 21 else 20) bytes →
      Encodes depth (.bool b) bytes
  | null {depth : Nat} {bytes : Bytes} : IsSimple 22 bytes → Encodes depth .null bytes
  | array {depth : Nat} (parts : List (Item × Bytes)) {bytes : Bytes} :
      (∀ p ∈ parts, Encodes depth p.1 p.2) →
      Encloses 4 parts.length (parts.flatMap Prod.snd) bytes →
      Encodes (depth + 1) (.array (parts.map Prod.fst)) bytes
  | map {depth : Nat} (parts : List ((Item × Bytes) × Item × Bytes)) {bytes : Bytes} :
      (∀ p ∈ parts, Encodes depth p.1.1 p.1.2) → (∀ p ∈ parts, Encodes depth p.2.1 p.2.2) →
      Encloses 5 parts.length (parts.flatMap fun p => p.1.2 ++ p.2.2) bytes →
      Encodes (depth + 1) (.map (parts.map fun p => (p.1.1, p.2.1))) bytes

/-- Whether a head is all there is of an item, and that may be passed over. -/
def Header.IsPlain : Header → Prop
  | .unsigned _ | .negative _ => True
  | .simple n => 20 ≤ n ∧ n ≤ 23
  | _ => False

namespace Encodes

variable {depth : Nat} {item : Item} {bytes : Bytes}

/-- No item starts like a break. -/
theorem opens (h : Encodes depth item bytes) : Opens bytes := by
  cases h with
  | unsigned hhead => exact (Reader.reads_isHead hhead (by decide) fun _ => rfl).opens nofun
  | negative hhead => exact (Reader.reads_isHead hhead (by decide) fun _ => rfl).opens nofun
  | bytes hstring => exact hstring.opens Reader.announces_bytes
  | text hstring => exact hstring.opens Reader.announces_text
  | @bool _ b _ hsimple =>
    cases b with
    | false => exact (Reader.reads_isSimple hsimple (by decide) (by decide)).opens nofun
    | true => exact (Reader.reads_isSimple hsimple (by decide) (by decide)).opens nofun
  | null hsimple => exact (Reader.reads_isSimple hsimple (by decide) (by decide)).opens nofun
  | array _ _ hbytes => exact hbytes.opens Reader.announces_array
  | map _ _ _ hbytes => exact hbytes.opens Reader.announces_map

/-! ### Passing over -/

theorem exists_skipItem (budget : Nat) : ∃ nested, Reader.skip budget = Reader.skipItem nested := by
  cases budget with
  | zero => exact ⟨_, rfl⟩
  | succ budget => exact ⟨_, rfl⟩

/-- Every piece of a text is passed over. -/
theorem reads_textStep {piece : Bytes} (h : Utf8.isValid piece = true) :
    (Reader.textStep piece.length ()).Reads piece () := by
  intro more
  have hlength : Bytes.hasLength piece.length (piece ++ more) = true :=
    Bytes.hasLength_iff.mpr (by rw [List.length_append]; omega)
  rw [Reader.textStep, if_pos hlength, List.take_left, if_pos h, List.drop_left]

/-- A head that is all there is of an item is passed over. -/
theorem reads_skip_head {h : Header} (hhead : Reader.header.Reads bytes h) (hplain : h.IsPlain)
    (budget : Nat) : (Reader.skip budget).Reads bytes () := by
  obtain ⟨nested, hskip⟩ := exists_skipItem budget
  rw [hskip]
  refine hhead.last ?_
  cases h with
  | unsigned n => exact Reads.pure ()
  | negative n => exact Reads.pure ()
  | simple n =>
    have hrange : 20 ≤ n ∧ n ≤ 23 := hplain
    dsimp only
    rw [if_pos hrange]
    exact Reads.pure ()
  | _ => exact hplain.elim

/-- An item is passed over in full, within a budget of its depth. -/
theorem reads_skip (h : Encodes depth item bytes) :
    ∀ budget, depth ≤ budget → (Reader.skip budget).Reads bytes () := by
  induction h with
  | unsigned hhead =>
    exact fun budget _ =>
      reads_skip_head (Reader.reads_isHead hhead (by decide) fun _ => rfl) trivial budget
  | negative hhead =>
    exact fun budget _ =>
      reads_skip_head (Reader.reads_isHead hhead (by decide) fun _ => rfl) trivial budget
  | bytes hstring =>
    intro budget _
    obtain ⟨nested, hskip⟩ := exists_skipItem budget
    obtain ⟨head, length, body, s', rfl, hhead, hbody⟩ := hstring.reads Reader.bytesPart
      Reader.bytesStep Reader.announces_bytes (fun _ => rfl)
      (fun piece _ read => ⟨read ++ piece, (Reader.reads_take rfl).map⟩) []
    rw [hskip]
    exact hhead.bind (hbody.last (Reads.pure ()))
  | text hstring =>
    intro budget _
    obtain ⟨nested, hskip⟩ := exists_skipItem budget
    obtain ⟨head, length, body, s', rfl, hhead, hbody⟩ := hstring.reads Reader.textPart
      Reader.textStep Reader.announces_text (fun _ => rfl)
      (fun piece hpiece _ => ⟨(), reads_textStep hpiece⟩) ()
    rw [hskip]
    exact hhead.bind hbody
  | @bool _ b _ hsimple =>
    have hrange : 20 ≤ (if b then 21 else 20) ∧ (if b then 21 else 20) ≤ 23 := by cases b <;> decide
    exact fun budget _ =>
      reads_skip_head (Reader.reads_isSimple hsimple hrange.1 hrange.2) hrange budget
  | null hsimple =>
    exact fun budget _ => reads_skip_head (Reader.reads_isSimple hsimple (by decide) (by decide))
      (show 20 ≤ 22 ∧ 22 ≤ 23 by decide) budget
  | array parts hparts hbytes ih =>
    intro budget hbudget
    obtain ⟨budget, rfl⟩ : ∃ k, budget = k + 1 := ⟨budget - 1, by omega⟩
    obtain ⟨head, length, body, rfl, hhead, hbody⟩ := hbytes.split Reader.announces_array
    exact hhead.bind (Reader.reads_items (fun p hp => ih p hp budget (by omega))
      (fun p hp => (hparts p hp).opens) hbody)
  | map parts hkeys hvalues hbytes ihkeys ihvalues =>
    intro budget hbudget
    obtain ⟨budget, rfl⟩ : ∃ k, budget = k + 1 := ⟨budget - 1, by omega⟩
    obtain ⟨head, length, body, rfl, hhead, hbody⟩ := hbytes.split Reader.announces_map
    refine hhead.bind (Reader.reads_items (fun p hp => ?_) (fun p hp => ?_) hbody)
    · exact (ihkeys p hp budget (by omega)).bind (ihvalues p hp budget (by omega))
    · exact (hkeys p hp).opens.append p.2.2

end Encodes

/-! ### Numbers where bytes are called for -/

/-- Whether an item is a number, with either sign. -/
def Item.IsInteger : Item → Prop
  | .unsigned _ | .negative _ => True
  | _ => False

namespace Decoder

open Reader (Answers Settles)

variable {α : Type} {d : Decoder α} {depth budget : Nat} {bytes : Bytes}

theorem present_encodes {items : List Item} (h : Encodes depth (.array items) bytes) :
    Present bytes := by
  cases h with
  | array _ _ hbytes =>
    obtain ⟨head, length, body, rfl, hhead, -⟩ := hbytes.split Reader.announces_array
    exact present_of_header hhead nofun nofun

theorem answers_optional {x : Except Error α} (hp : Present bytes)
    (h : (d budget).Answers bytes x) : (d.optional budget).Answers bytes (x.map some) := by
  intro more
  obtain ⟨hd, left, hh, h22, h23⟩ := hp more
  unfold optional
  rw [hh]
  split
  · cases ‹Except.ok _ = Except.error _›
  · cases ‹Except.ok _ = Except.ok _›
    exact absurd rfl h22
  · cases ‹Except.ok _ = Except.ok _›
    exact absurd rfl h23
  · exact h.map some more

theorem settles_natural {item : Item} (h : Encodes depth item bytes) (hitem : item.IsInteger)
    (bound : Nat) : (natural bound budget).Settles bytes := by
  cases h with
  | @unsigned _ n _ hhead =>
    have hheader : Reader.header.Reads bytes (.unsigned n) :=
      Reader.reads_isHead hhead (by decide) fun _ => rfl
    have hvalue :
        (if n < bound then Pure.pure n else MonadExcept.throw Error.semantic : Reader Nat).Answers
        [] (if n < bound then .ok n else .error .semantic) := by
      split_ifs
      · exact (Reader.Reads.pure n).answers
      · exact Reader.answers_throw _ _
    exact ((hheader.past hheader.ne_nil nofun).answers_last hvalue).settles
  | @negative _ n _ hhead =>
    have hheader : Reader.header.Reads bytes (.negative n) :=
      Reader.reads_isHead hhead (by decide) fun _ => rfl
    exact ((hheader.past hheader.ne_nil nofun).answers_last (Reader.answers_throw _ _)).settles
  | _ => exact hitem.elim

theorem answer_push (read : List α) : (push d budget read).answer bytes =
    ((d budget).answer bytes).map (· :: read) := by
  show ((d budget bytes >>= fun p => (.ok (p.1 :: read, p.2) : Except Error _)).map Prod.fst) = _
  rw [Reader.answer]
  cases d budget bytes <;> rfl

theorem length_foldlM_push {ι : Type} {write : ι → Bytes} : ∀ {l : List ι} {read out : List α},
    l.foldlM (fun read a => (push d budget read).answer (write a)) read = .ok out →
      out.length = read.length + l.length
  | [], read, out, h => by
    cases h
    rfl
  | a :: l, read, out, h => by
    rw [List.foldlM_cons] at h
    obtain ⟨read', hfirst, hrest⟩ := bind_eq_ok.mp h
    rw [answer_push] at hfirst
    obtain ⟨b, -, rfl⟩ := map_eq_ok.mp hfirst
    rw [length_foldlM_push hrest, List.length_cons, List.length_cons]
    omega

/-- An array of numbers is taken for bytes, as many as it has, or refused. -/
theorem settles_octets {ints : List Item} (h : Encodes depth (.array ints) bytes)
    (hints : ∀ item ∈ ints, item.IsInteger) : (octets (budget + 1)).Settles bytes ∧
      ∀ raw, (octets (budget + 1)).Reads bytes raw → raw.length = ints.length := by
  cases h with
  | @array depth parts _ hparts hencloses =>
    obtain ⟨head, length, body, rfl, hhead, hbody⟩ := hencloses.split Reader.announces_array
    have hpush : ∀ read, ∀ p ∈ parts, (push uint8 budget read).Settles p.2 := fun read p hp =>
      (((settles_natural (hparts p hp) (hints _ (List.mem_map_of_mem hp)) _).map _).map _).settles
    have hitems := Reader.answers_items hpush (fun p hp => (hparts p hp).opens) hbody []
    have hall : (octets (budget + 1)).Answers (head ++ body) _ :=
      (hhead.past hhead.ne_nil nofun).answers_bind (hitems.map List.reverse)
    refine ⟨hall.settles, fun raw hraw => ?_⟩
    obtain ⟨out, hout, rfl⟩ := map_eq_ok.mp (hall.answer_eq.symm.trans hraw.answers.answer_eq)
    rw [List.length_reverse, length_foldlM_push hout, List.length_map]
    exact Nat.zero_add _

end Decoder

end SecureSession.Cbor
