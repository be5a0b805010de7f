import SecureSession.Cbor.Fields
import SecureSession.Proofs.Cbor.Reading

/-! # Reading without looking ahead

A reader looks at the bytes that it takes and at no others: what it answers, it answers with more
bytes behind as well, and leaves them. Where a loop is bounded by the length of the input, more
input is a higher bound, so two readers are compared. What is read to its end can therefore not be
cut: a part that is read would be read the same way within the whole, with something left over. -/

namespace SecureSession.Cbor

variable {α β σ : Type}

namespace Reader

/-- What `r` answers, `r'` answers with more bytes behind, which it leaves. -/
def Extends (r r' : Reader α) : Prop :=
  ∀ input a rest, r input = .ok (a, rest) → ∀ more, r' (input ++ more) = .ok (a, rest ++ more)

/-- Whether `r` answers the same whatever follows. -/
def Streams (r : Reader α) : Prop := r.Extends r

/-- What is read to its end is read from no part of it. -/
theorem Streams.error_of_part {r : Reader α} (h : r.Streams) {whole cut : Bytes} {a : α}
    (hread : r whole = .ok (a, [])) (hcut : cut <+: whole) (hne : cut ≠ whole) :
    ∃ e, r cut = .error e := by
  obtain ⟨more, rfl⟩ := hcut
  cases hr : r cut with
  | error e => exact ⟨e, rfl⟩
  | ok p =>
    have hwhole := h cut p.1 p.2 hr more
    rw [hread] at hwhole
    have hleft : p.2 ++ more = [] := (congrArg Prod.snd (Except.ok.inj hwhole)).symm
    have hmore : more = [] := (List.append_eq_nil_iff.mp hleft).2
    exact absurd (by rw [hmore, List.append_nil]) hne

variable {r r' : Reader α}

theorem Extends.pure (a : α) : Extends (Pure.pure a) (Pure.pure a) := by
  intro input b rest h more
  cases h
  rfl

theorem Extends.throw (e : Error) : Extends (MonadExcept.throw e) r' := by
  intro input b rest h
  cases h

theorem Extends.bind {f f' : α → Reader β} (hr : r.Extends r') (hf : ∀ a, (f a).Extends (f' a)) :
    Extends (r >>= f) (r' >>= f') := by
  intro input b rest h more
  obtain ⟨⟨a, left⟩, hfirst, hsecond⟩ := bind_eq_ok.mp h
  show (r' (input ++ more) >>= fun p => f' p.1 p.2) = _
  rw [hr input a left hfirst more]
  exact hf a left b rest hsecond more

/-! ### Heads -/

theorem streams_take (n : Nat) : (take n).Streams := by
  intro input a rest h more
  unfold take at h ⊢
  split_ifs at h with hn
  cases h
  have hlength := Bytes.hasLength_iff.mp hn
  have hlong : Bytes.hasLength n (input ++ more) = true :=
    Bytes.hasLength_iff.mpr (by rw [List.length_append]; omega)
  rw [if_pos hlong, List.take_append_of_le_length hlength, List.drop_append_of_le_length hlength]

theorem streams_byte : byte.Streams := by
  intro input a rest h more
  cases input with
  | nil => cases h
  | cons b input =>
    cases h
    rfl

theorem streams_argument (minor : Nat) : (argument minor).Streams := by
  unfold argument
  split_ifs
  · exact .pure _
  · exact (streams_take _).bind fun _ => .pure _
  · exact .pure _
  · exact .throw _

theorem streams_headerOf (major minor : Nat) (n : Option Nat) :
    (headerOf major minor n).Streams := by
  unfold headerOf
  split <;> split <;> first | exact .pure _ | exact .throw _

theorem streams_header : header.Streams :=
  streams_byte.bind fun _ => (streams_argument _).bind fun _ => streams_headerOf _ _ _

theorem extends_headerPastIn (passes : Nat → Bool) (extra : Bytes) :
    ∀ fuel, (headerPastIn passes fuel).Extends (headerPastIn passes (fuel ++ extra))
  | [] => .throw _
  | _ :: fuel => by
    refine streams_header.bind fun h => ?_
    split
    · split_ifs
      · exact extends_headerPastIn passes extra fuel
      · exact .pure _
    · exact .pure _

theorem streams_headerPast (passes : Nat → Bool) : (headerPast passes).Streams :=
  fun input a rest h more => extends_headerPastIn passes more input input a rest h more

/-! ### Strings -/

theorem extends_segmentsIn {part : Header → Option (Option Nat)} {step : Nat → σ → Reader σ}
    (h : ∀ n s, (step n s).Streams) (extra : Nat) : ∀ fuel depth s,
      (segmentsIn part step fuel depth s).Extends (segmentsIn part step (fuel + extra) depth s)
  | 0, _, _ => .throw _
  | fuel + 1, depth, s => by
    rw [Nat.succ_add]
    refine streams_header.bind fun head => ?_
    split
    · split_ifs
      · exact .pure _
      · exact extends_segmentsIn h extra fuel _ s
    · split
      · exact .throw _
      · exact extends_segmentsIn h extra fuel _ s
      · exact (h _ s).bind fun s' => extends_segmentsIn h extra fuel depth s'

theorem streams_segments {part : Header → Option (Option Nat)} {step : Nat → σ → Reader σ}
    (h : ∀ n s, (step n s).Streams) (length : Option Nat) (s : σ) :
    (segments part step length s).Streams := by
  cases length with
  | some n => exact h n s
  | none =>
    intro input a rest hread more
    show segmentsIn part step (input ++ more).length 1 s (input ++ more) = _
    rw [List.length_append]
    exact extends_segmentsIn h more.length input.length 1 s input a rest hread more

theorem streams_byteString (length : Option Nat) : (byteString length).Streams :=
  streams_segments (fun n _ => (streams_take n).bind fun _ => .pure _) length []

/-- A segment of a big number that is there is judged by its own bytes. -/
theorem streams_bigStep (n : Nat) (read : Bytes) : (bigStep n read).Streams := by
  intro input a rest h more
  have htake : (do return significant read (← take n) : Reader Bytes).Streams :=
    (streams_take n).bind fun _ => .pure _
  unfold bigStep at h ⊢
  dsimp only at h ⊢
  by_cases hn : Bytes.hasLength n input = true
  · have hlength := Bytes.hasLength_iff.mp hn
    have hlong : Bytes.hasLength n (input ++ more) = true :=
      Bytes.hasLength_iff.mpr (by rw [List.length_append]; omega)
    rw [if_pos hlong, List.take_append_of_le_length hlength]
    rw [if_pos hn] at h
    split_ifs at h ⊢
    exact htake input a rest h more
  · have hshort : take n input = .error .io := if_neg hn
    split_ifs at h
    change (take n input >>= fun p => _) = _ at h
    rw [hshort] at h
    cases h

theorem streams_bigNumber (length : Option Nat) : (bigNumber length).Streams :=
  (streams_segments streams_bigStep length []).bind fun _ => .pure _

theorem streams_textStep (n : Nat) (s : Unit) : (textStep n s).Streams := by
  intro input a rest h more
  unfold textStep at h ⊢
  split_ifs at h with hn hvalid
  cases h
  have hlength := Bytes.hasLength_iff.mp hn
  have hlong : Bytes.hasLength n (input ++ more) = true :=
    Bytes.hasLength_iff.mpr (by rw [List.length_append]; omega)
  rw [if_pos hlong, List.take_append_of_le_length hlength, if_pos hvalid,
    List.drop_append_of_le_length hlength]

theorem streams_skipText (length : Option Nat) : (skipText length).Streams :=
  streams_segments streams_textStep length ()

/-! ### Sequences -/

theorem streams_repeats {step : σ → Reader σ} (h : ∀ s, (step s).Streams) :
    ∀ n s, (repeats step n s).Streams
  | 0, s => .pure s
  | n + 1, s => (h s).bind fun s' => streams_repeats h n s'

theorem extends_untilStopIn {step : σ → Reader σ} (h : ∀ s, (step s).Streams) (extra : Nat) :
    ∀ fuel s, (untilStopIn step fuel s).Extends (untilStopIn step (fuel + extra) s)
  | 0, _ => .throw _
  | fuel + 1, s => by
    have hnext := (h s).bind fun s' => extends_untilStopIn h extra fuel s'
    rw [Nat.succ_add]
    intro input a rest hread more
    unfold untilStopIn at hread ⊢
    cases input with
    | nil => cases hread
    | cons b input =>
      rw [List.cons_append]
      dsimp only at hread ⊢
      split_ifs at hread ⊢
      · cases hread
        rfl
      · exact hnext (b :: input) a rest hread more

theorem streams_items {step : σ → Reader σ} (h : ∀ s, (step s).Streams)
    (length : Option Nat) (s : σ) : (items step length s).Streams := by
  cases length with
  | some n => exact streams_repeats h n s
  | none =>
    intro input a rest hread more
    show untilStopIn step (input ++ more).length s (input ++ more) = _
    rw [List.length_append]
    exact extends_untilStopIn h more.length input.length s input a rest hread more

/-! ### Values passed over -/

theorem streams_skipTagged {value : Reader Unit} (h : value.Streams) (t : Nat) :
    (skipTagged t value).Streams := by
  intro input a rest hread more
  unfold skipTagged at hread ⊢
  split_ifs at hread ⊢
  · split at hread
    · cases hread
    · rename_i head left hhead
      rw [streams_header input head left hhead more]
      dsimp only
      split at hread
      · exact h input a rest hread more
      · rename_i n _
        have hdigits : (do
            let digits ← take n
            if t = 3 ∧ 1 <<< 127 ≤ Bytes.toNatBE digits then
              MonadExcept.throw Error.semantic : Reader Unit).Streams := by
          refine (streams_take n).bind fun _ => ?_
          split_ifs
          · exact .throw _
          · exact .pure _
        exact hdigits left a rest hread more
  · exact h input a rest hread more

theorem streams_skipItem {nested : Option (Reader Unit)}
    (h : ∀ value, nested = some value → value.Streams) : (skipItem nested).Streams := by
  have hinner : (nested.getD (MonadExcept.throw Error.recursionLimit)).Streams := by
    cases nested with
    | none => exact .throw _
    | some value => exact h value rfl
  refine streams_header.bind fun head => ?_
  split
  · exact .pure _
  · exact .pure _
  · exact .pure _
  · split_ifs
    · exact .pure _
    · exact .throw _
  · exact .throw _
  · exact (streams_byteString _).bind fun _ => .pure _
  · exact streams_skipText _
  · split_ifs
    · exact .throw _
    · exact streams_items (fun _ => hinner) _ ()
  · split_ifs
    · exact .throw _
    · exact streams_items (fun _ => hinner.bind fun _ => hinner) _ ()
  · exact streams_skipTagged hinner _

theorem streams_skip : ∀ budget, (skip budget).Streams
  | 0 => streams_skipItem (by simp)
  | budget + 1 => streams_skipItem (by rintro value ⟨⟩; exact streams_skip budget)

end Reader

/-! ### Decoders -/

namespace Decoder

/-- Whether `d` answers the same whatever follows. -/
def Streams (d : Decoder α) : Prop := ∀ budget, (d budget).Streams

variable {d : Decoder α}

theorem Streams.enter (h : d.Streams) : (enter d).Streams
  | 0 => .throw _
  | budget + 1 => h budget

theorem Streams.map (h : d.Streams) (f : α → β) : (map f d).Streams :=
  fun budget => (h budget).bind fun _ => .pure _

theorem Streams.filterMap (h : d.Streams) (f : α → Option β) : (filterMap f d).Streams := by
  intro budget
  refine (h budget).bind fun a => ?_
  split
  · exact .pure _
  · exact .throw _

theorem streams_natural (bound : Nat) : (natural bound).Streams := by
  intro budget
  refine (Reader.streams_headerPast _).bind fun head => ?_
  split
  · split_ifs
    · exact .pure _
    · exact .throw _
  · refine Reader.streams_header.bind fun head => ?_
    split
    · refine (Reader.streams_bigNumber _).bind fun n => ?_
      split_ifs
      · exact .pure _
      · exact .throw _
    · exact .throw _
  · exact .throw _

theorem streams_uint8 : uint8.Streams := (streams_natural _).map _

theorem streams_uint32 : uint32.Streams := (streams_natural _).map _

theorem Streams.optional (h : d.Streams) : d.optional.Streams := by
  intro budget input a rest hread more
  unfold Decoder.optional at hread ⊢
  split at hread
  · cases hread
  · rename_i hhead
    cases hread
    rw [Reader.streams_header input _ _ hhead more]
    rfl
  · rename_i hhead
    cases hread
    rw [Reader.streams_header input _ _ hhead more]
    rfl
  · rename_i p hnot22 hnot23 hhead
    have hsome : (do return some (← d budget) : Reader (Option α)).Streams :=
      (h budget).bind fun _ => .pure _
    obtain ⟨head, left⟩ := p
    rw [Reader.streams_header input _ _ hhead more]
    split
    · cases ‹Except.ok _ = Except.error _›
    · cases ‹Except.ok _ = Except.ok _›
      exact absurd rfl (hnot22 _)
    · cases ‹Except.ok _ = Except.ok _›
      exact absurd rfl (hnot23 _)
    · exact hsome input a rest hread more

theorem streams_push (h : d.Streams) (budget : Nat) (read : List α) :
    (push d budget read).Streams :=
  (h budget).bind fun _ => .pure _

/-- The values of an array, in their order. -/
theorem streams_values (h : d.Streams) (length : Option Nat) : Streams fun b => do
    return (← Reader.items (push d b) length []).reverse :=
  fun b => (Reader.streams_items (streams_push h b) length []).bind fun _ => .pure _

theorem streams_octets : octets.Streams := by
  intro budget
  refine (Reader.streams_headerPast _).bind fun head => ?_
  split
  · exact (streams_values streams_uint8 _).enter budget
  · exact Reader.streams_byteString _
  · exact .throw _

theorem Streams.listOf (h : d.Streams) : d.listOf.Streams := by
  intro budget
  refine (Reader.streams_headerPast _).bind fun head => ?_
  split
  · exact (streams_values h _).enter budget
  · refine (Reader.streams_byteString _).bind fun content => ?_
    split_ifs
    · exact .pure _
    · exact .throw _
  · exact .throw _

theorem streams_itemsUpTo_go {step : σ → Reader σ} (h : ∀ s, (step s).Streams) :
    ∀ n s, (itemsUpTo.go step n s).Streams
  | 0, s => .pure s
  | n + 1, s => by
    have hnext := (h s).bind fun s' => streams_itemsUpTo_go h n s'
    intro input a rest hread more
    unfold itemsUpTo.go at hread ⊢
    cases input with
    | nil => cases hread
    | cons b input =>
      rw [List.cons_append]
      dsimp only at hread ⊢
      split_ifs at hread ⊢
      · cases hread
        rfl
      · exact hnext (b :: input) a rest hread more

theorem streams_itemsUpTo {step : σ → Reader σ} (h : ∀ s, (step s).Streams) (n : Nat)
    (length : Option Nat) (s : σ) : (itemsUpTo step n length s).Streams := by
  cases length with
  | some m => exact Reader.streams_repeats h (min n m) s
  | none => exact streams_itemsUpTo_go h n s

theorem streams_octetsUpTo (n : Nat) : (octetsUpTo n).Streams := by
  intro budget
  refine (Reader.streams_headerPast _).bind fun head => ?_
  split
  · refine Streams.enter (d := fun b => do
      return (← itemsUpTo (push uint8 b) n _ []).reverse) (fun b => ?_) budget
    exact (streams_itemsUpTo (streams_push streams_uint8 b) n _ []).bind fun _ => .pure _
  · exact (Reader.streams_byteString _).bind fun _ => .pure _
  · exact .throw _

theorem streams_key : key.Streams := (streams_octetsUpTo 32).filterMap _

theorem streams_publicKey : publicKey.Streams := streams_key.map _

theorem streams_secretKey : secretKey.Streams := streams_key.map _

end Decoder

/-! ### Structures -/

namespace Fields

/-- Whether the value of every field is read without looking ahead. -/
inductive Streams : {τ : Type} → Fields τ → Prop
  | nil : Streams .nil
  | cons {α β : Type} {name : String} {value : Decoder α} {absent : Option α} {rest : Fields β} :
      value.Streams → Streams rest → Streams (.cons name value absent rest)

theorem streams_key : key.Streams := by
  refine (Reader.streams_headerPast _).bind fun head => ?_
  split
  · split_ifs
    · exact fun _ _ _ h => nomatch h
    · refine (Reader.streams_take _).bind fun name => ?_
      split_ifs
      · exact .pure _
      · exact .throw _
  · split_ifs
    · exact .throw _
    · exact Reader.streams_take _
  · exact .throw _

variable {τ : Type} {fs : Fields τ}

theorem Streams.fill (h : fs.Streams) {key : Bytes} {draft : fs.Draft} {value : Decoder fs.Draft}
    (hfill : fs.fill key draft = some value) : value.Streams := by
  induction h with
  | nil => cases hfill
  | @cons α β name first absent rest hfirst _ ih =>
    obtain ⟨before, draft⟩ := draft
    change (if key = Bytes.ofString name then _ else _) = some value at hfill
    by_cases hkey : key = Bytes.ofString name
    · rw [if_pos hkey] at hfill
      cases hfill
      intro budget
      cases before with
      | some a => exact fun _ _ _ hread => nomatch hread
      | none => exact (hfirst budget).bind fun _ => .pure _
    · rw [if_neg hkey] at hfill
      obtain ⟨more, hmore, rfl⟩ := Option.map_eq_some_iff.mp hfill
      exact fun budget => (ih hmore budget).bind fun _ => .pure _

theorem Streams.entry (h : fs.Streams) (budget : Nat) (draft : fs.Draft) :
    (fs.entry budget draft).Streams := by
  refine streams_key.bind fun key => ?_
  split
  · exact h.fill ‹_› budget
  · exact (Reader.streams_skip budget).bind fun _ => .pure _

/-- A structure is read without looking ahead if the values of its fields are. -/
theorem Streams.decoder (h : fs.Streams) : fs.decoder.Streams := by
  intro budget
  refine (Reader.streams_headerPast _).bind fun head => ?_
  split
  · rename_i length
    refine Decoder.Streams.enter (fun b => ?_) budget
    refine (Reader.streams_items (h.entry b) length fs.blank).bind fun draft => ?_
    split
    · exact .pure _
    · exact .throw _
  · exact .throw _

end Fields

end SecureSession.Cbor
