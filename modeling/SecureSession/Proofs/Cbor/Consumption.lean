import Mathlib.Algebra.Order.Ring.Nat
import Mathlib.Tactic.SplitIfs
import SecureSession.Cbor.Fields

/-! # What reading uses up

A reader pays for what it answers with the bytes that it takes off its input, and with a
credit that earlier readers left it. No answer is therefore larger than the input it was read
from: not the content of a string, in however many segments, nor the fields of a structure,
whatever stands between them. -/

namespace SecureSession.Cbor

variable {α β σ : Type}

/-! ### Readers -/

namespace Reader

/-- The size of an answer of `r` is paid for by a credit and the bytes taken off the input. -/
def Spends (r : Reader α) (credit : Nat) (size : α → Nat) : Prop :=
  ∀ input a rest, r input = .ok (a, rest) → size a + rest.length ≤ credit + input.length

variable {r : Reader α} {credit : Nat} {size : α → Nat}

theorem Spends.pure {a : α} (h : size a ≤ credit) : Spends (Pure.pure a) credit size := by
  intro input b rest hb
  cases hb
  omega

theorem Spends.throw (e : Error) : Spends (MonadExcept.throw e : Reader α) credit size := by
  intro input a rest h
  cases h

theorem Spends.mono {credit' : Nat} {size' : α → Nat} (h : r.Spends credit size)
    (hc : credit ≤ credit') (hs : ∀ a, size' a ≤ size a) : r.Spends credit' size' := by
  intro input a rest ha
  have := h input a rest ha
  have := hs a
  omega

/-- Credit that a reader does not use is left for the next. -/
theorem Spends.keep (k : Nat) (h : r.Spends credit size) :
    r.Spends (k + credit) fun a => k + size a := by
  intro input a rest ha
  have := h input a rest ha
  show k + size a + rest.length ≤ k + credit + input.length
  omega

/-- What the first reader answers is the credit of the second. -/
theorem Spends.bind {f : α → Reader β} {total : β → Nat} (hr : r.Spends credit size)
    (hf : ∀ a, (f a).Spends (size a) total) : (r >>= f).Spends credit total := by
  intro input b rest h
  change (r input >>= fun p => f p.1 p.2) = _ at h
  cases ha : r input with
  | error e => rw [ha] at h; cases h
  | ok p =>
    rw [ha] at h
    have hfirst := hr input p.1 p.2 ha
    have hsecond := hf p.1 p.2 b rest h
    omega

/-! ### Heads -/

theorem spends_take (n : Nat) : (take n).Spends 0 List.length := by
  intro input a rest h
  unfold take at h
  split_ifs at h
  cases h
  rw [List.length_take, List.length_drop]
  omega

theorem spends_byte : byte.Spends 0 fun _ => 1 := by
  intro input a rest h
  cases input with
  | nil => cases h
  | cons b input => cases h; simp [Nat.add_comm]

theorem spends_argument (minor : Nat) : (argument minor).Spends 0 fun _ => 0 := by
  unfold argument
  split_ifs
  · exact .pure le_rfl
  · exact ((spends_take _).mono le_rfl fun _ => Nat.zero_le _).bind fun _ => .pure le_rfl
  · exact .pure le_rfl
  · exact .throw _

theorem spends_headerOf (major minor : Nat) (n : Option Nat) :
    (headerOf major minor n).Spends 1 fun _ => 1 := by
  unfold headerOf
  split <;> split <;> first | exact .pure le_rfl | exact .throw _

/-- A head takes a byte at least. -/
theorem spends_header : header.Spends 0 fun _ => 1 :=
  spends_byte.bind fun _ => ((spends_argument _).keep 1).bind fun _ => spends_headerOf _ _ _

theorem spends_headerPastIn (passes : Nat → Bool) :
    ∀ fuel, (headerPastIn passes fuel).Spends 0 fun _ => 1
  | [] => .throw _
  | _ :: fuel => by
    refine spends_header.bind fun h => ?_
    split
    · split_ifs
      · exact (spends_headerPastIn passes fuel).mono (Nat.zero_le _) fun _ => le_rfl
      · exact .pure le_rfl
    · exact .pure le_rfl

theorem spends_headerPast (passes : Nat → Bool) : (headerPast passes).Spends 0 fun _ => 1 :=
  fun input => spends_headerPastIn passes input input

/-- A head read on the way to something else. -/
theorem Spends.afterHeader {f : Header → Reader β} {total : β → Nat} {read : Reader Header}
    (hr : read.Spends 0 fun _ => 1) (hf : ∀ h, (f h).Spends credit total) :
    (read >>= f).Spends credit total :=
  ((hr.keep credit).mono le_rfl fun _ => Nat.le_add_right _ _).bind hf

/-! ### Strings -/

/-- A step that pays for its state pays for it over all segments. -/
theorem spends_segmentsIn {part : Header → Option (Option Nat)} {step : Nat → σ → Reader σ}
    {size : σ → Nat} (h : ∀ n s, (step n s).Spends (size s) size) :
    ∀ fuel depth s, (segmentsIn part step fuel depth s).Spends (size s) size
  | 0, _, _ => .throw _
  | fuel + 1, depth, s => by
    refine spends_header.afterHeader fun head => ?_
    split
    · split_ifs
      · exact .pure le_rfl
      · exact spends_segmentsIn h fuel _ s
    · split
      · exact .throw _
      · exact spends_segmentsIn h fuel _ s
      · exact (h _ s).bind fun s' => spends_segmentsIn h fuel _ s'

theorem spends_segments {part : Header → Option (Option Nat)} {step : Nat → σ → Reader σ}
    (size : σ → Nat) (h : ∀ n s, (step n s).Spends (size s) size) (length : Option Nat) (s : σ) :
    (segments part step length s).Spends (size s) size := by
  cases length with
  | some n => exact h n s
  | none => exact fun input => spends_segmentsIn h input.length 1 s input

/-- A byte string is no longer than the input it is read from. -/
theorem spends_byteString (length : Option Nat) : (byteString length).Spends 0 List.length := by
  refine spends_segments List.length (fun n read => ?_) length []
  refine ((spends_take n).keep read.length).bind fun more => ?_
  exact .pure (by rw [List.length_append])

theorem spends_bigNumber (length : Option Nat) : (bigNumber length).Spends 0 fun _ => 0 := by
  have hstep : ∀ n read, (bigStep n read).Spends 0 fun _ => 0 := by
    intro n read input a rest h
    have htake : (do return significant read (← take n) : Reader Bytes).Spends 0 fun _ => 0 :=
      ((spends_take n).mono le_rfl fun _ => Nat.zero_le _).bind fun _ => .pure le_rfl
    unfold bigStep at h
    dsimp only at h
    by_cases hbig : bigLimit < (significant read (input.take (if Bytes.hasLength n input then n
        else input.length / bigLimit * bigLimit))).length
    · rw [if_pos hbig] at h; cases h
    · rw [if_neg hbig] at h; exact htake input a rest h
  exact (spends_segments (fun _ => 0) hstep length []).bind fun _ => .pure le_rfl

theorem spends_skipText (length : Option Nat) : (skipText length).Spends 0 fun _ => 0 := by
  refine spends_segments (fun _ => 0) (fun n s input a rest h => ?_) length ()
  unfold textStep at h
  split_ifs at h
  cases h
  simp only [List.length_drop]
  omega

/-! ### Sequences -/

theorem spends_repeats {step : σ → Reader σ} {size : σ → Nat}
    (h : ∀ s, (step s).Spends (size s) size) :
    ∀ n s, (repeats step n s).Spends (size s) size
  | 0, _ => .pure le_rfl
  | n + 1, s => (h s).bind fun s' => spends_repeats h n s'

theorem spends_untilStopIn {step : σ → Reader σ} {size : σ → Nat}
    (h : ∀ s, (step s).Spends (size s) size) :
    ∀ fuel s, (untilStopIn step fuel s).Spends (size s) size
  | 0, _ => .throw _
  | fuel + 1, s => by
    have hmore := (h s).bind fun s' => spends_untilStopIn h fuel s'
    intro input a rest ha
    unfold untilStopIn at ha
    split at ha
    · cases ha
    · split_ifs at ha
      · cases ha
        rw [List.length_cons]
        omega
      · exact hmore _ a rest ha

theorem spends_items {step : σ → Reader σ} (size : σ → Nat) (h : ∀ s, (step s).Spends (size s) size)
    (length : Option Nat) (s : σ) : (items step length s).Spends (size s) size := by
  cases length with
  | some n => exact spends_repeats h n s
  | none => exact fun input => spends_untilStopIn h input.length s input

/-! ### Values passed over -/

theorem spends_skipTagged {value : Reader Unit} (h : value.Spends 0 fun _ => 0) (t : Nat) :
    (skipTagged t value).Spends 0 fun _ => 0 := by
  intro input a rest ha
  unfold skipTagged at ha
  split_ifs at ha with ht
  · split at ha
    · cases ha
    · rename_i head left hhead
      split at ha
      · exact h input a rest ha
      · rename_i n _
        have hdigits : (do
            let digits ← take n
            if t = 3 ∧ 1 <<< 127 ≤ Bytes.toNatBE digits then
              MonadExcept.throw Error.semantic : Reader Unit).Spends 0 fun _ => 0 := by
          refine ((spends_take n).mono le_rfl fun _ => Nat.zero_le _).bind fun _ => ?_
          split_ifs
          · exact .throw _
          · exact .pure le_rfl
        have hfirst := spends_header input head left hhead
        have hsecond := hdigits left a rest ha
        omega
  · exact h input a rest ha

theorem spends_skipItem {nested : Option (Reader Unit)}
    (h : ∀ value, nested = some value → value.Spends 0 fun _ => 0) :
    (skipItem nested).Spends 0 fun _ => 0 := by
  have hinner : (nested.getD (MonadExcept.throw Error.recursionLimit)).Spends 0 fun _ => 0 := by
    cases nested with
    | none => exact .throw _
    | some value => exact h value rfl
  refine spends_header.afterHeader fun head => ?_
  split
  · exact .pure le_rfl
  · exact .pure le_rfl
  · exact .pure le_rfl
  · split_ifs
    · exact .pure le_rfl
    · exact .throw _
  · exact .throw _
  · exact ((spends_byteString _).mono le_rfl fun _ => Nat.zero_le _).bind fun _ => .pure le_rfl
  · exact spends_skipText _
  · split_ifs
    · exact .throw _
    · exact spends_items (fun _ => 0) (fun _ => hinner) _ ()
  · split_ifs
    · exact .throw _
    · exact spends_items (fun _ => 0) (fun _ => hinner.bind fun _ => hinner) _ ()
  · exact spends_skipTagged hinner _

theorem spends_skip : ∀ budget, (skip budget).Spends 0 fun _ => 0
  | 0 => spends_skipItem (by simp)
  | budget + 1 => spends_skipItem (by rintro value ⟨⟩; exact spends_skip budget)

end Reader

/-! ### Decoders -/

namespace Decoder

/-- What `d` answers is no larger than what it takes off the input. -/
def Spends (d : Decoder α) (size : α → Nat) : Prop := ∀ budget, (d budget).Spends 0 size

variable {d : Decoder α} {size : α → Nat}

theorem Spends.enter (h : d.Spends size) : (enter d).Spends size
  | 0 => .throw _
  | budget + 1 => h budget

theorem Spends.run {input : Bytes} {a : α} (h : d.Spends size) (hrun : d.run input = .ok a) :
    size a ≤ input.length := by
  unfold Decoder.run at hrun
  cases hd : d depthLimit input with
  | error e => rw [hd] at hrun; cases hrun
  | ok p =>
    rw [hd] at hrun
    cases hrun
    have := h depthLimit input p.1 p.2 hd
    omega

/-- A number takes a byte at least. -/
theorem spends_natural (bound : Nat) : (natural bound).Spends fun _ => 1 := by
  intro budget
  refine (Reader.spends_headerPast _).bind fun head => ?_
  split
  · split_ifs
    · exact .pure le_rfl
    · exact .throw _
  · refine Reader.spends_header.afterHeader fun head => ?_
    split
    · refine ((Reader.spends_bigNumber _).keep 1).bind fun n => ?_
      split_ifs
      · exact .pure le_rfl
      · exact .throw _
    · exact .throw _
  · exact .throw _

theorem spends_uint8 : uint8.Spends fun _ => 1 :=
  fun budget => (spends_natural _ budget).bind fun _ => .pure le_rfl

theorem spends_uint32 : uint32.Spends fun _ => 1 :=
  fun budget => (spends_natural _ budget).bind fun _ => .pure le_rfl

theorem spends_push (h : d.Spends fun _ => 1) (budget : Nat) (read : List α) :
    (push d budget read).Spends read.length List.length :=
  ((h budget).keep read.length).bind fun _ => .pure (by rw [List.length_cons])

/-- The bytes of an array or of a byte string are no more than those of the input. -/
theorem spends_octets : octets.Spends List.length := by
  intro budget
  refine (Reader.spends_headerPast _).afterHeader fun head => ?_
  split
  · refine Spends.enter (d := fun b => do
      return (← Reader.items (push uint8 b) _ []).reverse) (fun b => ?_) budget
    refine (Reader.spends_items List.length (fun s => spends_push spends_uint8 b s) _ []).bind
      fun read => ?_
    exact .pure (by rw [List.length_reverse])
  · exact Reader.spends_byteString _
  · exact .throw _

theorem Spends.optional (h : d.Spends size) : d.optional.Spends fun o => o.elim 0 size := by
  have hsome : ∀ budget, (do return some (← d budget) : Reader (Option α)).Spends 0
      fun o => o.elim 0 size := fun budget => (h budget).bind fun _ => .pure le_rfl
  intro budget input a rest ha
  unfold Decoder.optional at ha
  split at ha
  · cases ha
  · cases ha
    have := Reader.spends_header input _ _ ‹_›
    simp only [Option.elim_none]
    omega
  · cases ha
    have := Reader.spends_header input _ _ ‹_›
    simp only [Option.elim_none]
    omega
  · exact hsome budget input a rest ha

end Decoder

/-! ### Structures -/

namespace Fields

/-- The sizes of a structure and of a draft of it add up from sizes that the decoders of the fields
pay for; a field that is left out has no size. -/
inductive Spends : {τ : Type} → (fs : Fields τ) → (τ → Nat) → (fs.Draft → Nat) → Prop
  | nil : Spends .nil (fun _ => 0) (fun _ => 0)
  | cons {α β : Type} {name : String} {value : Decoder α} {absent : Option α} {rest : Fields β}
      {size : α → Nat} {total : β → Nat} {seen : rest.Draft → Nat} :
      value.Spends size → (∀ a, absent = some a → size a = 0) → Spends rest total seen →
      Spends (.cons name value absent rest) (fun t => size t.1 + total t.2)
        (fun draft => draft.1.elim 0 size + seen draft.2)

/-- A field that may be left out. -/
theorem Spends.optional {name : String} {value : Decoder α} {rest : Fields β} {size : α → Nat}
    {total : β → Nat} {seen : rest.Draft → Nat} (h : value.Spends size)
    (hrest : Spends rest total seen) :
    Spends (.optional name value rest) (fun t => t.1.elim 0 size + total t.2)
      (fun draft => draft.1.elim 0 (fun o => o.elim 0 size) + seen draft.2) :=
  .cons h.optional (by rintro _ ⟨⟩; rfl) hrest

theorem spends_key : key.Spends 0 fun _ => 0 := by
  have htake : ∀ n, (Reader.take n).Spends 0 fun _ => 0 := fun n =>
    (Reader.spends_take n).mono le_rfl fun _ => Nat.zero_le _
  refine (Reader.spends_headerPast _).afterHeader fun head => ?_
  split
  · split_ifs
    · exact fun _ _ _ h => nomatch h
    · refine (htake _).bind fun name => ?_
      split_ifs
      · exact .pure le_rfl
      · exact .throw _
  · split_ifs
    · exact .throw _
    · exact htake _
  · exact .throw _

variable {τ : Type} {fs : Fields τ} {total : τ → Nat} {seen : fs.Draft → Nat}

theorem Spends.blank (h : fs.Spends total seen) : seen fs.blank = 0 := by
  induction h with
  | nil => rfl
  | cons _ _ _ ih => simp [Fields.blank, ih]

theorem Spends.fill (h : fs.Spends total seen) {key : Bytes} {draft : fs.Draft}
    {value : Decoder fs.Draft} (hfill : fs.fill key draft = some value) (budget : Nat) :
    (value budget).Spends (seen draft) seen := by
  induction h with
  | nil => cases hfill
  | @cons _ _ name first _ rest size _ seen hfirst _ _ ih =>
    obtain ⟨before, draft⟩ := draft
    change (if key = Bytes.ofString name then _ else _) = some value at hfill
    by_cases hkey : key = Bytes.ofString name
    · rw [if_pos hkey] at hfill
      cases hfill
      cases before with
      | some a =>
        -- A second value of a field is refused.
        exact fun _ _ _ h => nomatch h
      | none =>
        have hread : (first budget).Spends (0 + seen draft) fun a => seen draft + size a :=
          ((hfirst budget).keep (seen draft)).mono (by omega) fun _ => le_rfl
        exact hread.bind fun a => .pure (by simp [Nat.add_comm])
    · rw [if_neg hkey] at hfill
      obtain ⟨more, hmore, rfl⟩ := Option.map_eq_some_iff.mp hfill
      exact ((ih hmore).keep (before.elim 0 size)).bind fun a => .pure le_rfl

theorem Spends.finish (h : fs.Spends total seen) {draft : fs.Draft} {t : τ}
    (hfinish : fs.finish draft = some t) : total t ≤ seen draft := by
  induction h with
  | nil => exact Nat.zero_le _
  | cons _ habsent _ ih =>
    obtain ⟨before, draft⟩ := draft
    simp only [Fields.finish, Option.bind_eq_bind, Option.bind_eq_some_iff, Option.pure_def,
      Option.some.injEq] at hfinish
    obtain ⟨a, ha, b, hb, rfl⟩ := hfinish
    have hrest := ih hb
    cases before with
    | some a' =>
      cases ha
      simpa using hrest
    | none =>
      have hnone := habsent a ha
      dsimp only
      omega

/-- The fields of a structure are no larger together than what it is read from. -/
theorem Spends.decoder (h : fs.Spends total seen) : fs.decoder.Spends total := by
  have hentry : ∀ budget draft, (fs.entry budget draft).Spends (seen draft) seen := by
    intro budget draft
    refine (spends_key.keep (seen draft)).bind fun key => ?_
    split
    · exact h.fill ‹_› budget
    · exact ((Reader.spends_skip budget).keep (seen draft)).bind fun _ => .pure le_rfl
  intro budget
  refine (Reader.spends_headerPast _).afterHeader fun head => ?_
  split
  · rename_i length
    refine Decoder.Spends.enter (fun b => ?_) budget
    have hitems := Reader.spends_items seen (hentry b) length fs.blank
    rw [h.blank] at hitems
    refine hitems.bind fun draft => ?_
    split
    · rename_i t ht
      exact .pure (h.finish ht)
    · exact .throw _
  · exact .throw _

end Fields

end SecureSession.Cbor
