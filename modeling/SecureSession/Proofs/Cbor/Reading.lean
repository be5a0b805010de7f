import SecureSession.Cbor.Decoder
import SecureSession.Cbor.Item
import SecureSession.Proofs.ByteOrder

/-! # Reading back what was written

A reader reads a value from some bytes if, whatever follows them, it answers that value and leaves
what follows. Heads, numbers, arrays of bytes and keys are read back from their encodings. -/

namespace SecureSession

/-! ### Results of steps that may fail -/

theorem bind_eq_ok {ε α β : Type} {x : Except ε α} {f : α → Except ε β} {b : β} :
    (x >>= f) = .ok b ↔ ∃ a, x = .ok a ∧ f a = .ok b := by
  refine ⟨fun h => ?_, ?_⟩
  · cases x with
    | error e => cases h
    | ok a => exact ⟨a, rfl, h⟩
  · rintro ⟨a, rfl, h⟩
    exact h

theorem bind_eq_error {ε α β : Type} {x : Except ε α} {f : α → Except ε β} {e : ε} :
    (x >>= f) = .error e ↔ x = .error e ∨ ∃ a, x = .ok a ∧ f a = .error e := by
  constructor
  · intro h
    cases x with
    | error e' =>
      cases h
      exact .inl rfl
    | ok a => exact .inr ⟨a, rfl, h⟩
  · rintro (rfl | ⟨a, rfl, h⟩)
    · rfl
    · exact h

theorem map_eq_ok {ε α β : Type} {f : α → β} {x : Except ε α} {b : β} :
    x.map f = .ok b ↔ ∃ a, x = .ok a ∧ f a = b := by
  cases x <;> simp [Except.map]

theorem mapError_eq_ok {ε ε' α : Type} {f : ε → ε'} {x : Except ε α} {a : α} :
    x.mapError f = .ok a ↔ x = .ok a := by
  cases x <;> simp [Except.mapError]

namespace Cbor

variable {α β : Type}

/-! ### Readers -/

namespace Reader

/-- `r` reads `a` from `bytes`, whatever follows them. -/
def Reads (r : Reader α) (bytes : Bytes) (a : α) : Prop := ∀ rest, r (bytes ++ rest) = .ok (a, rest)

theorem Reads.pure (a : α) : Reads (Pure.pure a) [] a := fun _ => rfl

theorem Reads.bind {r : Reader α} {f : α → Reader β} {first second : Bytes} {a : α} {b : β}
    (hr : r.Reads first a) (hf : (f a).Reads second b) : Reads (r >>= f) (first ++ second) b := by
  intro rest
  rw [List.append_assoc]
  show (r (first ++ (second ++ rest)) >>= fun p => f p.1 p.2) = _
  rw [hr]
  exact hf rest

/-- Nothing is read after `r`. -/
theorem Reads.last {r : Reader α} {f : α → Reader β} {bytes : Bytes} {a : α} {b : β}
    (hr : r.Reads bytes a) (hf : (f a).Reads [] b) : Reads (r >>= f) bytes b := by
  simpa using hr.bind hf

theorem Reads.map {r : Reader α} {f : α → β} {bytes : Bytes} {a : α} (hr : r.Reads bytes a) :
    Reads (do return f (← r)) bytes (f a) :=
  hr.last (f := fun a => Pure.pure (f a)) (Reads.pure (f a))

theorem reads_take {n : Nat} {bytes : Bytes} (h : bytes.length = n) :
    (take n).Reads bytes bytes := by
  intro rest
  have hn : Bytes.hasLength n (bytes ++ rest) = true := Bytes.hasLength_iff.mpr (by simp [h])
  rw [take, if_pos hn, List.take_left' h, List.drop_left' h]

/-! ### Heads -/

/-- The low five bits of the first byte of a head. -/
def minorOf (n : Nat) : Nat :=
  if n < 24 then n
  else if n < UInt8.size then 24
  else if n < UInt16.size then 25
  else if n < UInt32.size then 26
  else 27

theorem reads_argument {width n : Nat} (minor : Nat) (hm : 24 ≤ minor) (hm' : minor < 28)
    (hw : width = 1 <<< (minor - 24)) (hn : n < 256 ^ width) :
    (argument minor).Reads (Bytes.ofNatBE width n) (some n) := by
  unfold argument
  rw [if_neg (by omega), if_pos hm', ← hw]
  have h := (reads_take (Bytes.length_ofNatBE width n)).map (f := fun b => some (Bytes.toNatBE b))
  rwa [Bytes.toNatBE_ofNatBE hn] at h

/-- The head of an item is its first byte and its argument. -/
theorem head_eq {major n : Nat} (hmajor : major < 8) (hn : n < UInt64.size) :
    ∃ b argumentBytes, head major n = b :: argumentBytes ∧ b.toNat / 32 = major ∧
      b.toNat % 32 = minorOf n ∧ (argument (minorOf n)).Reads argumentBytes (some n) := by
  have hb : ∀ m, m < 32 → (UInt8.ofNat (32 * major + m)).toNat = 32 * major + m := fun m hm => by
    simp only [UInt8.toNat_ofNat']; omega
  simp only [UInt64.size] at hn
  unfold head minorOf
  simp only [UInt8.size, UInt16.size, UInt32.size]
  split
  · refine ⟨_, _, rfl, ?_, ?_, ?_⟩
    · rw [hb _ (by omega)]; omega
    · rw [hb _ (by omega)]; omega
    · rw [argument, if_pos ‹_›]; exact Reads.pure _
  · split
    · refine ⟨_, _, rfl, ?_, ?_, reads_argument 24 (by omega) (by omega) rfl (by omega)⟩ <;>
        rw [hb _ (by omega)] <;> omega
    · split
      · refine ⟨_, _, rfl, ?_, ?_, reads_argument 25 (by omega) (by omega) rfl (by omega)⟩ <;>
          rw [hb _ (by omega)] <;> omega
      · split
        · refine ⟨_, _, rfl, ?_, ?_, reads_argument 26 (by omega) (by omega) rfl (by omega)⟩ <;>
            rw [hb _ (by omega)] <;> omega
        · refine ⟨_, _, rfl, ?_, ?_, reads_argument 27 (by omega) (by omega) rfl (by omega)⟩ <;>
            rw [hb _ (by omega)] <;> omega

theorem reads_header {major n : Nat} (hmajor : major < 8) (hn : n < UInt64.size) {h : Header}
    (hh : headerOf major (minorOf n) (some n) = Pure.pure h) : header.Reads (head major n) h := by
  obtain ⟨b, argumentBytes, he, hdiv, hmod, ha⟩ := head_eq hmajor hn
  have hbyte : byte.Reads [b] b := fun _ => rfl
  rw [he]
  show header.Reads ([b] ++ argumentBytes) h
  refine hbyte.bind ?_
  rw [hdiv, hmod]
  exact ha.last (hh ▸ Reads.pure h)

theorem reads_header_unsigned {n : Nat} (hn : n < UInt64.size) :
    header.Reads (head 0 n) (.unsigned n) := reads_header (by omega) hn rfl

theorem reads_header_text {n : Nat} (hn : n < UInt64.size) :
    header.Reads (head 3 n) (.text n) := reads_header (by omega) hn rfl

theorem reads_header_array {n : Nat} (hn : n < UInt64.size) :
    header.Reads (head 4 n) (.array n) := reads_header (by omega) hn rfl

theorem reads_header_map {n : Nat} (hn : n < UInt64.size) :
    header.Reads (head 5 n) (.map n) := reads_header (by omega) hn rfl

/-- A head that is not a tag is the first head past the tags. -/
theorem Reads.past {passes : Nat → Bool} {bytes : Bytes} {h : Header} (hr : header.Reads bytes h)
    (hne : bytes ≠ []) (ht : ∀ t, h ≠ .tag t) : (headerPast passes).Reads bytes h := by
  intro rest
  obtain ⟨b, bytes, rfl⟩ := List.exists_cons_of_ne_nil hne
  have hpast : ∀ fuel, (headerPastIn passes (b :: fuel)).Reads (b :: bytes) h := fun fuel => by
    refine hr.last ?_
    cases h with
    | tag t => exact absurd rfl (ht t)
    | _ => exact Reads.pure _
  exact hpast _ rest

theorem head_ne_nil (major n : Nat) : head major n ≠ [] := by
  unfold head; split_ifs <;> simp

/-! ### Repetition -/

/-- Reading the values of a list in order, each by one step, takes the first state to the last. -/
inductive Runs {σ : Type} (step : σ → Reader σ) (write : α → Bytes) : σ → List α → σ → Prop
  | nil (s : σ) : Runs step write s [] s
  | cons {s s' s'' : σ} {a : α} {l : List α} :
      (step s).Reads (write a) s' → Runs step write s' l s'' → Runs step write s (a :: l) s''

theorem Runs.reads {σ : Type} {step : σ → Reader σ} {write : α → Bytes} {s s' : σ} {l : List α}
    (h : Runs step write s l s') : (repeats step l.length s).Reads (l.flatMap write) s' := by
  induction h with
  | nil s => exact Reads.pure s
  | cons ha _ ih => exact ha.bind ih

end Reader

end Cbor

end SecureSession
