import SecureSession.Proofs.Codec.Messages

/-! # Frames

The first byte of a frame names a version. If that version is read, nothing but a defect of the rest
is a reason to refuse the frame, and the byte is not looked at again. -/

namespace SecureSession

open Cbor (Fields)

variable {α β : Type}

/-! ### Defects -/

/-- Whether nothing but a defect of the message is a reason to refuse it. -/
def OnlyDefects (x : Except ProtocolError α) : Prop := ∀ e, x = .error e → e.IsDefect

namespace OnlyDefects

theorem ok (a : α) : OnlyDefects (.ok a) := fun _ h => nomatch h

theorem error (d : Defect) : OnlyDefects (.error (.invalidMessage d) : Except ProtocolError α) := by
  rintro e ⟨⟩
  exact ⟨d, rfl⟩

theorem bind {x : Except ProtocolError α} {f : α → Except ProtocolError β} (hx : OnlyDefects x)
    (hf : ∀ a, OnlyDefects (f a)) : OnlyDefects (x >>= f) := by
  intro e h
  obtain h | ⟨a, -, h⟩ := bind_eq_error.mp h
  · exact hx e h
  · exact hf a e h

theorem map {x : Except ProtocolError α} (hx : OnlyDefects x) (f : α → β) :
    OnlyDefects (x.map f) := by
  intro e h
  cases x with
  | error =>
    cases h
    exact hx e rfl
  | ok => cases h

theorem mapError {ε : Type} {f : ε → ProtocolError} (hf : ∀ e, (f e).IsDefect) (x : Except ε α) :
    OnlyDefects (x.mapError f) := by
  intro e h
  cases x with
  | error e' =>
    cases h
    exact hf e'
  | ok a => cases h

theorem required (name : String) (field : Option α) : OnlyDefects (Frame.required name field) := by
  cases field with
  | some a => exact .ok a
  | none => exact .error _

theorem requiredKey (name : String) (field : Option Bytes) :
    OnlyDefects (Frame.requiredKey name field) := by
  refine (OnlyDefects.required name field).bind fun raw => ?_
  split
  · exact .ok _
  · exact .error _

end OnlyDefects

theorem RatchetMessage.onlyDefects_assemble (t) : OnlyDefects (assemble t) :=
  (OnlyDefects.requiredKey _ _).bind fun _ => (OnlyDefects.required _ _).bind fun _ =>
  (OnlyDefects.required _ _).bind fun _ => (OnlyDefects.required _ _).bind fun _ => .ok _

theorem PreKeyMessage.isDefect_innerError (e : ProtocolError) : (innerError e).IsDefect := by
  cases e with
  | invalidVersion used minimum maximum => exact ⟨_, rfl⟩
  | invalidMessage defect => exact ⟨_, rfl⟩

theorem PreKeyMessage.onlyDefects_assemble (t) : OnlyDefects (assemble t) :=
  (OnlyDefects.required _ _).bind fun _ =>
  (OnlyDefects.mapError isDefect_innerError _).bind fun _ =>
  (OnlyDefects.required _ _).bind fun _ => (OnlyDefects.requiredKey _ _).bind fun _ =>
  (OnlyDefects.requiredKey _ _).bind fun _ => .ok _

theorem PreKeyBundle.onlyDefects_assemble (t) : OnlyDefects (assemble t) :=
  (OnlyDefects.required _ _).bind fun _ => (OnlyDefects.required _ _).bind fun _ =>
  (OnlyDefects.requiredKey _ _).bind fun _ => (OnlyDefects.requiredKey _ _).bind fun _ => .ok _

theorem KeyExchangeMessage.onlyDefects_assemble (t) : OnlyDefects (assemble t) :=
  (OnlyDefects.required _ _).bind fun _ =>
  (OnlyDefects.mapError (fun d => ⟨d, rfl⟩) _).bind fun _ =>
  (OnlyDefects.required _ _).bind fun _ => (OnlyDefects.requiredKey _ _).bind fun _ =>
  (OnlyDefects.requiredKey _ _).bind fun _ => (OnlyDefects.requiredKey _ _).bind fun _ => .ok _

/-! ### First bytes -/

/-- Whether the version that a first byte names is read. -/
def Version.IsRead (first : UInt8) : Prop := (2 : UInt8) ≤ first >>> 4 ∧ first >>> 4 ≤ 3

instance (first : UInt8) : Decidable (Version.IsRead first) := inferInstanceAs (Decidable (_ ∧ _))

theorem Version.peek_cons (first : UInt8) (body : Bytes) : peek (first :: body) =
    if (3 : UInt8) < first >>> 4 then .error (.invalidVersion (first >>> 4) 2 3)
    else .ok ⟨first >>> 4, first &&& 0x0f⟩ := rfl

theorem Version.supportedBody_cons (first : UInt8) (body : Bytes) : supportedBody (first :: body) =
    if IsRead first then .ok body else .error (.invalidVersion (first >>> 4) 2 3) := by
  rw [supportedBody, peek_cons]
  by_cases hnew : (3 : UInt8) < first >>> 4
  · have hread : ¬IsRead first := fun h => absurd hnew (UInt8.not_lt.mpr h.2)
    rw [if_pos hnew, if_neg hread]
    rfl
  · rw [if_neg hnew]
    by_cases hold : first >>> 4 < 2
    · have hread : ¬IsRead first := fun h => absurd hold (UInt8.not_lt.mpr h.1)
      have hlegacy : isLegacy ⟨first >>> 4, first &&& 0x0f⟩ = true := decide_eq_true hold
      rw [if_neg hread]
      show (if isLegacy ⟨first >>> 4, first &&& 0x0f⟩ = true then _ else _) = _
      rw [if_pos hlegacy]
      rfl
    · have hread : IsRead first := ⟨UInt8.not_lt.mp hold, UInt8.not_lt.mp hnew⟩
      have hlegacy : ¬isLegacy ⟨first >>> 4, first &&& 0x0f⟩ = true := fun h =>
        hold (of_decide_eq_true h)
      rw [if_pos hread]
      show (if isLegacy ⟨first >>> 4, first &&& 0x0f⟩ = true then _ else _) = _
      rw [if_neg hlegacy]
      rfl

namespace Frame

variable {τ : Type} {fs : Fields τ}

/-- Past the gate, only the body is looked at. -/
theorem decode_of_isRead {first : UInt8} (h : Version.IsRead first) (body : Bytes) :
    decode fs (first :: body) = (fs.decoder.run body).mapError fun e =>
      .invalidMessage (.undecodable e) := by
  rw [decode, Version.supportedBody_cons, if_pos h]
  simp only [bind, Except.bind]
  cases fs.decoder.run body <;> rfl

theorem decode_of_not_isRead {first : UInt8} (h : ¬Version.IsRead first) (body : Bytes) :
    decode fs (first :: body) = .error (.invalidVersion (first >>> 4) 2 3) := by
  rw [decode, Version.supportedBody_cons, if_neg h]
  rfl

theorem onlyDefects_of_isRead {first : UInt8} (h : Version.IsRead first) (body : Bytes) :
    OnlyDefects (decode fs (first :: body)) := by
  rw [decode_of_isRead h]
  exact .mapError (fun e => ⟨_, rfl⟩) _

/-! ### Required fields -/

@[simp] theorem required_eq_ok {α : Type} {name : String} {field : Option α} {a : α} :
    required name field = .ok a ↔ field = some a := by
  cases field <;> simp [required]

theorem length_of_requiredKey {name : String} {field : Option Bytes} {k : PublicKey}
    (h : requiredKey name field = .ok k) : field.elim 0 List.length = 32 := by
  obtain ⟨raw, hraw, hkey⟩ := bind_eq_ok.mp h
  cases required_eq_ok.mp hraw
  unfold PublicKey.ofBytes? Key.ofBytes? at hkey
  split_ifs at hkey with hlength
  · exact hlength
  · cases hkey

end Frame

end SecureSession
