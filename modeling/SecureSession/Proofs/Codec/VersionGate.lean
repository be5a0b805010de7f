import SecureSession.Proofs.Codec.Frames

/-! # The version gate

The first byte of a message alone decides whether its version is refused, no longer read, or read.
Past the gate the byte is not looked at again: whatever is wrong with the rest of the message, the
version of a message inside it included, is a defect of the message. -/

namespace SecureSession

open Cbor (Fields)

variable {α β : Type}

/-! ### The gate of a frame -/

/-- Whether the first byte decides alone if the version is refused, and once
it is not plays no part. -/
structure Gated (decode : Bytes → Except ProtocolError α) : Prop where
  refused : ∀ bytes used minimum maximum, decode bytes =
    .error (.invalidVersion used minimum maximum) ↔
    ∃ first body, bytes = first :: body ∧ ¬Version.IsRead first ∧
      used = first >>> 4 ∧ minimum = 2 ∧ maximum = 3
  alike : ∀ first first' body, Version.IsRead first → Version.IsRead first' →
    decode (first :: body) = decode (first' :: body)

namespace Frame

variable {τ : Type} {fs : Fields τ}

/-- Whatever is put together from a framed structure is gated, if only its defects are refused. -/
theorem gated {assemble : τ → Except ProtocolError α} (h : ∀ t, OnlyDefects (assemble t)) :
    Gated fun bytes => decode fs bytes >>= assemble where
  refused bytes used minimum maximum := by
    constructor
    · intro herror
      cases bytes with
      | nil => cases herror
      | cons first body =>
        by_cases hread : Version.IsRead first
        · obtain ⟨d, hd⟩ := ((onlyDefects_of_isRead hread body).bind h) _ herror
          cases hd
        · have hgate : (.error (.invalidVersion (first >>> 4) 2 3) : Except ProtocolError α) =
              .error (.invalidVersion used minimum maximum) := by
            rw [← herror, decode_of_not_isRead hread]
            rfl
          cases hgate
          exact ⟨first, body, rfl, hread, rfl, rfl, rfl⟩
    · rintro ⟨first, body, rfl, hread, rfl, rfl, rfl⟩
      rw [decode_of_not_isRead hread]
      rfl
  alike first first' body hread hread' := by
    rw [decode_of_isRead hread, decode_of_isRead hread']

end Frame

theorem RatchetMessage.gated : Gated decode := Frame.gated onlyDefects_assemble

theorem PreKeyMessage.gated : Gated decode := Frame.gated onlyDefects_assemble

theorem PreKeyBundle.gated : Gated decode := Frame.gated onlyDefects_assemble

theorem KeyExchangeMessage.gated : Gated decode := Frame.gated onlyDefects_assemble

/-! ### A message inside a message -/

/-- The version of the message inside is looked at before anything else of the message around it. -/
theorem PreKeyMessage.decode_inner {first v : UInt8} {body inner : Bytes} {t}
    (hfirst : Version.IsRead first) (hfields : fields.decoder.run body = .ok t)
    (hmessage : t.2.2.2.1 = some (v :: inner)) (hv : ¬Version.IsRead v) :
    decode (first :: body) = .error (.invalidMessage (.innerVersion (v >>> 4))) := by
  obtain ⟨prekeyId, baseKey, identityKey, message, u⟩ := t
  obtain rfl : message = some (v :: inner) := hmessage
  have hinner : RatchetMessage.decode (v :: inner) = .error (.invalidVersion (v >>> 4) 2 3) :=
    (RatchetMessage.gated.refused _ _ _ _).mpr ⟨v, inner, rfl, hv, rfl, rfl, rfl⟩
  have hassemble : assemble (prekeyId, baseKey, identityKey, some (v :: inner), u) =
      .error (.invalidMessage (.innerVersion (v >>> 4))) := by
    show ((RatchetMessage.decode (v :: inner)).mapError innerError >>= _) = _
    rw [hinner]
    rfl
  rw [decode_eq, Frame.decode_of_isRead hfirst, hfields]
  exact hassemble

/-! ### The gate of a handshake -/

namespace HandshakeMessage

variable {kind : HandshakeKind} {first : UInt8}

theorem decode_of_new (h : (3 : UInt8) < first >>> 4) (body : Bytes) :
    decode kind (first :: body) = .error (.invalidVersion (first >>> 4) 2 3) := by
  unfold decode
  rw [Version.peek_cons, if_pos h]
  rfl

theorem decode_of_old (h : first >>> 4 < 2) (body : Bytes) :
    decode kind (first :: body) = .ok (legacy kind (first >>> 4)) := by
  have hnew : ¬(3 : UInt8) < first >>> 4 := UInt8.lt_asymm (UInt8.lt_trans h (by decide))
  have hlegacy : Version.isLegacy ⟨first >>> 4, first &&& 0x0f⟩ = true := decide_eq_true h
  unfold decode
  rw [Version.peek_cons, if_neg hnew]
  show (if Version.isLegacy ⟨first >>> 4, first &&& 0x0f⟩ = true then _ else _) = _
  rw [if_pos hlegacy]
  rfl

theorem decode_of_isRead (h : Version.IsRead first) (body : Bytes) : decode kind (first :: body) =
    match kind with
    | .prekey => (PreKeyMessage.decode (first :: body)).map bundle
    | .keyExchange => (KeyExchangeMessage.decode (first :: body)).map ofExchange := by
  have hlegacy : ¬Version.isLegacy ⟨first >>> 4, first &&& 0x0f⟩ = true := fun hold =>
    absurd (of_decide_eq_true hold) (UInt8.not_lt.mpr h.1)
  unfold decode
  rw [Version.peek_cons, if_neg (UInt8.not_lt.mpr h.2)]
  show (if Version.isLegacy ⟨first >>> 4, first &&& 0x0f⟩ = true then _ else _) = _
  rw [if_neg hlegacy]
  cases kind <;> rfl

/-- Too new, too old or read: there is nothing else. -/
theorem new_or_old_or_isRead (first : UInt8) :
    (3 : UInt8) < first >>> 4 ∨ first >>> 4 < 2 ∨ Version.IsRead first := by
  by_cases hnew : (3 : UInt8) < first >>> 4
  · exact .inl hnew
  · by_cases hold : first >>> 4 < 2
    · exact .inr (.inl hold)
    · exact .inr (.inr ⟨UInt8.not_lt.mp hold, UInt8.not_lt.mp hnew⟩)

/-- Past the gate nothing is legacy, and only defects are refused. -/
theorem onlyDefects_of_isRead (h : Version.IsRead first) (body : Bytes) :
    OnlyDefects (decode kind (first :: body)) ∧
      ∀ kind' used, decode kind (first :: body) ≠ .ok (legacy kind' used) := by
  rw [decode_of_isRead h]
  cases kind with
  | prekey =>
    have hdefects : OnlyDefects (PreKeyMessage.decode (first :: body)) :=
      (Frame.onlyDefects_of_isRead h body).bind PreKeyMessage.onlyDefects_assemble
    refine ⟨hdefects.map bundle, fun kind' used heq => ?_⟩
    obtain ⟨m, -, hkind⟩ := map_eq_ok.mp heq
    cases hkind
  | keyExchange =>
    have hdefects : OnlyDefects (KeyExchangeMessage.decode (first :: body)) :=
      (Frame.onlyDefects_of_isRead h body).bind KeyExchangeMessage.onlyDefects_assemble
    refine ⟨hdefects.map ofExchange, fun kind' used heq => ?_⟩
    obtain ⟨m, -, hkind⟩ := map_eq_ok.mp heq
    unfold ofExchange at hkind
    split_ifs at hkind

theorem decode_eq_invalidVersion_iff {bytes : Bytes} {used minimum maximum : UInt8} :
    decode kind bytes = .error (.invalidVersion used minimum maximum) ↔
      ∃ first body, bytes = first :: body ∧ (3 : UInt8) < first >>> 4 ∧
        used = first >>> 4 ∧ minimum = 2 ∧ maximum = 3 := by
  constructor
  · intro h
    cases bytes with
    | nil => cases h
    | cons first body =>
      obtain hnew | hold | hread := new_or_old_or_isRead first
      · rw [decode_of_new hnew] at h
        cases h
        exact ⟨first, body, rfl, hnew, rfl, rfl, rfl⟩
      · rw [decode_of_old hold] at h
        cases h
      · obtain ⟨d, hd⟩ := (onlyDefects_of_isRead hread body).1 _ h
        cases hd
  · rintro ⟨first, body, rfl, hnew, rfl, rfl, rfl⟩
    exact decode_of_new hnew body

theorem decode_eq_legacy_iff {bytes : Bytes} {kind' : HandshakeKind} {used : UInt8} :
    decode kind bytes = .ok (legacy kind' used) ↔
      ∃ first body, bytes = first :: body ∧ first >>> 4 < 2 ∧ kind' = kind ∧
        used = first >>> 4 := by
  constructor
  · intro h
    cases bytes with
    | nil => cases h
    | cons first body =>
      obtain hnew | hold | hread := new_or_old_or_isRead first
      · rw [decode_of_new hnew] at h
        cases h
      · rw [decode_of_old hold] at h
        cases h
        exact ⟨first, body, rfl, hold, rfl, rfl⟩
      · exact absurd h ((onlyDefects_of_isRead hread body).2 _ _)
  · rintro ⟨first, body, rfl, hold, rfl, rfl⟩
    exact decode_of_old hold body

/-- Which of the versions that are read the first byte names, and the oldest that the sender reads,
change nothing. -/
theorem decode_alike {first' : UInt8} (h : Version.IsRead first) (h' : Version.IsRead first')
    (body : Bytes) : decode kind (first :: body) = decode kind (first' :: body) := by
  rw [decode_of_isRead h, decode_of_isRead h', PreKeyMessage.gated.alike first first' body h h',
    KeyExchangeMessage.gated.alike first first' body h h']

end HandshakeMessage

/-! ### Every gate -/

/-- A handshake message is refused for its version exactly if its first byte names one newer than
any that is read, and legacy exactly if it names an older one, whatever follows. Otherwise the first
byte changes nothing, and an unsupported version of the message inside a first message is a defect.
Messages that are read on their own are refused for their version exactly if it is not read. -/
theorem versions_gated :
    (∀ (kind : HandshakeKind) (bytes : Bytes) (used minimum maximum : UInt8),
      HandshakeMessage.decode kind bytes = .error (.invalidVersion used minimum maximum) ↔
        ∃ first body, bytes = first :: body ∧ (3 : UInt8) < first >>> 4 ∧
          used = first >>> 4 ∧ minimum = 2 ∧ maximum = 3) ∧
    (∀ (kind : HandshakeKind) (bytes : Bytes) (kind' : HandshakeKind) (used : UInt8),
      HandshakeMessage.decode kind bytes = .ok (.legacy kind' used) ↔
        ∃ first body, bytes = first :: body ∧ first >>> 4 < 2 ∧ kind' = kind ∧ used = first >>> 4) ∧
    (∀ (kind : HandshakeKind) (first first' : UInt8) (body : Bytes),
      Version.IsRead first → Version.IsRead first' →
        HandshakeMessage.decode kind (first :: body) =
        HandshakeMessage.decode kind (first' :: body)) ∧
    (∀ (first v : UInt8) (body inner : Bytes) t, Version.IsRead first → ¬Version.IsRead v →
      PreKeyMessage.fields.decoder.run body = .ok t → t.2.2.2.1 = some (v :: inner) →
        HandshakeMessage.decode .prekey (first :: body) =
          .error (.invalidMessage (.innerVersion (v >>> 4)))) ∧
    Gated PreKeyMessage.decode ∧ Gated KeyExchangeMessage.decode ∧ Gated RatchetMessage.decode ∧
    Gated PreKeyBundle.decode := by
  refine ⟨fun kind bytes used minimum maximum => HandshakeMessage.decode_eq_invalidVersion_iff,
    fun kind bytes kind' used => HandshakeMessage.decode_eq_legacy_iff,
    fun kind first first' body h h' => HandshakeMessage.decode_alike h h' body,
    fun first v body inner t hfirst hv hfields hmessage => ?_, PreKeyMessage.gated,
    KeyExchangeMessage.gated, RatchetMessage.gated, PreKeyBundle.gated⟩
  rw [HandshakeMessage.decode_of_isRead hfirst]
  dsimp only
  rw [PreKeyMessage.decode_inner hfirst hfields hmessage hv]
  rfl

/-- A first message that carries a message in version one, under two first bytes, and the same bytes
in version four and in version one. -/
theorem versions_gated_inner :
    let inner : Bytes := [0x13, 0xa0]
    let body : Bytes := [0xa1, 0x67] ++ Bytes.ofString "message" ++ [0x42] ++ inner
    HandshakeMessage.decode .prekey (0x32 :: body) = .error (.invalidMessage (.innerVersion 1)) ∧
    HandshakeMessage.decode .prekey (0x2f :: body) =
    HandshakeMessage.decode .prekey (0x32 :: body) ∧
    HandshakeMessage.decode .prekey (0x43 :: body) = .error (.invalidVersion 4 2 3) ∧
    HandshakeMessage.decode .prekey (0x13 :: body) = .ok (.legacy .prekey 1) := by
  intro inner body
  obtain ⟨hnew, hold, halike, hinner, -⟩ := versions_gated
  have hfields :
      PreKeyMessage.fields.decoder.run body = .ok (none, none, none, some inner, ()) := rfl
  exact ⟨hinner 0x32 0x13 body [0xa0] _ (by decide) (by decide) hfields rfl,
    halike .prekey 0x2f 0x32 body (by decide) (by decide),
    (hnew .prekey _ 4 2 3).mpr ⟨0x43, body, rfl, by decide, rfl, rfl, rfl⟩,
    (hold .prekey _ .prekey 1).mpr ⟨0x13, body, rfl, by decide, rfl, rfl⟩⟩

end SecureSession
