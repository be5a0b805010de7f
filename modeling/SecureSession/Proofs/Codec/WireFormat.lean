import SecureSession.Proofs.Cbor.Consumption
import SecureSession.Proofs.Codec.Frames
import SecureSession.Proofs.Codec.Records

/-! # The wire format

Every message that can be written is read back as it was, and a leg of an exchange whose flags say
nothing is refused. The only bound is that of the format itself: lengths are announced in eight
bytes. Whatever is read, however it was written, can be written and is then read back. -/

namespace SecureSession

open Cbor (Decoder Fields)

/-! ### Flags -/

namespace ExchangeFlags

theorem forall_bits {P : UInt8 → Prop} (h : ∀ n : Fin 256, P (UInt8.ofNat n)) (bits : UInt8) :
    P bits := by
  have hbits := h ⟨bits.toNat, bits.toNat_lt⟩
  rwa [UInt8.ofNat_toNat] at hbits

/-- Three bits have a meaning, and two of them name a role. -/
theorem ofBits_eq (f : ExchangeFlags) : ofBits f.bits =
    if 7 < f.bits then .error (.unknownFlags f.bits)
    else if f.contains initiate ∨ f.contains response then .ok f
    else .error .noRole :=
  forall_bits (P := fun bits => ofBits bits = if 7 < bits then .error (.unknownFlags bits)
    else if contains ⟨bits⟩ initiate ∨ contains ⟨bits⟩ response then .ok ⟨bits⟩
    else .error .noRole) (by decide +kernel) f.bits

theorem isValid_iff (f : ExchangeFlags) :
    f.IsValid ↔ f.bits ≤ 7 ∧ (f.contains initiate = true ∨ f.contains response = true) :=
  forall_bits (P := fun bits => IsValid ⟨bits⟩ ↔ bits ≤ 7 ∧
    (contains ⟨bits⟩ initiate = true ∨ contains ⟨bits⟩ response = true)) (by decide +kernel) f.bits

theorem isValid_of_ofBits {bits : UInt8} {f : ExchangeFlags} (h : ofBits bits = .ok f) :
    f.IsValid := by
  have heq := ofBits_eq ⟨bits⟩
  rw [show ofBits (ExchangeFlags.mk bits).bits = .ok f from h] at heq
  split_ifs at heq with hbits hrole
  cases heq
  exact (isValid_iff _).mpr ⟨UInt8.not_lt.mp hbits, hrole⟩

end ExchangeFlags

/-! ### Reading what was written -/

/-- A leg is read back if its flags say something, and refused otherwise. -/
theorem KeyExchangeMessage.decode_encode_cases (m : KeyExchangeMessage) : decode m.encode =
    if 7 < m.flags.bits then .error (.invalidMessage (.unknownFlags m.flags.bits))
    else if m.isInitiate ∨ m.isResponse then .ok m
    else .error (.invalidMessage .noRole) := by
  have hread := decode_encode_eq m []
  rw [List.append_nil, ExchangeFlags.ofBits_eq] at hread
  rw [hread]
  unfold isInitiate isResponse
  split_ifs <;> rfl

namespace HandshakeMessage

theorem isReadBack_initiate {m : KeyExchangeMessage} (hbits : m.flags.bits ≤ 7)
    (hrole : m.isInitiate = true) : (initiate m).IsReadBack := by
  have hread : (ofExchange m).IsReadBack := isReadBack_ofExchange (by
    rw [KeyExchangeMessage.decode_encode_cases, if_neg (UInt8.not_lt.mpr hbits),
      if_pos (.inl hrole)])
  rwa [ofExchange, if_pos hrole] at hread

theorem isReadBack_response {m : KeyExchangeMessage} (hbits : m.flags.bits ≤ 7)
    (hrole : m.isResponse = true) (hother : ¬m.isInitiate = true) : (response m).IsReadBack := by
  have hread : (ofExchange m).IsReadBack := isReadBack_ofExchange (by
    rw [KeyExchangeMessage.decode_encode_cases, if_neg (UInt8.not_lt.mpr hbits),
      if_pos (.inr hrole)])
  rwa [ofExchange, if_neg hother] at hread

end HandshakeMessage

/-- Every message of the format is read back as it was written, if there is a way to write it. -/
theorem messages_readBack :
    (∀ m : RatchetMessage, m.ciphertext.length < UInt64.size →
      RatchetMessage.decode m.encode = .ok m) ∧
    (∀ m : PreKeyMessage, m.message.encode.length < UInt64.size →
      PreKeyMessage.decode m.encode = .ok m) ∧
    (∀ b : PreKeyBundle, PreKeyBundle.decode b.encode = .ok b) ∧
    (∀ m : KeyExchangeMessage, KeyExchangeMessage.decode m.encode =
      if 7 < m.flags.bits then .error (.invalidMessage (.unknownFlags m.flags.bits))
      else if m.isInitiate ∨ m.isResponse then .ok m
      else .error (.invalidMessage .noRole)) ∧
    ∀ m : HandshakeMessage, match m with
      | .bundle first => first.message.encode.length < UInt64.size → m.IsReadBack
      | .initiate leg => leg.flags.bits ≤ 7 → leg.isInitiate = true → m.IsReadBack
      | .response leg => leg.flags.bits ≤ 7 → leg.isResponse = true → ¬leg.isInitiate = true →
          m.IsReadBack
      | .legacy _ used => m.encode = .error (Version.unsupported used) := by
  have hfirst : ∀ m : PreKeyMessage, m.message.encode.length < UInt64.size →
      PreKeyMessage.decode m.encode = .ok m := fun m hm => by
    simpa using PreKeyMessage.decode_encode hm []
  refine ⟨fun m hm => ?_, hfirst, fun b => ?_, KeyExchangeMessage.decode_encode_cases, fun m => ?_⟩
  · simpa using RatchetMessage.decode_encode hm []
  · simpa using PreKeyBundle.decode_encode b []
  · cases m with
    | bundle first => exact fun hm => HandshakeMessage.isReadBack_bundle (hfirst first hm)
    | initiate leg => exact HandshakeMessage.isReadBack_initiate
    | response leg => exact HandshakeMessage.isReadBack_response
    | legacy kind used => rfl

/-- Lengths and numbers on both sides of where a head grows. -/
theorem messages_readBack_samples :
    let leg (flags : UInt8) : KeyExchangeMessage := {
      sequence := 65536
      flags := ⟨flags⟩
      baseKey := ⟨.replicate 23⟩
      ephemeralKey := ⟨.replicate 24⟩
      identityKey := ⟨.replicate 255⟩ }
    let first : PreKeyMessage := {
      prekeyId := 4294967295
      baseKey := ⟨.replicate 23⟩
      identityKey := ⟨.replicate 24⟩
      message := {
        senderEphemeral := ⟨.replicate 255⟩
        counter := 255
        previousCounter := 256
        ciphertext := List.replicate 300 255 } }
    RatchetMessage.decode first.message.encode = .ok first.message ∧
      PreKeyMessage.decode first.encode = .ok first ∧ (HandshakeMessage.bundle first).IsReadBack ∧
      (HandshakeMessage.initiate (leg 1)).IsReadBack ∧
      (HandshakeMessage.response (leg 6)).IsReadBack := by
  intro leg first
  have hinner : first.message.encode.length < UInt64.size := by decide +kernel
  exact ⟨messages_readBack.1 first.message (by decide +kernel), messages_readBack.2.1 first hinner,
    messages_readBack.2.2.2.2 (.bundle first) hinner,
    messages_readBack.2.2.2.2 (.initiate (leg 1)) (by decide) (by decide),
    messages_readBack.2.2.2.2 (.response (leg 6)) (by decide) (by decide) (by decide)⟩

/-! ### Writing what was read -/

/-- What is left of a message without its version. -/
theorem Version.length_of_supportedBody {bytes body : Bytes} (h : supportedBody bytes = .ok body) :
    1 + body.length = bytes.length := by
  obtain ⟨v, hv, hbody⟩ := bind_eq_ok.mp h
  cases bytes with
  | nil => cases hv
  | cons b bytes =>
    by_cases hlegacy : v.isLegacy = true
    · rw [hlegacy] at hbody; cases hbody
    · rw [Bool.not_eq_true] at hlegacy
      rw [hlegacy] at hbody
      cases hbody
      simp [Nat.add_comm]

namespace Frame

/-- A message is longer than its fields by its version. -/
theorem length_of_decode {τ : Type} {fs : Fields τ} {total : τ → Nat} {seen : fs.Draft → Nat}
    (h : fs.Spends total seen) {bytes : Bytes} {t : τ} (hd : decode fs bytes = .ok t) :
    1 + total t ≤ bytes.length := by
  obtain ⟨body, hbody, hread⟩ := bind_eq_ok.mp hd
  have hversion := Version.length_of_supportedBody hbody
  cases hrun : fs.decoder.run body with
  | error e => rw [hrun] at hread; cases hread
  | ok t' =>
    rw [hrun] at hread
    cases hread
    have := h.decoder.run hrun
    omega

end Frame

/-- A message that was read is longer than its content by a version and a key at least. -/
theorem RatchetMessage.length_of_decode {bytes : Bytes} {m : RatchetMessage}
    (h : decode bytes = .ok m) : 33 + m.ciphertext.length ≤ bytes.length := by
  have hspends : fields.Spends _ _ :=
    .optional Decoder.spends_octets <| .optional Decoder.spends_uint32 <|
    .optional Decoder.spends_uint32 <| .optional Decoder.spends_octets .nil
  obtain ⟨⟨senderEphemeral, counter, previousCounter, ciphertext, _⟩, hfields, h⟩ := bind_eq_ok.mp h
  obtain ⟨key, hkey, h⟩ := bind_eq_ok.mp h
  obtain ⟨_, _, h⟩ := bind_eq_ok.mp h
  obtain ⟨_, _, h⟩ := bind_eq_ok.mp h
  obtain ⟨content, hcontent, h⟩ := bind_eq_ok.mp h
  cases h
  cases Frame.required_eq_ok.mp hcontent
  have hlength := Frame.length_of_decode hspends hfields
  have := Frame.length_of_requiredKey hkey
  dsimp only [Option.elim_some] at hlength ⊢
  omega

/-- A first message that was read is longer than the content in it by two versions
and three keys at least. -/
theorem PreKeyMessage.length_of_decode {bytes : Bytes} {m : PreKeyMessage}
    (h : decode bytes = .ok m) : 98 + m.message.ciphertext.length ≤ bytes.length := by
  have hspends : fields.Spends _ _ :=
    .optional Decoder.spends_uint32 <| .optional Decoder.spends_octets <|
    .optional Decoder.spends_octets <| .optional Decoder.spends_octets .nil
  obtain ⟨⟨prekeyId, baseKey, identityKey, message, _⟩, hfields, h⟩ := bind_eq_ok.mp h
  obtain ⟨raw, hraw, h⟩ := bind_eq_ok.mp h
  obtain ⟨inner, hinner, h⟩ := bind_eq_ok.mp h
  obtain ⟨_, _, h⟩ := bind_eq_ok.mp h
  obtain ⟨base, hbase, h⟩ := bind_eq_ok.mp h
  obtain ⟨identity, hidentity, h⟩ := bind_eq_ok.mp h
  cases h
  cases Frame.required_eq_ok.mp hraw
  have hmessage := RatchetMessage.length_of_decode (mapError_eq_ok.mp hinner)
  have hlength := Frame.length_of_decode hspends hfields
  have := Frame.length_of_requiredKey hbase
  have := Frame.length_of_requiredKey hidentity
  dsimp only [Option.elim_some] at hlength ⊢
  omega

theorem KeyExchangeMessage.isValid_of_decode {bytes : Bytes} {m : KeyExchangeMessage}
    (h : decode bytes = .ok m) : m.flags.IsValid := by
  obtain ⟨⟨sequence, flags, baseKey, ephemeralKey, identityKey, _⟩, _, h⟩ := bind_eq_ok.mp h
  obtain ⟨bits, _, h⟩ := bind_eq_ok.mp h
  obtain ⟨read, hread, h⟩ := bind_eq_ok.mp h
  have hvalid := ExchangeFlags.isValid_of_ofBits (mapError_eq_ok.mp hread)
  obtain ⟨_, _, h⟩ := bind_eq_ok.mp h
  obtain ⟨_, _, h⟩ := bind_eq_ok.mp h
  obtain ⟨_, _, h⟩ := bind_eq_ok.mp h
  obtain ⟨_, _, h⟩ := bind_eq_ok.mp h
  cases h
  exact hvalid

/-- What is read of bytes that memory can hold, in whatever form they put it, can be written and is
then read back; of a legacy message there is nothing to write. -/
theorem decoded_readBack :
    (∀ (kind : HandshakeKind) (bytes : Bytes) (m : HandshakeMessage), bytes.length < 2 ^ 63 →
      HandshakeMessage.decode kind bytes = .ok m → m.kind = kind ∧
        match m with
        | .legacy _ used => m.encode = .error (Version.unsupported used)
        | _ => m.IsReadBack) ∧
    ∀ (bytes : Bytes) (r : SessionRecord), SessionRecord.decode bytes = .ok r →
      SessionRecord.decode r.encode = .ok r := by
  refine ⟨fun kind bytes m hlength h => ?_, fun bytes r h => ?_⟩
  · obtain ⟨v, _, h⟩ := bind_eq_ok.mp h
    by_cases hlegacy : v.isLegacy = true
    · rw [if_pos hlegacy] at h
      cases h
      exact ⟨rfl, rfl⟩
    · rw [if_neg hlegacy] at h
      cases kind with
      | prekey =>
        obtain ⟨first, hfirst, h⟩ := bind_eq_ok.mp h
        cases h
        have hcontent := PreKeyMessage.length_of_decode hfirst
        have hinner := first.message.length_encode_le
        refine ⟨rfl, HandshakeMessage.isReadBack_bundle ?_⟩
        simpa using PreKeyMessage.decode_encode (m := first)
          (by rw [show UInt64.size = 2 ^ 64 from rfl]; omega) []
      | keyExchange =>
        obtain ⟨leg, hleg, h⟩ := bind_eq_ok.mp h
        cases h
        have hread : (HandshakeMessage.ofExchange leg).IsReadBack :=
          HandshakeMessage.isReadBack_ofExchange (by
            simpa using KeyExchangeMessage.decode_encode
              (KeyExchangeMessage.isValid_of_decode hleg) [])
        unfold HandshakeMessage.ofExchange at hread ⊢
        split_ifs at hread ⊢
        · exact ⟨rfl, hread⟩
        · exact ⟨rfl, hread⟩
  · simpa using SessionRecord.decode_encode (SessionRecord.isBounded_of_decode h) []

/-- A ratchet message in an older version, its fields in another order, its keys as byte strings. -/
def looseRatchetMessage : Bytes :=
  [0x22, 0xa4, 0x6a] ++ Bytes.ofString "ciphertext" ++ [0x43, 7, 8, 9] ++
  [0x67] ++ Bytes.ofString "counter" ++ [0x19, 0x00, 0x05] ++
  [0x70] ++ Bytes.ofString "previous_counter" ++ [0x00] ++
  [0x70] ++ Bytes.ofString "sender_ephemeral" ++ [0x58, 0x20] ++ List.replicate 32 1

/-- A first message of indefinite length, with a tag, a big number, a string in segments, a field
without meaning and a byte too many. -/
def loosePreKeyMessage : Bytes :=
  [0x32, 0xbf, 0x67] ++ Bytes.ofString "message" ++ [0x58, 97] ++ looseRatchetMessage ++
  [0x61] ++ Bytes.ofString "x" ++ [0x9f, 0xf6, 0xff] ++
  [0x6c] ++ Bytes.ofString "identity_key" ++ [0xc1, 0x58, 0x20] ++ List.replicate 32 2 ++
  [0x68] ++ Bytes.ofString "base_key" ++
    [0x5f, 0x50] ++ List.replicate 16 3 ++ [0x50] ++ List.replicate 16 3 ++ [0xff] ++
  [0x69] ++ Bytes.ofString "prekey_id" ++ [0xc2, 0x41, 0x07, 0xff, 0x00]

/-- The loose message is read, and then written in the one way this library writes. -/
theorem decoded_readBack_loose : ∃ m, HandshakeMessage.decode .prekey loosePreKeyMessage = .ok m ∧
    m.kind = .prekey ∧ m.IsReadBack := by
  let m : PreKeyMessage := {
    prekeyId := 7
    baseKey := ⟨.replicate 3⟩
    identityKey := ⟨.replicate 2⟩
    message := {
      senderEphemeral := ⟨.replicate 1⟩
      counter := 5
      previousCounter := 0
      ciphertext := [7, 8, 9] } }
  have hread : HandshakeMessage.decode .prekey loosePreKeyMessage = .ok (.bundle m) := by
    decide +kernel
  exact ⟨.bundle m, hread,
    decoded_readBack.1 .prekey loosePreKeyMessage (.bundle m) (by decide +kernel) hread⟩

end SecureSession
