import SecureSession.Message.HandshakeMessage
import SecureSession.Message.PreKeyBundle
import SecureSession.Proofs.Cbor.Structures

/-! # Reading back messages

What is read from an encoded message is the message, whatever follows it. A leg of an
exchange has to carry flags with a meaning and a role, and content has to have a length
that a head can announce. -/

namespace SecureSession

open Cbor (Decoder Fields Item)
open Cbor.Decoder (ReadsAt Present)

/-! ### Frames -/

/-- Whether the message itself is refused, and not its version. -/
def ProtocolError.IsDefect (e : ProtocolError) : Prop := ∃ d, e = .invalidMessage d

namespace Frame

theorem supportedBody_current (bytes : Bytes) :
    Version.supportedBody (Version.current.toByte :: bytes) = .ok bytes := rfl

/-- A framed structure is read back. -/
theorem decode_encode {τ : Type} {fs : Fields τ} {items : List (String × Item)} {t : τ}
    {depth : Nat} (h : Fields.Written depth fs items t) (hfs : fs.WellNamed)
    (hd : depth < Cbor.depthLimit) (rest : Bytes) :
    decode fs (encode (.fields items) ++ rest) = .ok t := by
  have hrun := (h.readsAt hfs).run (by omega) rest
  simp only [decode, encode, List.cons_append, supportedBody_current, bind, Except.bind, hrun]
  rfl

/-- So is a message that is put together from such a structure. -/
theorem decode_encode_bind {τ α : Type} {fs : Fields τ} {items : List (String × Item)} {t : τ}
    {depth : Nat} (h : Fields.Written depth fs items t) (hfs : fs.WellNamed)
    (hd : depth < Cbor.depthLimit) {assemble : τ → Except ProtocolError α}
    {result : Except ProtocolError α} (ht : assemble t = result) (rest : Bytes) :
    decode fs (encode (.fields items) ++ rest) >>= assemble = result := by
  rw [decode_encode h hfs hd rest]
  exact ht

@[simp] theorem requiredKey_bytes (name : String) (k : PublicKey) :
    requiredKey name (some k.bytes) = .ok k := by
  simp only [requiredKey, required, PublicKey.ofBytes?, PublicKey.bytes, bind, Except.bind,
    Key.ofBytes?_bytes]
  rfl

theorem readsAt_key (k : PublicKey) :
    ReadsAt Decoder.octets.optional 1 (keyItem k).encode (some k.bytes) := by
  have hn : k.bytes.length < UInt64.size := by rw [PublicKey.bytes, k.key.length_bytes]; decide
  exact (Decoder.readsAt_octets hn).some (.octets hn)

theorem readsAt_uint32 (n : UInt32) :
    ReadsAt Decoder.uint32.optional 1 (Item.unsigned n.toNat).encode (some n) :=
  ((Decoder.readsAt_uint32 n).some (Decoder.present_unsigned (n.toNat_lt.trans (by decide)))).mono
    (by omega)

theorem readsAt_uint8 (n : UInt8) :
    ReadsAt Decoder.uint8.optional 1 (Item.unsigned n.toNat).encode (some n) :=
  ((Decoder.readsAt_uint8 n).some (Decoder.present_unsigned (n.toNat_lt.trans (by decide)))).mono
    (by omega)

theorem readsAt_octets {content : Bytes} (hn : content.length < UInt64.size) :
    ReadsAt Decoder.octets.optional 1 (Item.octets content).encode (some content) :=
  (Decoder.readsAt_octets hn).some (.octets hn)

end Frame

/-! ### Lengths -/

namespace Cbor

theorem length_head_le (major n : Nat) : (head major n).length ≤ 9 := by
  unfold head; split_ifs <;> simp

theorem Item.length_octets_le (content : Bytes) :
    (Item.octets content).encode.length ≤ 9 + 2 * content.length := by
  have hbyte : ∀ b : UInt8, (Item.unsigned b.toNat).encode.length ≤ 2 := fun b => by
    have := b.toNat_lt
    rw [Item.encode, head]
    split_ifs <;> simp at *
  have hall : ∀ l : Bytes, (l.flatMap fun b => (Item.unsigned b.toNat).encode).length ≤
      2 * l.length := by
    intro l
    induction l with
    | nil => simp
    | cons b l ih =>
      have := hbyte b
      simp only [List.flatMap_cons, List.length_append, List.length_cons]
      omega
  rw [Item.octets, Item.encode, List.length_map, Decoder.encodeAll_map, List.length_append]
  exact Nat.add_le_add (length_head_le _ _) (hall content)

theorem Item.length_le_octets (content : Bytes) :
    content.length ≤ (Item.octets content).encode.length := by
  have hall : ∀ l : Bytes, l.length ≤
      (l.flatMap fun b => (Item.unsigned b.toNat).encode).length := by
    intro l
    induction l with
    | nil => simp
    | cons b l ih =>
      have hpos : 0 < (Item.unsigned b.toNat).encode.length := by
        rw [Item.encode]; exact List.length_pos_iff.mpr (Reader.head_ne_nil _ _)
      simp only [List.flatMap_cons, List.length_append, List.length_cons]
      omega
  rw [Item.octets, Item.encode, List.length_map, Decoder.encodeAll_map, List.length_append]
  exact (hall content).trans (Nat.le_add_left _ _)

theorem Item.length_le_fields {l : List (String × Item)} {e : String × Item} (he : e ∈ l) :
    e.2.encode.length ≤ (Item.fields l).encode.length := by
  obtain ⟨before, after, rfl⟩ := List.append_of_mem he
  rw [Item.fields, Item.encode, Fields.encodeEntries_fields]
  simp only [List.flatMap_append, List.flatMap_cons, Fields.entryBytes, List.length_append]
  omega

theorem Item.length_fields_le (l : List (String × Item)) : (Item.fields l).encode.length ≤
    9 + (l.map fun e => 9 + (Bytes.ofString e.1).length + e.2.encode.length).sum := by
  have hall : (l.flatMap Fields.entryBytes).length ≤
      (l.map fun e => 9 + (Bytes.ofString e.1).length + e.2.encode.length).sum := by
    induction l with
    | nil => simp
    | cons e l ih =>
      have := length_head_le 3 (Bytes.ofString e.1).length
      simp only [List.flatMap_cons, Fields.entryBytes, Item.encode, List.length_append,
        List.map_cons, List.sum_cons] at ih ⊢
      omega
  have := length_head_le 5 l.length
  rw [Item.fields, Item.encode, List.length_map, Fields.encodeEntries_fields, List.length_append]
  omega

end Cbor

/-! ### Ratchet messages and prekey messages -/

namespace RatchetMessage

theorem fields_wellNamed : fields.WellNamed := by decide

/-- The fields of a message, in the order they are written in. -/
def entries (m : RatchetMessage) : List (String × Item) := [
  ("sender_ephemeral", Frame.keyItem m.senderEphemeral),
  ("counter", .unsigned m.counter.toNat),
  ("previous_counter", .unsigned m.previousCounter.toNat),
  ("ciphertext", .octets m.ciphertext)]

theorem toItem_eq (m : RatchetMessage) : m.toItem = .fields m.entries := rfl

/-- The fields of a message as they are read. -/
def parts (m : RatchetMessage) :
    Option Bytes × Option UInt32 × Option UInt32 × Option Bytes × Unit :=
  (some m.senderEphemeral.bytes, some m.counter, some m.previousCounter, some m.ciphertext, ())

/-- The message with some fields. -/
def assemble : Option Bytes × Option UInt32 × Option UInt32 × Option Bytes × Unit →
    Except ProtocolError RatchetMessage
  | (senderEphemeral, counter, previousCounter, ciphertext, _) => do
    return {
      senderEphemeral := ← Frame.requiredKey "sender_ephemeral" senderEphemeral
      counter := ← Frame.required "counter" counter
      previousCounter := ← Frame.required "previous_counter" previousCounter
      ciphertext := ← Frame.required "ciphertext" ciphertext }

theorem decode_eq (bytes : Bytes) : decode bytes = Frame.decode fields bytes >>= assemble := rfl

theorem written {m : RatchetMessage} (hn : m.ciphertext.length < UInt64.size) :
    Fields.Written 1 fields m.entries m.parts :=
  .cons (Frame.readsAt_key _) <| .cons (Frame.readsAt_uint32 _) <|
  .cons (Frame.readsAt_uint32 _) <| .cons (Frame.readsAt_octets hn) .nil

theorem assemble_parts (m : RatchetMessage) : assemble m.parts = .ok m := by
  simp [assemble, parts, Frame.required, bind, Except.bind, pure, Except.pure]

theorem decode_encode {m : RatchetMessage} (hn : m.ciphertext.length < UInt64.size) (rest : Bytes) :
    decode (m.encode ++ rest) = .ok m := by
  rw [encode, toItem_eq, decode_eq]
  exact Frame.decode_encode_bind (written hn) fields_wellNamed (by decide) m.assemble_parts rest

/-- A message is little longer than twice its content. -/
theorem length_encode_le (m : RatchetMessage) :
    m.encode.length ≤ 2 * m.ciphertext.length + 195 := by
  have hfields := Item.length_fields_le [("sender_ephemeral", Frame.keyItem m.senderEphemeral),
    ("counter", .unsigned m.counter.toNat), ("previous_counter", .unsigned m.previousCounter.toNat),
    ("ciphertext", .octets m.ciphertext)]
  have hnames : (Bytes.ofString "sender_ephemeral").length = 16 ∧
      (Bytes.ofString "counter").length = 7 ∧ (Bytes.ofString "previous_counter").length = 16 ∧
      (Bytes.ofString "ciphertext").length = 10 := by decide
  have hkey := Item.length_octets_le m.senderEphemeral.bytes
  have hlength : m.senderEphemeral.bytes.length = 32 := m.senderEphemeral.key.length_bytes
  have hcontent := Item.length_octets_le m.ciphertext
  have hcounter := Cbor.length_head_le 0 m.counter.toNat
  have hprevious := Cbor.length_head_le 0 m.previousCounter.toNat
  rw [encode, Frame.encode, List.length_cons, toItem]
  simp only [List.map_cons, List.map_nil, List.sum_cons, List.sum_nil, Frame.keyItem] at hfields ⊢
  rw [Item.encode] at hfields
  rw [Item.encode] at hfields
  omega

theorem length_ciphertext_le (m : RatchetMessage) : m.ciphertext.length ≤ m.encode.length := by
  have hfield : (Item.octets m.ciphertext).encode.length ≤ m.toItem.encode.length :=
    Item.length_le_fields (e := ("ciphertext", .octets m.ciphertext)) (by simp)
  have hcontent := Item.length_le_octets m.ciphertext
  rw [encode, Frame.encode, List.length_cons]
  omega

end RatchetMessage

namespace PreKeyMessage

theorem fields_wellNamed : fields.WellNamed := by decide

/-- The fields of a message, in the order they are written in. -/
def entries (m : PreKeyMessage) : List (String × Item) := [
  ("prekey_id", .unsigned m.prekeyId.toNat),
  ("base_key", Frame.keyItem m.baseKey),
  ("identity_key", Frame.keyItem m.identityKey),
  ("message", .octets m.message.encode)]

theorem toItem_eq (m : PreKeyMessage) : m.toItem = .fields m.entries := rfl

/-- The fields of a message as they are read. -/
def parts (m : PreKeyMessage) : Option UInt32 × Option Bytes × Option Bytes × Option Bytes × Unit :=
  (some m.prekeyId, some m.baseKey.bytes, some m.identityKey.bytes, some m.message.encode, ())

/-- The message with some fields. -/
def assemble : Option UInt32 × Option Bytes × Option Bytes × Option Bytes × Unit →
    Except ProtocolError PreKeyMessage
  | (prekeyId, baseKey, identityKey, message, _) => do
    let message ← (RatchetMessage.decode (← Frame.required "message" message)).mapError innerError
    return {
      prekeyId := ← Frame.required "prekey_id" prekeyId
      baseKey := ← Frame.requiredKey "base_key" baseKey
      identityKey := ← Frame.requiredKey "identity_key" identityKey
      message }

theorem decode_eq (bytes : Bytes) : decode bytes = Frame.decode fields bytes >>= assemble := rfl

theorem written {m : PreKeyMessage} (hinner : m.message.encode.length < UInt64.size) :
    Fields.Written 1 fields m.entries m.parts :=
  .cons (Frame.readsAt_uint32 _) <| .cons (Frame.readsAt_key _) <|
  .cons (Frame.readsAt_key _) <| .cons (Frame.readsAt_octets hinner) .nil

theorem assemble_parts {m : PreKeyMessage} (hinner : m.message.encode.length < UInt64.size) :
    assemble m.parts = .ok m := by
  have hmessage : RatchetMessage.decode m.message.encode = .ok m.message := by
    simpa using RatchetMessage.decode_encode (m := m.message)
      (m.message.length_ciphertext_le.trans_lt hinner) []
  simp [assemble, parts, Frame.required, hmessage, Except.mapError, bind, Except.bind, pure,
    Except.pure]

/-- A prekey message is read back if a head can announce the message inside. -/
theorem decode_encode {m : PreKeyMessage} (hinner : m.message.encode.length < UInt64.size)
    (rest : Bytes) : decode (m.encode ++ rest) = .ok m := by
  rw [encode, toItem_eq, decode_eq]
  exact Frame.decode_encode_bind (written hinner) fields_wellNamed (by decide)
    (assemble_parts hinner) rest

end PreKeyMessage

/-! ### Bundles -/

namespace PreKeyBundle

theorem fields_wellNamed : fields.WellNamed := by decide

/-- The fields of a bundle, in the order they are written in. -/
def entries (b : PreKeyBundle) : List (String × Item) := [
  ("device_id", .unsigned b.deviceId.toNat),
  ("prekey_id", .unsigned b.prekeyId.toNat),
  ("prekey", Frame.keyItem b.prekey),
  ("identity_key", Frame.keyItem b.identityKey)]

theorem toItem_eq (b : PreKeyBundle) : b.toItem = .fields b.entries := rfl

/-- The fields of a bundle as they are read. -/
def parts (b : PreKeyBundle) : Option UInt32 × Option UInt32 × Option Bytes × Option Bytes × Unit :=
  (some b.deviceId, some b.prekeyId, some b.prekey.bytes, some b.identityKey.bytes, ())

/-- The bundle with some fields. -/
def assemble : Option UInt32 × Option UInt32 × Option Bytes × Option Bytes × Unit →
    Except ProtocolError PreKeyBundle
  | (deviceId, prekeyId, prekey, identityKey, _) => do
    return {
      deviceId := ← Frame.required "device_id" deviceId
      prekeyId := ← Frame.required "prekey_id" prekeyId
      prekey := ← Frame.requiredKey "prekey" prekey
      identityKey := ← Frame.requiredKey "identity_key" identityKey }

theorem decode_eq (bytes : Bytes) : decode bytes = Frame.decode fields bytes >>= assemble := rfl

theorem written (b : PreKeyBundle) : Fields.Written 1 fields b.entries b.parts :=
  .cons (Frame.readsAt_uint32 _) <| .cons (Frame.readsAt_uint32 _) <|
  .cons (Frame.readsAt_key _) <| .cons (Frame.readsAt_key _) .nil

theorem assemble_parts (b : PreKeyBundle) : assemble b.parts = .ok b := by
  simp [assemble, parts, Frame.required, bind, Except.bind, pure, Except.pure]

theorem decode_encode (b : PreKeyBundle) (rest : Bytes) : decode (b.encode ++ rest) = .ok b := by
  rw [encode, toItem_eq, decode_eq]
  exact Frame.decode_encode_bind b.written fields_wellNamed (by decide) b.assemble_parts rest

end PreKeyBundle

/-! ### Legs of an exchange -/

namespace ExchangeFlags

/-- Whether every bit has a meaning and there is a role. -/
def IsValid (f : ExchangeFlags) : Prop :=
  all.contains f = true ∧ f.meets (initiate.union response) = true

instance (f : ExchangeFlags) : Decidable f.IsValid := inferInstanceAs (Decidable (_ ∧ _))

theorem ofBits_bits {f : ExchangeFlags} (h : f.IsValid) : ofBits f.bits = .ok f := by
  obtain ⟨hall, hmeets⟩ := h
  rw [ofBits, hall, if_neg (by simp), if_pos hmeets]

end ExchangeFlags

namespace KeyExchangeMessage

theorem fields_wellNamed : fields.WellNamed := by decide

/-- The fields of a leg, in the order they are written in. -/
def entries (m : KeyExchangeMessage) : List (String × Item) := [
  ("sequence", .unsigned m.sequence.toNat),
  ("flags", .unsigned m.flags.bits.toNat),
  ("base_key", Frame.keyItem m.baseKey),
  ("ephemeral_key", Frame.keyItem m.ephemeralKey),
  ("identity_key", Frame.keyItem m.identityKey)]

theorem toItem_eq (m : KeyExchangeMessage) : m.toItem = .fields m.entries := rfl

/-- The fields of a leg as they are read. -/
def parts (m : KeyExchangeMessage) :
    Option UInt32 × Option UInt8 × Option Bytes × Option Bytes × Option Bytes × Unit :=
  (some m.sequence, some m.flags.bits, some m.baseKey.bytes, some m.ephemeralKey.bytes,
    some m.identityKey.bytes, ())

/-- The leg with some fields. -/
def assemble : Option UInt32 × Option UInt8 × Option Bytes × Option Bytes × Option Bytes × Unit →
    Except ProtocolError KeyExchangeMessage
  | (sequence, flags, baseKey, ephemeralKey, identityKey, _) => do
    let flags ← (ExchangeFlags.ofBits (← Frame.required "flags" flags)).mapError .invalidMessage
    return {
      sequence := ← Frame.required "sequence" sequence
      flags
      baseKey := ← Frame.requiredKey "base_key" baseKey
      ephemeralKey := ← Frame.requiredKey "ephemeral_key" ephemeralKey
      identityKey := ← Frame.requiredKey "identity_key" identityKey }

theorem decode_eq (bytes : Bytes) : decode bytes = Frame.decode fields bytes >>= assemble := rfl

theorem written (m : KeyExchangeMessage) : Fields.Written 1 fields m.entries m.parts :=
  .cons (Frame.readsAt_uint32 _) <| .cons (Frame.readsAt_uint8 _) <|
  .cons (Frame.readsAt_key _) <| .cons (Frame.readsAt_key _) <| .cons (Frame.readsAt_key _) .nil

/-- What is read of a leg hangs on its flags alone. -/
theorem assemble_parts (m : KeyExchangeMessage) : assemble m.parts =
    ((ExchangeFlags.ofBits m.flags.bits).mapError .invalidMessage).map fun flags =>
      { m with flags } := by
  simp only [assemble, parts, Frame.required, Frame.requiredKey_bytes, bind, Except.bind]
  cases ExchangeFlags.ofBits m.flags.bits <;> rfl

theorem decode_encode_eq (m : KeyExchangeMessage) (rest : Bytes) : decode (m.encode ++ rest) =
    ((ExchangeFlags.ofBits m.flags.bits).mapError .invalidMessage).map fun flags =>
      { m with flags } := by
  rw [← assemble_parts, encode, toItem_eq, decode_eq]
  exact Frame.decode_encode_bind m.written fields_wellNamed (by decide) rfl rest

theorem assemble_parts_of_isValid {m : KeyExchangeMessage} (h : m.flags.IsValid) :
    assemble m.parts = .ok m := by
  rw [assemble_parts, ExchangeFlags.ofBits_bits h]
  rfl

theorem decode_encode {m : KeyExchangeMessage} (h : m.flags.IsValid) (rest : Bytes) :
    decode (m.encode ++ rest) = .ok m := by
  rw [decode_encode_eq, ← assemble_parts]
  exact assemble_parts_of_isValid h

end KeyExchangeMessage

/-! ### Handshake messages -/

namespace HandshakeMessage

/-- A message that is written and read in full: a leg's flags are valid and give it the role it is
sent in, and the content of a first message has a length. -/
def IsSendable : HandshakeMessage → Prop
  | bundle m => m.message.ciphertext.length < 2 ^ 62
  | initiate m => m.flags.IsValid ∧ m.isInitiate = true
  | response m => m.flags.IsValid ∧ m.isInitiate = false
  | legacy .. => False

theorem decode_current (kind : HandshakeKind) (bytes : Bytes) :
    decode kind (Version.current.toByte :: bytes) =
      match kind with
      | .prekey => (PreKeyMessage.decode (Version.current.toByte :: bytes)).map bundle
      | .keyExchange =>
        (KeyExchangeMessage.decode (Version.current.toByte :: bytes)).map ofExchange := by
  cases kind <;> rfl

/-- Whether the message is encoded, and read back from its encoding. -/
def IsReadBack (m : HandshakeMessage) : Prop :=
  ∃ payload, m.encode = .ok payload ∧ decode m.kind payload = .ok m

theorem isReadBack_bundle {m : PreKeyMessage} (hm : PreKeyMessage.decode m.encode = .ok m) :
    (bundle m).IsReadBack := by
  refine ⟨_, rfl, ?_⟩
  rw [PreKeyMessage.encode, Frame.encode] at hm ⊢
  rw [decode_current, kind, hm]
  rfl

theorem kind_ofExchange (m : KeyExchangeMessage) : (ofExchange m).kind = .keyExchange := by
  unfold ofExchange; split_ifs <;> rfl

theorem encode_ofExchange (m : KeyExchangeMessage) : (ofExchange m).encode = .ok m.encode := by
  unfold ofExchange; split_ifs <;> rfl

/-- A leg is read back in the role that its flags give it. -/
theorem isReadBack_ofExchange {m : KeyExchangeMessage}
    (hm : KeyExchangeMessage.decode m.encode = .ok m) : (ofExchange m).IsReadBack := by
  refine ⟨_, encode_ofExchange m, ?_⟩
  rw [KeyExchangeMessage.encode, Frame.encode] at hm ⊢
  rw [decode_current, kind_ofExchange, hm]
  rfl

/-- A sendable message is encoded, and read back from its encoding. -/
theorem decode_encode {m : HandshakeMessage} (h : m.IsSendable) :
    ∃ payload, m.encode = .ok payload ∧ decode m.kind payload = .ok m := by
  have hleg : ∀ leg : KeyExchangeMessage, leg.flags.IsValid → (ofExchange leg).IsReadBack :=
    fun leg hflags =>
      isReadBack_ofExchange (by simpa using KeyExchangeMessage.decode_encode hflags [])
  cases m with
  | bundle m =>
    have hlength := m.message.length_encode_le
    have hcontent : m.message.ciphertext.length < 2 ^ 62 := h
    refine isReadBack_bundle ?_
    simpa using PreKeyMessage.decode_encode (m := m)
      (by rw [show UInt64.size = 2 ^ 64 from rfl]; omega) []
  | initiate m =>
    have hread := hleg m h.1
    rwa [ofExchange, if_pos h.2] at hread
  | response m =>
    have hread := hleg m h.1
    rwa [ofExchange, if_neg (by simp [h.2])] at hread
  | legacy kind used => exact h.elim

end HandshakeMessage

end SecureSession
