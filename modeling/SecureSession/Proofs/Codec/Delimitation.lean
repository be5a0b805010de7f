import SecureSession.Proofs.Cbor.Streaming
import SecureSession.Proofs.Codec.Messages
import SecureSession.Proofs.Codec.Records

/-! # Where an encoding ends

What is encoded says itself where it ends. Whatever follows an encoding changes nothing, and an
encoding that was cut anywhere is refused: its structure is read to the end and by a reader that
does not look ahead, so no part of it is a structure, however few of the fields have to be there. -/

namespace SecureSession

open Cbor (Decoder Fields Item)
open Cbor.Fields (Written)

/-- Whether `m` is read from `encoded` whatever follows, and what is read of
anything shorter is refused. -/
structure Delimits {ε α : Type} (decode : Bytes → Except ε α) (encoded : Bytes) (m : α)
    (refusal : ε → Prop) : Prop where
  followed : ∀ more, decode (encoded ++ more) = .ok m
  cut : ∀ part, part <+: encoded → part ≠ encoded → ∃ e, decode part = .error e ∧ refusal e

/-- Its last byte is missed already. -/
theorem Delimits.cut_last {ε α : Type} {decode : Bytes → Except ε α} {encoded : Bytes} {m : α}
    {refusal : ε → Prop} (h : Delimits decode encoded m refusal) (hne : encoded ≠ []) :
    ∃ e, decode encoded.dropLast = .error e ∧ refusal e := by
  have hpart : encoded.dropLast <+: encoded := List.dropLast_prefix encoded
  refine h.cut _ hpart fun heq => ?_
  have hlength := congrArg List.length heq
  have hpos := List.length_pos_iff.mpr hne
  rw [List.length_dropLast] at hlength
  omega

/-! ### Decoders -/

namespace Cbor.Decoder

variable {α : Type} {d : Decoder α} {depth : Nat} {bytes : Bytes} {a : α}

/-- No part of what is read to its end is read. -/
theorem ReadsAt.error_of_part (h : d.ReadsAt depth bytes a) (hs : d.Streams)
    (hd : depth ≤ depthLimit) {part : Bytes} (hpart : part <+: bytes) (hne : part ≠ bytes) :
    ∃ e, d.run part = .error e := by
  have hread : d depthLimit bytes = .ok (a, []) := by
    have hall := h depthLimit hd []
    rwa [List.append_nil] at hall
  obtain ⟨e, he⟩ := (hs depthLimit).error_of_part hread hpart hne
  refine ⟨e, ?_⟩
  rw [Decoder.run, he]
  rfl

end Cbor.Decoder

/-! ### Messages -/

namespace Frame

variable {τ : Type} {fs : Fields τ} {items : List (String × Item)} {t : τ} {depth : Nat}

/-- Without its first byte a message is empty, without its last ones its
structure cannot be read. -/
theorem decode_cut (h : Written depth fs items t) (hs : fs.Streams) (hfs : fs.WellNamed)
    (hd : depth < Cbor.depthLimit) {part : Bytes} (hpart : part <+: encode (.fields items))
    (hne : part ≠ encode (.fields items)) :
    ∃ e : ProtocolError, decode fs part = .error e ∧ e.IsDefect := by
  cases part with
  | nil => exact ⟨_, rfl, _, rfl⟩
  | cons b body =>
    obtain ⟨rfl, hbody⟩ := List.cons_prefix_cons.mp hpart
    have hshort : body ≠ (Item.fields items).encode := fun heq => hne (by rw [heq, encode])
    obtain ⟨e, he⟩ := (h.readsAt hfs).error_of_part hs.decoder hd hbody hshort
    refine ⟨.invalidMessage (.undecodable e), ?_, _, rfl⟩
    simp only [decode, supportedBody_current, bind, Except.bind, he]
    rfl

/-- A message that is put together from a structure ends where the structure does. -/
theorem delimits {α : Type} {assemble : τ → Except ProtocolError α} {m : α}
    (h : Written depth fs items t) (hs : fs.Streams) (hfs : fs.WellNamed)
    (hd : depth < Cbor.depthLimit) (ht : assemble t = .ok m) :
    Delimits (fun bytes => decode fs bytes >>= assemble) (encode (.fields items)) m
      ProtocolError.IsDefect where
  followed := decode_encode_bind h hfs hd ht
  cut part hpart hne := by
    obtain ⟨e, he, hdefect⟩ := decode_cut h hs hfs hd hpart hne
    refine ⟨e, ?_, hdefect⟩
    rw [he]
    rfl

end Frame

theorem RatchetMessage.streams_fields : fields.Streams :=
  .cons Decoder.streams_octets.optional <| .cons Decoder.streams_uint32.optional <|
  .cons Decoder.streams_uint32.optional <| .cons Decoder.streams_octets.optional .nil

theorem PreKeyMessage.streams_fields : fields.Streams :=
  .cons Decoder.streams_uint32.optional <| .cons Decoder.streams_octets.optional <|
  .cons Decoder.streams_octets.optional <| .cons Decoder.streams_octets.optional .nil

theorem PreKeyBundle.streams_fields : fields.Streams :=
  .cons Decoder.streams_uint32.optional <| .cons Decoder.streams_uint32.optional <|
  .cons Decoder.streams_octets.optional <| .cons Decoder.streams_octets.optional .nil

theorem KeyExchangeMessage.streams_fields : fields.Streams :=
  .cons Decoder.streams_uint32.optional <| .cons Decoder.streams_uint8.optional <|
  .cons Decoder.streams_octets.optional <| .cons Decoder.streams_octets.optional <|
  .cons Decoder.streams_octets.optional .nil

/-! ### Stored records -/

theorem KeyPair.streams_decoder : decoder.Streams :=
  Decoder.Streams.map (Fields.Streams.decoder <|
    .cons Decoder.streams_publicKey <| .cons Decoder.streams_secretKey .nil) _

theorem ChainKey.streams_decoder : decoder.Streams :=
  Decoder.Streams.map (Fields.Streams.decoder <|
    .cons Decoder.streams_key <| .cons Decoder.streams_uint32 .nil) _

theorem RatchetState.streams_decoder : decoder.Streams :=
  Decoder.Streams.map (Fields.Streams.decoder <|
    .cons Decoder.streams_key <| .cons Decoder.streams_publicKey <|
    .cons Decoder.streams_publicKey <| .cons ChainKey.streams_decoder.optional <|
    .cons ChainKey.streams_decoder.optional .nil) _

theorem UnacknowledgedPreKey.streams_decoder : decoder.Streams :=
  Decoder.Streams.map (Fields.Streams.decoder <|
    .cons Decoder.streams_uint32 <| .cons Decoder.streams_publicKey .nil) _

theorem SessionState.streams_decoder : decoder.Streams :=
  Decoder.Streams.map (Fields.Streams.decoder <|
    .cons Decoder.streams_uint8 <| .cons Decoder.streams_publicKey <|
    .cons Decoder.streams_publicKey <| .cons RatchetState.streams_decoder <|
    .cons UnacknowledgedPreKey.streams_decoder.optional .nil) _

theorem PendingExchange.streams_decoder : decoder.Streams :=
  Decoder.Streams.map (Fields.Streams.decoder <|
    .cons Decoder.streams_uint32 <| .cons KeyPair.streams_decoder <|
    .cons KeyPair.streams_decoder <| .cons KeyPair.streams_decoder .nil) _

namespace SessionRecord

theorem streams_decoder : decoder.Streams :=
  Decoder.Streams.map (Fields.Streams.decoder <|
    .cons SessionState.streams_decoder.optional <| .cons SessionState.streams_decoder.listOf <|
    .cons PendingExchange.streams_decoder.optional .nil) _

/-- Without its first byte a record is empty, without its last ones its structure cannot be read. -/
theorem decode_cut {r : SessionRecord} (h : r.previous.length ≤ archiveLimit) {part : Bytes}
    (hpart : part <+: r.encode) (hne : part ≠ r.encode) :
    ∃ e, decode part = .error e ∧ ∃ corruption, e = .corrupted corruption := by
  cases part with
  | nil => exact ⟨_, rfl, _, rfl⟩
  | cons b body =>
    obtain ⟨rfl, hbody⟩ := List.cons_prefix_cons.mp hpart
    have hshort : body ≠ r.toItem.encode := fun heq => hne (by rw [heq, encode])
    obtain ⟨e, he⟩ := (readsAt h).error_of_part streams_decoder (by decide) hbody hshort
    refine ⟨.corrupted (.undecodable e), ?_, _, rfl⟩
    rw [decode, if_pos rfl, he]

end SessionRecord

/-! ### Every encoding -/

/-- Every message and every stored record is read from its encoding whatever follows, and is refused
where its encoding is cut. The flags of a leg have to say something, content has to have a length
that a head can announce, and a record has to keep to the limit of its archive. -/
theorem encodings_delimited :
    (∀ m : RatchetMessage, m.ciphertext.length < UInt64.size →
      Delimits RatchetMessage.decode m.encode m ProtocolError.IsDefect) ∧
    (∀ m : PreKeyMessage, m.message.encode.length < UInt64.size →
      Delimits PreKeyMessage.decode m.encode m ProtocolError.IsDefect) ∧
    (∀ b : PreKeyBundle, Delimits PreKeyBundle.decode b.encode b ProtocolError.IsDefect) ∧
    (∀ m : KeyExchangeMessage, m.flags.IsValid →
      Delimits KeyExchangeMessage.decode m.encode m ProtocolError.IsDefect) ∧
    ∀ r : SessionRecord, r.previous.length ≤ SessionRecord.archiveLimit →
      Delimits SessionRecord.decode r.encode r fun e =>
        ∃ corruption, e = .corrupted corruption := by
  refine ⟨fun m hm => ?_, fun m hm => ?_, fun b => ?_, fun m hm => ?_, fun r hr => ?_⟩
  · exact Frame.delimits (RatchetMessage.written hm) RatchetMessage.streams_fields
      RatchetMessage.fields_wellNamed (by decide) m.assemble_parts
  · exact Frame.delimits (PreKeyMessage.written hm) PreKeyMessage.streams_fields
      PreKeyMessage.fields_wellNamed (by decide) (PreKeyMessage.assemble_parts hm)
  · exact Frame.delimits b.written PreKeyBundle.streams_fields PreKeyBundle.fields_wellNamed
      (by decide) b.assemble_parts
  · exact Frame.delimits m.written KeyExchangeMessage.streams_fields
      KeyExchangeMessage.fields_wellNamed (by decide)
      (KeyExchangeMessage.assemble_parts_of_isValid hm)
  · exact ⟨SessionRecord.decode_encode hr, fun part => SessionRecord.decode_cut hr⟩

/-- A first message and the record of the session that it opens, whole, cut
and followed by a byte. -/
theorem encodings_delimited_first :
    let m : PreKeyMessage := {
      prekeyId := 7
      baseKey := ⟨.replicate 3⟩
      identityKey := ⟨.replicate 2⟩
      message := {
        senderEphemeral := ⟨.replicate 1⟩
        counter := 5
        previousCounter := 0
        ciphertext := [7, 8, 9] } }
    let leg : KeyExchangeMessage := {
      sequence := 9
      flags := .response
      baseKey := ⟨.replicate 3⟩
      ephemeralKey := ⟨.replicate 1⟩
      identityKey := ⟨.replicate 2⟩ }
    let r : SessionRecord := SessionRecord.empty.promote
      (.fresh default default ⟨default, default, default, none, some ⟨default, 7⟩⟩)
    RatchetMessage.decode (m.message.encode ++ [0xff]) = .ok m.message ∧
    PreKeyMessage.decode (m.encode ++ [0xff]) = .ok m ∧
    (∃ e, PreKeyMessage.decode m.encode.dropLast = .error e ∧ e.IsDefect) ∧
    (∃ e, KeyExchangeMessage.decode leg.encode.dropLast = .error e ∧ e.IsDefect) ∧
    SessionRecord.decode (r.encode ++ [0xff]) = .ok r ∧
    ∃ e, SessionRecord.decode r.encode.dropLast = .error e ∧
      ∃ corruption, e = .corrupted corruption := by
  intro m leg r
  have hinner : m.message.encode.length < UInt64.size := by decide +kernel
  obtain ⟨hratchet, hfirst, -, hleg, hrecord⟩ := encodings_delimited
  have hm := hfirst m hinner
  have hl := hleg leg (by decide)
  have hr := hrecord r (by decide)
  exact ⟨(hratchet m.message (by decide)).followed _, hm.followed _,
    hm.cut_last (List.cons_ne_nil _ _),
    hl.cut_last (List.cons_ne_nil _ _), hr.followed _, hr.cut_last (List.cons_ne_nil _ _)⟩

end SecureSession
