import SecureSession.Identity.Record
import SecureSession.Proofs.Cbor.Structures
import SecureSession.Session.Codec

/-! # Reading back stored records

What is read from the stored bytes of a record is the record. A session record must keep the bound
on its archive, which is checked when it is read. -/

namespace SecureSession

open Cbor (Decoder Fields Item)
open Cbor.Decoder (ReadsAt Present)
open Cbor.Fields (Written)

/-! ### Key pairs, chains and ratchets -/

/-- A structure that is mapped to a value of another type is read back as that value. -/
theorem Cbor.Fields.Written.readsAt_map {τ α : Type} {depth : Nat} {fs : Fields τ}
    {items : List (String × Item)} {t : τ} (h : Written depth fs items t) (hfs : fs.WellNamed)
    (f : τ → α) : ReadsAt (fs.decoder.map f) (depth + 1) (Item.fields items).encode (f t) :=
  (h.readsAt hfs).map

theorem KeyPair.readsAt (k : KeyPair) : ReadsAt decoder 2 k.toItem.encode k :=
  Written.readsAt_map (t := (k.publicKey, k.secretKey, ()))
    (.cons (Decoder.readsAt_publicKey _) <| .cons (Decoder.readsAt_secretKey _) .nil)
    (by decide) _

theorem ChainKey.readsAt (c : ChainKey) : ReadsAt decoder 2 c.toItem.encode c :=
  Written.readsAt_map (t := (c.key, c.index, ()))
    (.cons (Decoder.readsAt_key _) <| .cons ((Decoder.readsAt_uint32 _).mono (by omega)) .nil)
    (by decide) _

theorem ChainKey.present (c : ChainKey) : Present c.toItem.encode :=
  Fields.present_fields (by simp [UInt64.size])

theorem RatchetState.readsAt (r : RatchetState) : ReadsAt decoder 3 r.toItem.encode r := by
  have hchain : ∀ o : Option ChainKey, ReadsAt ChainKey.decoder.optional 2
      (Item.optional ChainKey.toItem o).encode o := fun o =>
    Decoder.readsAt_optional _ o fun c _ => ⟨c.readsAt, c.present⟩
  exact Written.readsAt_map
    (t := (r.rootKey, r.localKey, r.remoteKey, r.sendingChain, r.receivingChain, ()))
    (.cons ((Decoder.readsAt_key _).mono (by omega)) <|
      .cons ((Decoder.readsAt_publicKey _).mono (by omega)) <|
      .cons ((Decoder.readsAt_publicKey _).mono (by omega)) <|
      .cons (hchain _) <| .cons (hchain _) .nil)
    (by decide) _

/-! ### Sessions and exchanges -/

theorem UnacknowledgedPreKey.readsAt (u : UnacknowledgedPreKey) :
    ReadsAt decoder 2 u.toItem.encode u :=
  Written.readsAt_map (t := (u.prekeyId, u.baseKey, ()))
    (.cons ((Decoder.readsAt_uint32 _).mono (by omega)) <| .cons (Decoder.readsAt_publicKey _) .nil)
    (by decide) _

theorem SessionState.readsAt (s : SessionState) : ReadsAt decoder 4 s.toItem.encode s := by
  have hunacknowledged : ReadsAt UnacknowledgedPreKey.decoder.optional 2
      (Item.optional UnacknowledgedPreKey.toItem s.unacknowledged).encode s.unacknowledged :=
    Decoder.readsAt_optional _ _ fun u _ =>
      ⟨u.readsAt, Fields.present_fields (by simp [UInt64.size])⟩
  exact Written.readsAt_map
    (t := (s.version, s.localIdentity, s.remoteIdentity, s.ratchet, s.unacknowledged, ()))
    (.cons ((Decoder.readsAt_uint8 _).mono (by omega)) <|
      .cons ((Decoder.readsAt_publicKey _).mono (by omega)) <|
      .cons ((Decoder.readsAt_publicKey _).mono (by omega)) <|
      .cons s.ratchet.readsAt <| .cons (hunacknowledged.mono (by omega)) .nil)
    (by decide) _

theorem PendingExchange.readsAt (q : PendingExchange) : ReadsAt decoder 3 q.toItem.encode q :=
  Written.readsAt_map (t := (q.sequence, q.base, q.ephemeral, q.identity, ()))
    (.cons ((Decoder.readsAt_uint32 _).mono (by omega)) <| .cons q.base.readsAt <|
      .cons q.ephemeral.readsAt <| .cons q.identity.readsAt .nil)
    (by decide) _

/-! ### Session records -/

namespace SessionRecord

/-- Whether the archive is within bounds. -/
def IsBounded (r : SessionRecord) : Prop := r.previous.length ≤ archiveLimit

theorem isBounded_empty : empty.IsBounded := Nat.zero_le _

theorem IsBounded.archive {r : SessionRecord} (h : r.IsBounded) : r.archive.IsBounded := by
  unfold SessionRecord.archive
  split
  · exact h
  · exact (List.length_take_le _ _)

theorem IsBounded.promote {r : SessionRecord} (h : r.IsBounded) (s : SessionState) :
    (r.promote s).IsBounded := h.archive

theorem IsBounded.purgeLegacy {r : SessionRecord} (h : r.IsBounded) : r.purgeLegacy.IsBounded :=
  (List.length_filter_le _ _).trans h

theorem readsAt {r : SessionRecord} (h : r.previous.length ≤ archiveLimit) :
    ReadsAt decoder 6 r.toItem.encode r := by
  have hcurrent : ReadsAt SessionState.decoder.optional 5
      (Item.optional SessionState.toItem r.current).encode r.current :=
    (Decoder.readsAt_optional _ _ fun s _ =>
      ⟨s.readsAt, Fields.present_fields (by simp [UInt64.size])⟩).mono (by omega)
  have hprevious : ReadsAt SessionState.decoder.listOf 5
      (Item.array (r.previous.map SessionState.toItem)).encode r.previous :=
    Decoder.readsAt_listOf (by simp only [archiveLimit, UInt64.size] at h ⊢; omega)
      fun s _ => s.readsAt
  have hpending : ReadsAt PendingExchange.decoder.optional 5
      (Item.optional PendingExchange.toItem r.pending).encode r.pending :=
    (Decoder.readsAt_optional _ _ fun q _ =>
      ⟨q.readsAt, Fields.present_fields (by simp [UInt64.size])⟩).mono (by omega)
  exact Written.readsAt_map (t := (r.current, r.previous, r.pending, ()))
    (.cons hcurrent <| .cons hprevious <| .cons hpending .nil) (by decide) _

/-- A session record with an archive within bounds is read back. -/
theorem decode_encode {r : SessionRecord} (h : r.previous.length ≤ archiveLimit) (rest : Bytes) :
    decode (r.encode ++ rest) = .ok r := by
  rw [encode, List.cons_append, decode, if_pos rfl, (readsAt h).run (by decide)]
  exact if_neg (Nat.not_lt.mpr h)

theorem isBounded_of_decode {bytes : Bytes} {r : SessionRecord} (h : decode bytes = .ok r) :
    r.IsBounded := by
  unfold decode at h
  split at h
  · cases h
  · split at h
    · split at h
      · cases h
      · split at h
        · cases h
        · rename_i hle
          cases h
          exact Nat.not_lt.mp hle
    · cases h

end SessionRecord

/-! ### Identity records -/

/-- An identity record is read back. -/
theorem IdentityRecord.decode_encode (r : IdentityRecord) (rest : Bytes) :
    decode (r.encode ++ rest) = .ok r := by
  have hread : ReadsAt decoder 2 r.toItem.encode r :=
    Written.readsAt_map
      (t := (r.identityKey, r.verification, r.firstUse, r.createdAt, r.updatedAt, ()))
      (.cons (Decoder.readsAt_publicKey _) <|
        .cons
          (((Decoder.readsAt_uint8 _).filterMap (Verification.ofByte?_toByte _)).mono (by omega)) <|
        .cons ((Decoder.readsAt_bool _).mono (by omega)) <|
        .cons ((Decoder.readsAt_uint64 _).mono (by omega)) <|
        .cons ((Decoder.readsAt_uint64 _).mono (by omega)) .nil)
      (by decide) _
  rw [decode, read, encode, hread.run (by decide)]
  rfl

end SecureSession
