import SecureSession.Proofs.Codec.Records
import SecureSession.Proofs.SortedMap
import SecureSession.Storage.Sessions

/-! # The contents of a vault

A vault stores bytes. Where all of them can be read, the vault is as good as its contents: a session
record for every address and perhaps an identity for every name. `Vault.Readable` is kept by every
batch whose records are within bounds, and what such a batch writes is told on the contents. -/

namespace SecureSession

/-! ### Live session and archive -/

namespace SessionRecord

@[simp] theorem current_archive (r : SessionRecord) : r.archive.current = none := by
  unfold archive; split <;> simp_all

@[simp] theorem pending_archive (r : SessionRecord) : r.archive.pending = r.pending := by
  unfold archive; split <;> rfl

theorem archive_eq_self {r : SessionRecord} (h : r.current = none) : r.archive = r := by
  simp [archive, h]

/-- An archive within bounds takes the live session, if there is one, as its newest. -/
theorem previous_archive {r : SessionRecord} (h : r.IsBounded) :
    r.archive.previous = (r.current.toList ++ r.previous).take archiveLimit := by
  unfold archive
  cases hc : r.current with
  | none => exact (List.take_of_length_le h).symm
  | some s => rfl

@[simp] theorem archive_archive (r : SessionRecord) : r.archive.archive = r.archive :=
  archive_eq_self (current_archive r)

@[simp] theorem archive_empty : empty.archive = empty := rfl

@[simp] theorem current_promote (r : SessionRecord) (s : SessionState) :
    (r.promote s).current = some s := rfl

@[simp] theorem previous_promote (r : SessionRecord) (s : SessionState) :
    (r.promote s).previous = r.archive.previous := rfl

@[simp] theorem pending_promote (r : SessionRecord) (s : SessionState) :
    (r.promote s).pending = r.pending := pending_archive r

end SessionRecord

/-! ### Contents -/

/-- The record held for every address, empty where there is none, and the identity
on file under every name. -/
@[ext] structure Contents where
  record : Address → SessionRecord
  filed : String → Option IdentityRecord

namespace Contents

/-- The contents with another record for an address. -/
def put (c : Contents) (a : Address) (r : SessionRecord) : Contents :=
  { c with record := fun b => if b = a then r else c.record b }

/-- The contents with another identity under a name. -/
def file (c : Contents) (name : String) (r : IdentityRecord) : Contents :=
  { c with filed := fun n => if n = name then some r else c.filed n }

/-- The contents with the live sessions of a peer archived. -/
def archivePeer (c : Contents) (name : String) : Contents :=
  { c with record := fun a => if a.name = name then (c.record a).archive else c.record a }

@[simp] theorem record_put_self (c : Contents) (a : Address) (r : SessionRecord) :
    (c.put a r).record a = r := if_pos rfl

theorem record_put_of_ne (c : Contents) {a b : Address} (h : b ≠ a) (r : SessionRecord) :
    (c.put a r).record b = c.record b := if_neg h

@[simp] theorem filed_put (c : Contents) (a : Address) (r : SessionRecord) :
    (c.put a r).filed = c.filed := rfl

@[simp] theorem record_file (c : Contents) (name : String) (r : IdentityRecord) :
    (c.file name r).record = c.record := rfl

@[simp] theorem filed_file_self (c : Contents) (name : String) (r : IdentityRecord) :
    (c.file name r).filed name = some r := if_pos rfl

theorem filed_file_of_ne (c : Contents) {name n : String} (h : n ≠ name) (r : IdentityRecord) :
    (c.file name r).filed n = c.filed n := if_neg h

end Contents

/-! ### Reading a vault -/

namespace Vault

/-- What can be read of a vault. -/
def contents (v : Vault) : Contents where
  record a :=
    match v.session? a with
    | .ok r => r.getD .empty
    | .error _ => .empty
  filed name :=
    match v.identity? name with
    | .ok r => r
    | .error _ => none

/-- Whether everything stored can be read. -/
structure Readable (v : Vault) : Prop where
  session : ∀ a, ∃ r, v.session? a = .ok r
  identity : ∀ name, ∃ r, v.identity? name = .ok r

theorem readable_empty : empty.Readable := ⟨fun _ => ⟨none, rfl⟩, fun _ => ⟨none, rfl⟩⟩

theorem isBounded_of_session? {v : Vault} {a : Address} {r : SessionRecord}
    (h : v.session? a = .ok (some r)) : r.IsBounded := by
  unfold session? read? at h
  split at h
  · cases h
  · rename_i bytes _
    cases hd : SessionRecord.decode bytes with
    | ok r' =>
      rw [hd] at h
      cases h
      exact SessionRecord.isBounded_of_decode hd
    | error e => rw [hd] at h; cases h

theorem isBounded_record (v : Vault) (a : Address) : (v.contents.record a).IsBounded := by
  unfold contents
  dsimp only
  split
  · rename_i r h
    cases r with
    | some r => exact isBounded_of_session? h
    | none => exact SessionRecord.isBounded_empty
  · exact SessionRecord.isBounded_empty

theorem load_of_session? {v : Vault} {a : Address} {r : SessionRecord}
    (h : v.session? a = .ok (some r)) : v.load a = .ok r := by
  rw [load, h]
  rfl

theorem record_of_load {v : Vault} {a : Address} {r : SessionRecord} (h : v.load a = .ok r) :
    v.contents.record a = r := by
  obtain ⟨o, hread, h⟩ := bind_eq_ok.mp h
  cases h
  simp only [contents, mapError_eq_ok.mp hread]

theorem filed_of_loadIdentity {v : Vault} {name : String} {r : Option IdentityRecord}
    (h : v.loadIdentity name = .ok r) : v.contents.filed name = r := by
  simp only [contents, mapError_eq_ok.mp h]

theorem containsSession_of_ok {v : Vault} {a : Address} {o : Option SessionRecord}
    (h : v.session? a = .ok o) : v.containsSession a = .ok (o.any SessionRecord.isActive) := by
  rw [containsSession, h]
  rfl

theorem containsSession_of_error {v : Vault} {a : Address} {e : StorageError}
    (h : v.session? a = .error e) : v.containsSession a = .error (.storage e) := by
  rw [containsSession, h]
  rfl

/-- Where no record is stored, the record is empty. -/
theorem record_eq_empty {v : Vault} {a : Address} (h : v.sessions.get? a = none) :
    v.contents.record a = .empty := by
  simp [contents, session?, read?, h]

/-- Where no record is listed, there is an empty one. -/
theorem mem_addresses_or (v : Vault) (a : Address) :
    a ∈ v.addresses ∨ v.contents.record a = .empty := by
  cases h : v.sessions.get? a with
  | some bytes => exact .inl (SortedMap.mem_keys_iff.mpr ⟨bytes, h⟩)
  | none => exact .inr (record_eq_empty h)

theorem pairwise_devices (v : Vault) (name : String) : (v.devices name).Pairwise (· < ·) := by
  have hsorted := v.sessions.pairwise_keys
  refine List.pairwise_map.mpr ((hsorted.filter _).imp_of_mem fun {a b} ha hb hab => ?_)
  have hnames : a.name = b.name := by
    rw [List.mem_filter, beq_iff_eq] at ha hb
    exact ha.2.trans hb.2.symm
  have hself : compare b.name b.name = .eq := Std.ReflCmp.compare_self
  change (compare a.name b.name).then (compare a.device b.device) = .lt at hab
  rw [hnames, hself, Ordering.eq_then] at hab
  exact compareOfLessAndEq_eq_lt.mp hab

theorem mem_devices (v : Vault) (name : String) (d : UInt32) :
    d ∈ v.devices name ↔ ⟨name, d⟩ ∈ v.addresses := by
  unfold devices
  rw [List.mem_map]
  constructor
  · rintro ⟨a, ha, rfl⟩
    rw [List.mem_filter, beq_iff_eq] at ha
    obtain ⟨ha, rfl⟩ := ha
    exact ha
  · intro h
    exact ⟨⟨name, d⟩, List.mem_filter.mpr ⟨h, beq_self_eq_true name⟩, rfl⟩

theorem record_congr {v w : Vault} {a : Address} (h : w.sessions.get? a = v.sessions.get? a) :
    w.contents.record a = v.contents.record a := by
  simp only [contents, session?, h]

section Readable
variable {v : Vault} (h : v.Readable)
include h

theorem Readable.load_eq (a : Address) : v.load a = .ok (v.contents.record a) := by
  obtain ⟨r, hr⟩ := h.session a
  simp only [load, contents, hr, SessionError.ofStorage]
  rfl

theorem Readable.loadIdentity_eq (name : String) :
    v.loadIdentity name = .ok (v.contents.filed name) := by
  obtain ⟨r, hr⟩ := h.identity name
  simp only [loadIdentity, contents, hr, SessionError.ofStorage]
  rfl

theorem Readable.containsSession_eq (a : Address) :
    v.containsSession a = .ok (v.contents.record a).isActive := by
  obtain ⟨r, hr⟩ := h.session a
  simp only [containsSession, contents, hr, SessionError.ofStorage]
  cases r <;> rfl

end Readable

end Vault

/-! ### Writing to a vault -/

/-- Whether every record to be stored is within bounds. -/
def Batch.IsBounded (b : Batch) : Prop := ∀ a r, b.stagedRecord? a = some r → r.IsBounded

namespace Batch

theorem isBounded_empty : empty.IsBounded := by
  intro a r h
  simp [stagedRecord?, staged?, empty] at h

theorem staged?_put (b : Batch) (a a' : Address) (r : SessionRecord) :
    (b.put a r).staged? a' = if a' = a then some (some r) else b.staged? a' :=
  SortedMap.get?_insert ..

theorem staged?_delete (b : Batch) (a a' : Address) :
    (b.delete a).staged? a' = if a' = a then some none else b.staged? a' := SortedMap.get?_insert ..

theorem staged?_withdraw (b : Batch) (a a' : Address) :
    (b.withdraw a).staged? a' = if a' = a then none else b.staged? a' := SortedMap.get?_erase ..

theorem IsBounded.put {b : Batch} (h : b.IsBounded) {r : SessionRecord} (hr : r.IsBounded)
    (a : Address) : (b.put a r).IsBounded := by
  intro a' r' h'
  rw [stagedRecord?, staged?_put] at h'
  split at h'
  · cases h'; exact hr
  · exact h a' r' h'

/-- Deletions leave no record to be stored. -/
theorem staged?_deletes (a : Address) : ∀ (l : List Address) (b : Batch),
    (l.foldl delete b).staged? a = if a ∈ l then some none else b.staged? a
  | [], b => by simp
  | a' :: l, b => by
    rw [List.foldl_cons, staged?_deletes a l, staged?_delete]
    by_cases hl : a ∈ l <;> by_cases ha : a = a' <;> simp [hl, ha]

theorem isBounded_deletes (l : List Address) : (l.foldl delete empty).IsBounded := by
  intro a r h
  have hnone : empty.staged? a = none := rfl
  rw [stagedRecord?, staged?_deletes, hnone] at h
  split at h <;> cases h

theorem identities_deletes : ∀ (l : List Address) (b : Batch),
    (l.foldl delete b).identities = b.identities
  | [], _ => rfl
  | a :: l, b => identities_deletes l (b.delete a)

theorem IsBounded.putIdentity {b : Batch} (h : b.IsBounded) (name : String) (r : IdentityRecord) :
    (b.putIdentity name r).IsBounded := h

end Batch

namespace Vault

theorem get?_writeSession (m : SortedMap Address Bytes) (e : Address × Option SessionRecord)
    (a : Address) :
    (writeSession m e).get? a = if a = e.1 then e.2.map SessionRecord.encode else m.get? a := by
  unfold writeSession
  split
  · rename_i r hr
    rw [SortedMap.get?_insert, hr, Option.map_some]
  · rename_i hr
    rw [SortedMap.get?_erase, hr, Option.map_none]

theorem get?_sessions_apply (v : Vault) (b : Batch) (a : Address) :
    (v.apply b).sessions.get? a =
      (b.staged? a).elim (v.sessions.get? a) (·.map SessionRecord.encode) :=
  SortedMap.get?_foldl writeSession _ get?_writeSession a _ _ b.sessions.sorted

theorem get?_identities_apply (v : Vault) (b : Batch) (name : String) :
    (v.apply b).identities.get? name =
      (b.identities.get? name).elim (v.identities.get? name) (some ·.encode) :=
  SortedMap.get?_foldl _ (fun r : IdentityRecord => some r.encode)
    (fun m e k => SortedMap.get?_insert m e.1 k e.2.encode) name _ _ b.identities.sorted

/-- What a batch stores is what is read after it. -/
theorem session?_apply (v : Vault) {b : Batch} (hb : b.IsBounded) (a : Address) :
    (v.apply b).session? a = (b.staged? a).elim (v.session? a) .ok := by
  rw [session?, get?_sessions_apply]
  cases hs : b.staged? a with
  | none => rfl
  | some staged =>
    cases staged with
    | none => rfl
    | some r =>
      have hr : r.IsBounded := hb a r (by rw [Batch.stagedRecord?, hs]; rfl)
      have hread := SessionRecord.decode_encode hr []
      rw [List.append_nil] at hread
      simp only [Option.elim_some, Option.map_some, read?, hread]
      rfl

theorem identity?_apply (v : Vault) (b : Batch) (name : String) :
    (v.apply b).identity? name = (b.identities.get? name).elim (v.identity? name) (.ok ∘ some) := by
  rw [identity?, get?_identities_apply]
  cases b.identities.get? name with
  | none => rfl
  | some r =>
    have hread := IdentityRecord.decode_encode r []
    rw [List.append_nil] at hread
    simp only [Option.elim_some, read?, hread]
    rfl

theorem Readable.apply {v : Vault} (h : v.Readable) {b : Batch} (hb : b.IsBounded) :
    (v.apply b).Readable where
  session a := by
    rw [session?_apply v hb]
    cases b.staged? a with
    | none => exact h.session a
    | some staged => exact ⟨staged, rfl⟩
  identity name := by
    rw [identity?_apply]
    cases b.identities.get? name with
    | none => exact h.identity name
    | some r => exact ⟨some r, rfl⟩

theorem apply_of_isEmpty (v : Vault) {b : Batch} (h : b.isEmpty = true) : v.apply b = v := by
  obtain ⟨⟨sessions, _⟩, ⟨identities, _⟩⟩ := b
  simp only [Batch.isEmpty, SortedMap.isEmpty, Bool.and_eq_true, List.isEmpty_iff] at h
  obtain ⟨rfl, rfl⟩ := h
  rfl

@[simp] theorem apply_empty (v : Vault) : v.apply .empty = v := rfl

theorem record_apply (v : Vault) {b : Batch} (hb : b.IsBounded) (a : Address) :
    (v.apply b).contents.record a = (b.staged? a).elim (v.contents.record a) (·.getD .empty) := by
  simp only [contents, session?_apply v hb]
  cases b.staged? a <;> rfl

theorem filed_apply (v : Vault) (b : Batch) (name : String) :
    (v.apply b).contents.filed name =
    (b.identities.get? name).elim (v.contents.filed name) some := by
  simp only [contents, identity?_apply]
  cases b.identities.get? name <;> rfl

/-- After deletions no record is left at their addresses. -/
theorem contents_apply_deletes (v : Vault) (l : List Address) :
    (v.apply (l.foldl Batch.delete .empty)).contents =
      { v.contents with record := fun a => if a ∈ l then .empty else v.contents.record a } := by
  have hnone (a : Address) : Batch.empty.staged? a = none := rfl
  ext1
  · funext a
    rw [record_apply v (Batch.isBounded_deletes l), Batch.staged?_deletes, hnone]
    dsimp only
    split <;> rfl
  · funext name
    rw [filed_apply, Batch.identities_deletes]
    rfl

/-- A record put last is the one stored. -/
theorem contents_apply_put (v : Vault) {b : Batch} (hb : b.IsBounded) {r : SessionRecord}
    (hr : r.IsBounded) (a : Address) :
    (v.apply (b.put a r)).contents = (v.apply b).contents.put a r := by
  ext1
  · funext a'
    rw [record_apply v (hb.put hr a), Batch.staged?_put]
    dsimp only [Contents.put]
    split
    · rfl
    · rw [record_apply v hb]
  · funext name
    rw [filed_apply, Contents.filed_put, filed_apply]
    rfl

theorem contents_apply_putIdentity (v : Vault) {b : Batch} (hb : b.IsBounded) (name : String)
    (r : IdentityRecord) :
    (v.apply (b.putIdentity name r)).contents = (v.apply b).contents.file name r := by
  ext1
  · funext a
    rw [record_apply v (hb.putIdentity name r), Contents.record_file, record_apply v hb]
    rfl
  · funext n
    rw [filed_apply, Batch.putIdentity, SortedMap.get?_insert, Contents.file]
    dsimp only
    split
    · rfl
    · rw [filed_apply]

theorem record_of_loadStaged {v : Vault} {b : Batch} (hb : b.IsBounded) {a : Address}
    {r : SessionRecord} (h : v.loadStaged b a = .ok r) : (v.apply b).contents.record a = r := by
  rw [record_apply v hb]
  unfold loadStaged at h
  split at h
  · rename_i staged hs
    cases h
    rw [hs]
    rfl
  · rename_i hs
    rw [hs]
    exact record_of_load h

end Vault

end SecureSession
