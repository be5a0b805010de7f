import SecureSession.Handshake.Party
import SecureSession.Proofs.Storage.Contents

/-! # Installing a session

A new session is staged in several writes: its record, an archive per device of the peer if the key
on file changes, the identity, and the record again with the session made live. On the contents of a
vault all of this is `Contents.install`. -/

namespace SecureSession

/-! ### What is written, on contents -/

namespace Contents

/-- The contents with the live sessions at some addresses archived. -/
def archiveAt (c : Contents) (l : List Address) : Contents :=
  { c with record := fun a => if a ∈ l then (c.record a).archive else c.record a }

/-- The contents once a key is filed under a name: if another key is on file, the sessions with the
peer are archived. -/
def save (c : Contents) (now : UInt64) (name : String) (key : PublicKey) : Contents :=
  match c.filed name with
  | none => c.file name (Trust.firstRecord now key)
  | some r =>
    if r.identityKey = key then c
      else (c.archivePeer name).file name (Trust.changedRecord now key r)

/-- The contents with a new live session on top of a record. -/
def install (c : Contents) (now : UInt64) (a : Address) (r : SessionRecord) (s : SessionState) :
    Contents :=
  let c := (c.put a r).save now a.name s.remoteIdentity
  c.put a ((c.record a).promote s)

theorem put_record (c : Contents) (a : Address) : c.put a (c.record a) = c := by
  ext1
  · funext b
    simp only [put]
    split
    · subst b; rfl
    · rfl
  · rfl

theorem archiveAt_nil (c : Contents) : c.archiveAt [] = c := by ext1 <;> simp [archiveAt]

theorem archiveAt_cons (c : Contents) (a : Address) (l : List Address) :
    c.archiveAt (a :: l) = (c.put a (c.record a).archive).archiveAt l := by
  ext1
  · funext b
    simp only [archiveAt, put, List.mem_cons]
    by_cases hb : b = a
    · subst hb
      by_cases hl : b ∈ l <;> simp [hl]
    · simp [hb]
  · rfl

/-! ### What a new session changes -/

theorem record_save_cases (c : Contents) (now : UInt64) (name : String) (key : PublicKey)
    (a : Address) :
    (c.save now name key).record a = c.record a ∨
      a.name = name ∧ (c.save now name key).record a = (c.record a).archive := by
  unfold save
  split
  · exact .inl rfl
  · split
    · exact .inl rfl
    · by_cases ha : a.name = name
      · exact .inr ⟨ha, if_pos ha⟩
      · exact .inl (if_neg ha)

theorem pending_save (c : Contents) (now : UInt64) (name : String) (key : PublicKey) (a : Address) :
    ((c.save now name key).record a).pending = (c.record a).pending := by
  rcases c.record_save_cases now name key a with h | ⟨-, h⟩ <;> rw [h]
  exact SessionRecord.pending_archive _

theorem filed_save_self (c : Contents) (now : UInt64) (name : String) (key : PublicKey) :
    ∃ r, (c.save now name key).filed name = some r ∧ r.identityKey = key := by
  unfold save
  split
  · exact ⟨_, filed_file_self .., rfl⟩
  · rename_i r hr
    split
    · exact ⟨r, hr, ‹_›⟩
    · exact ⟨_, filed_file_self .., rfl⟩

theorem filed_save_of_ne (c : Contents) (now : UInt64) {name n : String} (h : n ≠ name)
    (key : PublicKey) : (c.save now name key).filed n = c.filed n := by
  unfold save
  split
  · exact filed_file_of_ne _ h _
  · split
    · rfl
    · exact filed_file_of_ne (c.archivePeer name) h _

/-- After a key is filed, a session with the peer that is still live was live
before, under that key. -/
theorem current_save {c : Contents} {now : UInt64} {name : String} {key : PublicKey} {a : Address}
    {s : SessionState} (ha : a.name = name)
    (h : ((c.save now name key).record a).current = some s) :
    (c.record a).current = some s ∧ ∀ r, c.filed name = some r → r.identityKey = key := by
  unfold save at h
  split at h
  · rename_i hnone
    exact ⟨h, fun r hr => by rw [hnone] at hr; cases hr⟩
  · rename_i r hr
    split at h
    · rename_i hkey
      exact ⟨h, fun r' hr' => by rw [hr] at hr'; cases hr'; exact hkey⟩
    · have hrecord : ((c.archivePeer name).record a) = (c.record a).archive := if_pos ha
      rw [record_file, hrecord, SessionRecord.current_archive] at h
      cases h

section Install
variable (c : Contents) (now : UInt64) (a : Address) (r : SessionRecord) (s : SessionState)

theorem current_install_self : ((c.install now a r s).record a).current = some s := by
  simp [install]

theorem pending_install_self : ((c.install now a r s).record a).pending = r.pending := by
  simp [install, pending_save]

/-- The archive takes the session that was live, if there was one, whether or not
the peer's key changes. -/
theorem previous_install_self : ((c.install now a r s).record a).previous = r.archive.previous := by
  rw [install, record_put_self, SessionRecord.previous_promote]
  rcases (c.put a r).record_save_cases now a.name s.remoteIdentity a with h | ⟨-, h⟩ <;>
    rw [h, record_put_self]
  rw [SessionRecord.archive_archive]

theorem record_install_of_ne {b : Address} (h : b ≠ a) :
    (c.install now a r s).record b = c.record b ∨
      b.name = a.name ∧ (c.install now a r s).record b = (c.record b).archive := by
  have hcases := (c.put a r).record_save_cases now a.name s.remoteIdentity b
  rw [record_put_of_ne _ h] at hcases
  rwa [install, record_put_of_ne _ h]

theorem filed_install_self :
    ∃ i, (c.install now a r s).filed a.name = some i ∧ i.identityKey = s.remoteIdentity := by
  rw [install, filed_put]
  exact filed_save_self _ now a.name s.remoteIdentity

theorem filed_install_of_ne {name : String} (h : name ≠ a.name) :
    (c.install now a r s).filed name = c.filed name := by
  rw [install, filed_put, filed_save_of_ne _ now h, filed_put]

end Install

theorem pending_install_of_ne (c : Contents) (now : UInt64) {a b : Address} (h : b ≠ a)
    (r : SessionRecord) (s : SessionState) :
    ((c.install now a r s).record b).pending = (c.record b).pending := by
  rcases c.record_install_of_ne now a r s h with h | ⟨-, h⟩ <;> rw [h]
  exact SessionRecord.pending_archive _

/-- Whether every exchange under way in some contents is so in others. -/
def OpensNone (c c' : Contents) : Prop :=
  ∀ a q, (c'.record a).pending = some q → (c.record a).pending = some q

section OpensNone
variable {c : Contents} {a : Address} {r : SessionRecord}
  (hr : ∀ q, r.pending = some q → (c.record a).pending = some q)
include hr

theorem opensNone_put : c.OpensNone (c.put a r) := by
  intro b q hq
  by_cases hb : b = a
  · subst hb
    rw [record_put_self] at hq
    exact hr q hq
  · rwa [record_put_of_ne _ hb] at hq

theorem opensNone_install (now : UInt64) (s : SessionState) :
    c.OpensNone (c.install now a r s) := by
  intro b q hq
  by_cases hb : b = a
  · subst hb
    rw [pending_install_self] at hq
    exact hr q hq
  · rwa [pending_install_of_ne _ _ hb] at hq

end OpensNone

end Contents

/-! ### Staging -/

namespace Batch

theorem isEmpty_put (b : Batch) (a : Address) (r : SessionRecord) :
    (b.put a r).isEmpty = false := by
  have hstaged : (b.put a r).staged? a = some (some r) := by rw [staged?_put, if_pos rfl]
  cases hs : (b.put a r).sessions.isEmpty with
  | false => simp [isEmpty, hs]
  | true =>
    rw [SortedMap.isEmpty, List.isEmpty_iff] at hs
    rw [staged?, SortedMap.get?, hs, SortedMap.lookup] at hstaged
    cases hstaged

end Batch

namespace Vault

/-- A batch made out of another one: it leaves the vault with the given contents, and it writes to
every address that the other writes to. -/
structure Leads (v : Vault) (b b' : Batch) (c : Contents) : Prop where
  bounded : b'.IsBounded
  contents : (v.apply b').contents = c
  staged : ∀ a, (b.staged? a).isSome → (b'.staged? a).isSome

theorem Leads.refl {v : Vault} {b : Batch} (hb : b.IsBounded) : v.Leads b b (v.apply b).contents :=
  ⟨hb, rfl, fun _ h => h⟩

theorem Leads.trans {v : Vault} {b b' b'' : Batch} {c c' : Contents} (h : v.Leads b b' c)
    (h' : v.Leads b' b'' c') : v.Leads b b'' c' :=
  ⟨h'.bounded, h'.contents, fun a ha => h'.staged a (h.staged a ha)⟩

theorem Leads.put {v : Vault} {b : Batch} (hb : b.IsBounded) {r : SessionRecord} (hr : r.IsBounded)
    (a : Address) : v.Leads b (b.put a r) ((v.apply b).contents.put a r) := by
  refine ⟨hb.put hr a, contents_apply_put v hb hr a, fun a' h => ?_⟩
  rw [Batch.staged?_put]
  split
  · rfl
  · exact h

theorem Leads.putIdentity {v : Vault} {b b' : Batch} {c : Contents} (h : v.Leads b b' c)
    (name : String) (r : IdentityRecord) :
    v.Leads b (b'.putIdentity name r) (c.file name r) :=
  ⟨h.bounded.putIdentity name r, by rw [contents_apply_putIdentity v h.bounded, h.contents],
    h.staged⟩

/-! ### Archiving -/

/-- A record that is not staged has to be read. -/
theorem session?_of_loadStaged {v : Vault} {b : Batch} {a : Address} {e : SessionError}
    (h : v.loadStaged b a = .error e) :
    b.staged? a = none ∧ ∃ e', v.session? a = .error e' ∧ e = .storage e' := by
  unfold loadStaged at h
  split at h
  · cases h
  · rename_i hstaged
    refine ⟨hstaged, ?_⟩
    rw [load] at h
    cases hread : v.session? a with
    | error e' =>
      rw [hread] at h
      cases h
      exact ⟨e', rfl, rfl⟩
    | ok o =>
      rw [hread] at h
      cases h

/-- An archive that could be staged is that of the record as staged before. -/
theorem leads_of_stageArchive {v : Vault} {b b' : Batch} (hb : b.IsBounded) {n n' : Nat}
    {a : Address} (h : v.stageArchive (b, n) a = .ok (b', n')) :
    v.Leads b b' ((v.apply b).contents.put a ((v.apply b).contents.record a).archive) := by
  obtain ⟨r, hload, h⟩ := bind_eq_ok.mp h
  rw [record_of_loadStaged hb hload]
  cases hc : r.current with
  | some s =>
    rw [hc, Option.isSome_some, if_pos rfl] at h
    cases h
    exact .put hb (record_of_loadStaged hb hload ▸ isBounded_record _ a).archive a
  | none =>
    rw [hc, Option.isSome_none, if_neg (by simp)] at h
    cases h
    refine ⟨hb, ?_, fun _ h => h⟩
    -- without a live session, to archive is to do nothing
    rw [SessionRecord.archive_eq_self hc, ← record_of_loadStaged hb hload, Contents.put_record]

theorem leads_of_foldlM {v : Vault} :
    ∀ {l : List Address} {b b' : Batch} {n n' : Nat}, b.IsBounded →
    l.foldlM v.stageArchive (b, n) = .ok (b', n') →
      v.Leads b b' ((v.apply b).contents.archiveAt l)
  | [], b, b', n, n', hb, h => by
    cases h
    rw [Contents.archiveAt_nil]
    exact .refl hb
  | a :: l, b, b', n, n', hb, h => by
    rw [List.foldlM_cons] at h
    obtain ⟨⟨b₁, n₁⟩, hstage, hrest⟩ := bind_eq_ok.mp h
    have hleads := leads_of_stageArchive hb hstage
    have hleads' := leads_of_foldlM hleads.bounded hrest
    rw [hleads.contents] at hleads'
    rw [Contents.archiveAt_cons]
    exact hleads.trans hleads'

/-- Only the addresses listed are staged anew. -/
theorem staged?_of_foldlM {v : Vault} {c : Address} :
    ∀ {l : List Address} {b b' : Batch} {n n' : Nat},
    c ∉ l → l.foldlM v.stageArchive (b, n) = .ok (b', n') → b'.staged? c = b.staged? c
  | [], b, b', n, n', _, h => by
    cases h
    rfl
  | a :: l, b, b', n, n', hc, h => by
    rw [List.mem_cons, not_or] at hc
    obtain ⟨hne, hl⟩ := hc
    rw [List.foldlM_cons] at h
    obtain ⟨⟨b₁, n₁⟩, hstage, hrest⟩ := bind_eq_ok.mp h
    rw [staged?_of_foldlM hl hrest]
    obtain ⟨r, -, hstage⟩ := bind_eq_ok.mp hstage
    split at hstage
    · cases hstage
      rw [Batch.staged?_put, if_neg hne]
    · cases hstage
      rfl

/-- No identity is filed. -/
theorem identities_of_foldlM {v : Vault} : ∀ {l : List Address} {b b' : Batch} {n n' : Nat},
    l.foldlM v.stageArchive (b, n) = .ok (b', n') → b'.identities = b.identities
  | [], b, b', n, n', h => by
    cases h
    rfl
  | a :: l, b, b', n, n', h => by
    rw [List.foldlM_cons] at h
    obtain ⟨⟨b₁, n₁⟩, hstage, hrest⟩ := bind_eq_ok.mp h
    rw [identities_of_foldlM hrest]
    obtain ⟨r, -, hstage⟩ := bind_eq_ok.mp hstage
    split at hstage <;> cases hstage <;> rfl

/-- Archives can be staged unless the record at one of the addresses, not staged
before, cannot be read. -/
theorem foldlM_stageArchive_cases {v : Vault} : ∀ (l : List Address) (b : Batch) (n : Nat),
    (∃ b' n', l.foldlM v.stageArchive (b, n) = .ok (b', n')) ∨
      ∃ a ∈ l, b.staged? a = none ∧ ∃ e, v.session? a = .error e ∧
        l.foldlM v.stageArchive (b, n) = .error (.storage e)
  | [], b, n => .inl ⟨b, n, rfl⟩
  | a :: l, b, n => by
    cases hload : v.loadStaged b a with
    | error e =>
      obtain ⟨hstaged, e', hread, rfl⟩ := session?_of_loadStaged hload
      refine .inr ⟨a, List.mem_cons_self, hstaged, e', hread, ?_⟩
      rw [List.foldlM_cons]
      simp only [stageArchive, hload]
      rfl
    | ok r =>
      generalize hnext : (if r.current.isSome then (b.put a r.archive, n + 1) else (b, n)) = next
      obtain ⟨b₁, n₁⟩ := next
      have hcons : (a :: l).foldlM v.stageArchive (b, n) = l.foldlM v.stageArchive (b₁, n₁) := by
        rw [List.foldlM_cons]
        simp only [stageArchive, hload, ← hnext]
        rfl
      rw [hcons]
      obtain hok | ⟨c, hc, hstaged, hread⟩ := foldlM_stageArchive_cases l b₁ n₁
      · exact .inl hok
      · refine .inr ⟨c, List.mem_cons_of_mem a hc, ?_, hread⟩
        -- what is staged stays staged
        split at hnext <;> cases hnext
        · rw [Batch.staged?_put] at hstaged
          split at hstaged
          · cases hstaged
          · exact hstaged
        · exact hstaged

/-- Where everything can be read, archives can be staged. -/
theorem Readable.foldlM_stageArchive_ok {v : Vault} (hv : v.Readable) (l : List Address) (b : Batch)
    (n : Nat) : ∃ b' n', l.foldlM v.stageArchive (b, n) = .ok (b', n') := by
  obtain hok | ⟨a, -, -, e, hread, -⟩ := v.foldlM_stageArchive_cases l b n
  · exact hok
  · obtain ⟨r, hr⟩ := hv.session a
    rw [hr] at hread
    cases hread

/-! ### Filing a key -/

theorem mem_stagedDevices {v : Vault} {b : Batch} {name : String} {device : UInt32} :
    device ∈ v.stagedDevices b name ↔
      (∃ bytes, v.sessions.get? ⟨name, device⟩ = some bytes) ∨
        (b.stagedRecord? ⟨name, device⟩).isSome := by
  rw [stagedDevices, SortedMap.mem_sortUnique, List.mem_append]
  refine or_congr ?_ ?_
  · simp only [devices, addresses, List.mem_map, List.mem_filter, SortedMap.mem_keys_iff,
      beq_iff_eq]
    constructor
    · rintro ⟨⟨_, _⟩, ⟨h, rfl⟩, rfl⟩; exact h
    · exact fun h => ⟨⟨name, device⟩, ⟨h, rfl⟩, rfl⟩
  · simp only [Batch.devices, List.mem_map, List.mem_filter, Bool.and_eq_true, beq_iff_eq,
      Batch.stagedRecord?, Batch.staged?]
    constructor
    · rintro ⟨⟨⟨_, _⟩, o⟩, ⟨hmem, rfl, ho⟩, rfl⟩
      rw [SortedMap.get?_eq_some_iff.mpr hmem]
      exact ho
    · intro h
      cases hs : b.sessions.get? ⟨name, device⟩ with
      | none => rw [hs] at h; cases h
      | some o =>
        rw [hs] at h
        exact ⟨(⟨name, device⟩, o), ⟨SortedMap.get?_eq_some_iff.mp hs, rfl, h⟩, rfl⟩

theorem archiveAt_stagedDevices (v : Vault) {b : Batch} (hb : b.IsBounded) (name : String) :
    (v.apply b).contents.archiveAt ((v.stagedDevices b name).map (⟨name, ·⟩)) =
      (v.apply b).contents.archivePeer name := by
  ext1
  · funext a
    obtain ⟨n, device⟩ := a
    simp only [Contents.archiveAt, Contents.archivePeer, List.mem_map, Address.mk.injEq]
    by_cases hn : n = name
    · subst hn
      by_cases hmem : device ∈ v.stagedDevices b n
      · rw [if_pos ⟨device, hmem, rfl, rfl⟩, if_pos rfl]
      · -- an address that is not listed holds nothing, so there is nothing to archive
        rw [if_neg (by rintro ⟨_, h, -, rfl⟩; exact hmem h), if_pos rfl]
        rw [mem_stagedDevices, not_or, not_exists] at hmem
        have hstored : v.contents.record ⟨n, device⟩ = .empty :=
          record_eq_empty (Option.eq_none_iff_forall_ne_some.mpr hmem.1)
        have hempty : (v.apply b).contents.record ⟨n, device⟩ = .empty := by
          rw [record_apply v hb]
          have hstaged := hmem.2
          rw [Batch.stagedRecord?] at hstaged
          cases hs : b.staged? ⟨n, device⟩ with
          | none => exact hstored
          | some o =>
            rw [hs] at hstaged
            cases o with
            | none => rfl
            | some r => exact absurd rfl hstaged
        rw [hempty, SessionRecord.archive_empty]
    · rw [if_neg (by rintro ⟨_, -, h, -⟩; exact hn h.symm), if_neg hn]
  · rfl

theorem leads_of_stageArchiveAll {v : Vault} {b b' : Batch} {n : Nat} (hb : b.IsBounded)
    {name : String} (h : v.stageArchiveAll b name = .ok (b', n)) :
    v.Leads b b' ((v.apply b).contents.archivePeer name) := by
  rw [← archiveAt_stagedDevices v hb]
  exact leads_of_foldlM hb h

/-- A key that could be filed on top of writes that file none is filed as told on contents, and its
actions are notices. -/
theorem leads_of_stageSave {v : Vault} {b b' : Batch} {u : IdentityUpdate} (hb : b.IsBounded)
    {t : Trust} {now : UInt64} {a : Address} {key : PublicKey}
    (hfiled : (v.apply b).contents.filed a.name = v.contents.filed a.name)
    (h : t.stageSave v now a key b = .ok (b', u)) :
    v.Leads b b' ((v.apply b).contents.save now a.name key) ∧
      ∀ x ∈ u.actions, ∃ notice, x = .notify notice := by
  obtain ⟨o, hload, h⟩ := bind_eq_ok.mp h
  unfold Contents.save
  rw [hfiled, filed_of_loadIdentity hload]
  cases o with
  | none =>
    cases h
    exact ⟨(Leads.refl hb).putIdentity _ _, by simp [IdentityUpdate.unchanged]⟩
  | some r =>
    dsimp only at h ⊢
    by_cases hkey : r.identityKey = key
    · rw [if_pos hkey] at h ⊢
      cases h
      exact ⟨.refl hb, by simp [IdentityUpdate.unchanged]⟩
    · rw [if_neg hkey] at h ⊢
      obtain ⟨⟨b₁, n⟩, harchive, h⟩ := bind_eq_ok.mp h
      cases h
      refine ⟨(leads_of_stageArchiveAll hb harchive).putIdentity _ _, fun x hx => ?_⟩
      simp only [Trust.announce, List.mem_map] at hx
      obtain ⟨notice, -, rfl⟩ := hx
      exact ⟨notice, rfl⟩

/-- To file a key of a peer stages no record of another peer. -/
theorem staged?_of_stageSave {v : Vault} {b b' : Batch} {u : IdentityUpdate} {t : Trust}
    {now : UInt64} {a c : Address} {key : PublicKey} (hc : c.name ≠ a.name)
    (h : t.stageSave v now a key b = .ok (b', u)) : b'.staged? c = b.staged? c := by
  obtain ⟨_ | r, -, h⟩ := bind_eq_ok.mp h
  · cases h
    rfl
  · dsimp only at h
    split at h
    · cases h
      rfl
    · obtain ⟨⟨b₁, n⟩, harchive, h⟩ := bind_eq_ok.mp h
      cases h
      have hlisted : c ∉ (v.stagedDevices b a.name).map (⟨a.name, ·⟩) := by
        intro hmem
        obtain ⟨device, -, rfl⟩ := List.mem_map.mp hmem
        exact hc rfl
      exact (staged?_of_foldlM hlisted harchive : b₁.staged? c = b.staged? c)

/-- To file a key of a peer files nothing under another name. -/
theorem identities_of_stageSave {v : Vault} {b b' : Batch} {u : IdentityUpdate} {t : Trust}
    {now : UInt64} {a : Address} {name : String} {key : PublicKey} (hname : name ≠ a.name)
    (h : t.stageSave v now a key b = .ok (b', u)) :
    b'.identities.get? name = b.identities.get? name := by
  obtain ⟨_ | r, -, h⟩ := bind_eq_ok.mp h
  · cases h
    exact SortedMap.get?_insert_of_ne _ hname _
  · dsimp only at h
    split at h
    · cases h
      rfl
    · obtain ⟨⟨b₁, n⟩, harchive, h⟩ := bind_eq_ok.mp h
      cases h
      rw [← identities_of_foldlM harchive]
      exact SortedMap.get?_insert_of_ne _ hname _

/-- A key is filed without a record staged, unless another one is on file. -/
theorem sessions_of_stageSave {v : Vault} {b b' : Batch} {u : IdentityUpdate} {t : Trust}
    {now : UInt64} {a : Address} {key : PublicKey} (h : t.stageSave v now a key b = .ok (b', u)) :
    b'.sessions = b.sessions ∨ ∃ i j, v.loadIdentity a.name = .ok (some i) ∧
      b'.identities.get? a.name = some j ∧ i.identityKey ≠ j.identityKey := by
  obtain ⟨_ | i, hload, h⟩ := bind_eq_ok.mp h
  · cases h
    exact .inl rfl
  · dsimp only at h
    by_cases hkey : i.identityKey = key
    · rw [if_pos hkey] at h
      cases h
      exact .inl rfl
    · rw [if_neg hkey] at h
      obtain ⟨⟨b₁, n⟩, -, h⟩ := bind_eq_ok.mp h
      cases h
      exact .inr ⟨i, Trust.changedRecord now key i, hload, SortedMap.get?_insert_self .., hkey⟩

/-- Where everything can be read, a key can be filed. -/
theorem Readable.stageSave_ok {v : Vault} (hv : v.Readable) (b : Batch) (t : Trust) (now : UInt64)
    (a : Address) (key : PublicKey) : ∃ b' u, t.stageSave v now a key b = .ok (b', u) := by
  simp only [Trust.stageSave, hv.loadIdentity_eq a.name]
  cases v.contents.filed a.name with
  | none => exact ⟨_, _, rfl⟩
  | some r =>
    by_cases hkey : r.identityKey = key
    · exact ⟨b, .unchanged, by simp [hkey, bind, Except.bind, pure, Except.pure]⟩
    · obtain ⟨b', n, harchive⟩ := hv.foldlM_stageArchive_ok
        ((v.stagedDevices b a.name).map (⟨a.name, ·⟩)) b 0
      have hall : v.stageArchiveAll b a.name = .ok (b', n) := harchive
      exact ⟨_, _, by simp only [bind, Except.bind, hkey, hall, if_false, pure, Except.pure]; rfl⟩

end Vault

/-! ### The plan of a new session -/

/-- A plan for a vault that leaves the given contents. -/
structure Plan.Writes {α : Type} (p : Plan α) (v : Vault) (c : Contents) : Prop where
  bounded : p.writes.IsBounded
  contents : (v.apply p.writes).contents = c

theorem Plan.writes_reply {α : Type} (answer : α) (v : Vault) :
    (Plan.reply answer).Writes v v.contents := ⟨Batch.isBounded_empty, rfl⟩

theorem Plan.Writes.map {α β : Type} {p : Plan α} {v : Vault} {c : Contents} (h : p.Writes v c)
    (f : α → β) : (p.map f).Writes v c := ⟨h.bounded, h.contents⟩

theorem Vault.writes_store (v : Vault) (a : Address) {r : SessionRecord} (hr : r.IsBounded) :
    (store a r).Writes v (v.contents.put a r) :=
  ⟨Batch.isBounded_empty.put hr a, v.contents_apply_put Batch.isBounded_empty hr a⟩

/-- A new session is always written. -/
theorem Party.isEmpty_install {p : Party} {v : Vault} {now : UInt64} {a : Address}
    {r : SessionRecord} {s : SessionState} {plan : Plan IdentityUpdate}
    (h : p.install v now a r s = .ok plan) :
    plan.writes.isEmpty = false := by
  obtain ⟨⟨b, u⟩, -, h⟩ := bind_eq_ok.mp h
  cases h
  exact b.isEmpty_put a _

/-- A new session writes to no record of another peer. -/
theorem Party.staged?_of_install {p : Party} {v : Vault} {now : UInt64} {a c : Address}
    {r : SessionRecord} {s : SessionState} {plan : Plan IdentityUpdate} (hc : c.name ≠ a.name)
    (h : p.install v now a r s = .ok plan) : plan.writes.staged? c = none := by
  obtain ⟨⟨b, u⟩, hsave, h⟩ := bind_eq_ok.mp h
  cases h
  have hne : c ≠ a := fun heq => hc (congrArg Address.name heq)
  rw [Batch.staged?_put, if_neg hne, Vault.staged?_of_stageSave hc hsave, Batch.staged?_put,
    if_neg hne]
  rfl

/-- A new session that could be planned is installed on the contents. -/
theorem Party.writes_of_install {p : Party} {v : Vault} {now : UInt64} {a : Address}
    {r : SessionRecord} (hr : r.IsBounded) {s : SessionState} {plan : Plan IdentityUpdate}
    (h : p.install v now a r s = .ok plan) :
    plan.Writes v (v.contents.install now a r s) ∧
      ∀ x ∈ plan.answer.actions, ∃ notice, x = .notify notice := by
  obtain ⟨⟨b, u⟩, hsave, h⟩ := bind_eq_ok.mp h
  cases h
  have hb : (Batch.empty.put a r).IsBounded := Batch.isBounded_empty.put hr a
  have hput : (v.apply (Batch.empty.put a r)).contents = v.contents.put a r :=
    v.contents_apply_put Batch.isBounded_empty hr a
  obtain ⟨hleads, hactions⟩ := Vault.leads_of_stageSave hb (by rw [hput, Contents.filed_put]) hsave
  have hstaged : (b.staged? a).isSome :=
    hleads.staged a (by rw [Batch.staged?_put, if_pos rfl]; rfl)
  have hrecord : (b.stagedRecord? a).getD .empty = (v.apply b).contents.record a := by
    rw [Vault.record_apply v hleads.bounded, Batch.stagedRecord?]
    obtain ⟨o, ho⟩ := Option.isSome_iff_exists.mp hstaged
    rw [ho]; rfl
  have hbounded := (Vault.isBounded_record (v.apply b) a).promote s
  refine ⟨?_, hactions⟩
  rw [hrecord]
  refine ⟨hleads.bounded.put hbounded a, ?_⟩
  rw [Vault.contents_apply_put v hleads.bounded hbounded, hleads.contents, hput]
  rfl

/-- The record with a new session can be read. -/
theorem Party.session?_of_install {p : Party} {v : Vault} {now : UInt64} {a : Address}
    {r : SessionRecord} (hr : r.IsBounded) {s : SessionState} {plan : Plan IdentityUpdate}
    (h : p.install v now a r s = .ok plan) : (v.apply plan.writes).session? a =
      .ok (some ((v.contents.install now a r s).record a)) := by
  obtain ⟨hbounded, hcontents⟩ := (writes_of_install hr h).1
  obtain ⟨r', hstaged⟩ : ∃ r', plan.writes.staged? a = some (some r') := by
    obtain ⟨⟨b, u⟩, -, h⟩ := bind_eq_ok.mp h
    cases h
    exact ⟨_, (b.staged?_put a a _).trans (if_pos rfl)⟩
  rw [← hcontents, Vault.record_apply v hbounded, Vault.session?_apply v hbounded, hstaged]
  rfl

/-- A new session can always be planned where everything can be read. -/
theorem Party.install_spec (p : Party) {v : Vault} (hv : v.Readable) (now : UInt64) (a : Address)
    {r : SessionRecord} (hr : r.IsBounded) (s : SessionState) :
    ∃ plan, p.install v now a r s = .ok plan ∧ plan.writes.isEmpty = false ∧
      plan.Writes v (v.contents.install now a r s) ∧
      ∀ x ∈ plan.answer.actions, ∃ notice, x = .notify notice := by
  obtain ⟨b, u, hsave⟩ := hv.stageSave_ok (Batch.empty.put a r) p.trust now a s.remoteIdentity
  have hplan : p.install v now a r s =
      .ok ⟨b.put a (((b.stagedRecord? a).getD .empty).promote s), u⟩ := by
    simp only [Party.install, hsave]
    rfl
  exact ⟨_, hplan, isEmpty_install hplan, writes_of_install hr hplan⟩

end SecureSession
