import SecureSession.Proofs.Storage.Commits
import SecureSession.Proofs.Storage.Install

/-! # Updates of identities

To file a key, to confirm the key on file and to apply a claim about it follow one pattern. An
update with something to change writes one identity and announces it, to the conversation with the
peer and to every group the peer is in; an update with nothing to change writes and announces
nothing. Only first contact is filed without notice. -/

namespace SecureSession

/-! ### Filing one identity -/

namespace Vault

theorem identity?_putIdentity_self (v : Vault) (b : Batch) (name : String) (r : IdentityRecord) :
    (v.apply (b.putIdentity name r)).identity? name = .ok (some r) := by
  rw [identity?_apply, Batch.putIdentity, SortedMap.get?_insert_self]
  rfl

theorem get?_putIdentity_of_ne (v : Vault) {b : Batch} (hb : b.identities = .empty)
    {name n : String} (h : n ≠ name) (r : IdentityRecord) :
    (v.apply (b.putIdentity name r)).identities.get? n = v.identities.get? n := by
  rw [get?_identities_apply, Batch.putIdentity, SortedMap.get?_insert_of_ne _ h, hb]
  rfl

end Vault

/-! ### What is planned -/

namespace Trust

variable (t : Trust) (now : UInt64) {v : Vault}

/-- A confirmation comes with its notices, unless it is the one on file. -/
theorem setVerification_eq (name : String) (r : IdentityRecord) (verification : Verification)
    (origin : NoticeOrigin) : t.setVerification now name r verification origin =
      if r.verification = verification then .reply .unchanged
      else ⟨Batch.empty.putIdentity name { r with verification, updatedAt := now },
        ⟨true, t.announce name origin
          (if verification = .verified then .markedVerified else .markedUnverified)⟩⟩ := by
  cases verification <;> rfl

theorem mark_eq {name : String} {o : Option IdentityRecord} (h : v.identity? name = .ok o)
    (verification : Verification) (origin : NoticeOrigin) : t.mark now name verification origin v =
      .ok (o.elim (.reply .unchanged) fun r =>
        t.setVerification now name r verification origin) := by
  have hload : v.loadIdentity name = .ok o := mapError_eq_ok.mpr h
  rw [mark, hload]
  cases o <;> rfl

theorem reconcile_eq {name : String} {o : Option IdentityRecord} (h : v.identity? name = .ok o)
    (key : PublicKey) (verification : Verification) : t.reconcile now name key verification v =
      .ok (o.elim (.reply .unchanged) fun r =>
        if r.identityKey = key then t.setVerification now name r verification .elsewhere
        else .reply .unchanged) := by
  have hload : v.loadIdentity name = .ok o := mapError_eq_ok.mpr h
  rw [reconcile, hload]
  cases o with
  | none => rfl
  | some r => exact (apply_ite Except.ok ..).symm

theorem save_eq_of_unknown {a : Address} (h : v.identity? a.name = .ok none) (key : PublicKey) :
    t.save now a key v =
    .ok ⟨Batch.empty.putIdentity a.name (firstRecord now key), .unchanged⟩ := by
  have hload : v.loadIdentity a.name = .ok none := mapError_eq_ok.mpr h
  rw [save, stageSave, hload]
  rfl

section Known
variable {a : Address} {r : IdentityRecord} {key : PublicKey}
  (h : v.identity? a.name = .ok (some r))
include h

theorem save_eq_of_same (hkey : r.identityKey = key) :
    t.save now a key v = .ok (.reply .unchanged) := by
  have hload : v.loadIdentity a.name = .ok (some r) := mapError_eq_ok.mpr h
  have hstage : t.stageSave v now a key .empty = .ok (.empty, .unchanged) := by
    rw [stageSave, hload]
    exact if_pos hkey
  rw [save, hstage]
  rfl

/-- Another key is filed on top of archives. -/
theorem save_eq_of_ne (hread : v.Readable) (hkey : r.identityKey ≠ key) :
    ∃ b : Batch, b.identities = .empty ∧ t.save now a key v =
      .ok ⟨b.putIdentity a.name (changedRecord now key r),
        ⟨true, t.announce a.name .elsewhere .keyChanged⟩⟩ := by
  have hload : v.loadIdentity a.name = .ok (some r) := mapError_eq_ok.mpr h
  obtain ⟨b, n, harchive⟩ := hread.foldlM_stageArchive_ok
    ((v.stagedDevices .empty a.name).map (⟨a.name, ·⟩)) .empty 0
  have hall : v.stageArchiveAll .empty a.name = .ok (b, n) := harchive
  have hstage : t.stageSave v now a key .empty =
      .ok (b.putIdentity a.name (changedRecord now key r),
      ⟨true, t.announce a.name .elsewhere .keyChanged⟩) := by
    rw [stageSave, hload]
    refine (if_neg hkey).trans ?_
    rw [hall]
    rfl
  refine ⟨b, Vault.identities_of_foldlM harchive, ?_⟩
  rw [save, hstage]
  rfl

end Known

end Trust

/-! ### Updates -/

/-- An update of the identity on file for a peer. -/
inductive IdentityEdit
  /-- File the key of the peer at an address. -/
  | save (a : Address) (key : PublicKey)
  /-- Give the key on file a confirmation. -/
  | mark (name : String) (verification : Verification) (origin : NoticeOrigin)
  /-- Apply the confirmation that another device claims for a key. -/
  | reconcile (name : String) (key : PublicKey) (verification : Verification)
deriving DecidableEq

namespace IdentityEdit

/-- What an update writes and answers. -/
def plan (t : Trust) (now : UInt64) :
    IdentityEdit → Vault → Except SessionError (Plan IdentityUpdate)
  | .save a key => t.save now a key
  | .mark name verification origin => t.mark now name verification origin
  | .reconcile name key verification => t.reconcile now name key verification

/-! ### What an update is for -/

/-- The peer whose identity is updated. -/
def peer : IdentityEdit → String
  | .save a _ => a.name
  | .mark name .. | .reconcile name .. => name

/-- Whether the key is updated, not its confirmation. -/
def isSave : IdentityEdit → Bool
  | .save .. => true
  | .mark .. | .reconcile .. => false

/-- Where the change is announced to come from. -/
def origin : IdentityEdit → NoticeOrigin
  | .mark _ _ origin => origin
  | .save .. | .reconcile .. => .elsewhere

/-- What the change is announced as. -/
def change : IdentityEdit → IdentityChange
  | .save .. => .keyChanged
  | .mark _ verification _ | .reconcile _ _ verification =>
    if verification = .verified then .markedVerified else .markedUnverified

/-- Whether an update finds something to change in the record on file. -/
def Changes : IdentityEdit → IdentityRecord → Prop
  | .save _ key, r => r.identityKey ≠ key
  | .mark _ verification _, r => r.verification ≠ verification
  | .reconcile _ key verification, r => r.identityKey = key ∧ r.verification ≠ verification

/-- The record on file after a change. -/
def revise (now : UInt64) : IdentityEdit → IdentityRecord → IdentityRecord
  | .save _ key, r => Trust.changedRecord now key r
  | .mark _ verification _, r | .reconcile _ _ verification, r =>
    { r with verification, updatedAt := now }

variable {e : IdentityEdit} {t : Trust} {now : UInt64} {v : Vault} {r : IdentityRecord}

theorem not_changes_revise (h : e.Changes r) (now : UInt64) : ¬e.Changes (e.revise now r) := by
  cases e with
  | save => exact fun hne => hne rfl
  | mark => exact fun hne => hne rfl
  | reconcile => exact fun hne => hne.2 rfl

/-- Whether there is nothing to change or to file. -/
def IsSettled (e : IdentityEdit) (v : Vault) : Prop :=
  (∃ r, v.identity? e.peer = .ok (some r) ∧ ¬e.Changes r) ∨
    v.identity? e.peer = .ok none ∧ e.isSave = false

/-! ### Plans -/

/-- The plan of an update for a vault. -/
inductive Plans (t : Trust) (now : UInt64) (v : Vault) : IdentityEdit → Plan IdentityUpdate → Prop
  | settled {e : IdentityEdit} (h : e.IsSettled v) : Plans t now v e (.reply .unchanged)
  | met {a : Address} {key : PublicKey} (h : v.identity? a.name = .ok none) :
    Plans t now v (.save a key)
    ⟨Batch.empty.putIdentity a.name (Trust.firstRecord now key), .unchanged⟩
  | revised {e : IdentityEdit} {r : IdentityRecord} {b : Batch}
    (hr : v.identity? e.peer = .ok (some r)) (hchanges : e.Changes r)
    (hidentities : b.identities = .empty) (hsessions : e.isSave = false → b.sessions = .empty) :
    Plans t now v e
      ⟨b.putIdentity e.peer (e.revise now r), ⟨true, t.announce e.peer e.origin e.change⟩⟩

theorem plan_of_isSettled (t : Trust) (now : UInt64) (h : e.IsSettled v) :
    e.plan t now v = .ok (.reply .unchanged) := by
  obtain ⟨r, hr, hkept⟩ | ⟨hnone, hsave⟩ := h
  · cases e with
    | save a key => exact t.save_eq_of_same now hr (not_not.mp hkept)
    | mark name verification origin =>
      have hsame : r.verification = verification := not_not.mp hkept
      exact (t.mark_eq now hr ..).trans (congrArg Except.ok (if_pos hsame))
    | reconcile name key verification =>
      refine (t.reconcile_eq now hr ..).trans (congrArg Except.ok ?_)
      by_cases hkey : r.identityKey = key
      · have hsame : r.verification = verification := by
          by_contra hne
          exact hkept ⟨hkey, hne⟩
        exact (if_pos hkey).trans (if_pos hsame)
      · exact if_neg hkey
  · cases e with
    | save => cases hsave
    | mark => exact t.mark_eq now hnone ..
    | reconcile => exact t.reconcile_eq now hnone ..

/-- Where everything can be read, an update has a plan. -/
theorem exists_plan (t : Trust) (now : UInt64) (e : IdentityEdit) (hread : v.Readable) :
    ∃ p, e.plan t now v = .ok p ∧ Plans t now v e p := by
  have hsettled (h : e.IsSettled v) : ∃ p, e.plan t now v = .ok p ∧ Plans t now v e p :=
    ⟨_, plan_of_isSettled t now h, .settled h⟩
  obtain ⟨o, ho⟩ := hread.identity e.peer
  cases o with
  | none =>
    cases e with
    | save a key => exact ⟨_, t.save_eq_of_unknown now ho key, .met ho⟩
    | mark | reconcile => exact hsettled (.inr ⟨ho, rfl⟩)
  | some r =>
    by_cases hchanges : e.Changes r
    · cases e with
      | save a key =>
        obtain ⟨b, hidentities, hplan⟩ := t.save_eq_of_ne now ho hread hchanges
        exact ⟨_, hplan, .revised ho hchanges hidentities nofun⟩
      | mark name verification origin =>
        refine ⟨_, ?_, .revised (b := .empty) ho hchanges rfl fun _ => rfl⟩
        refine (t.mark_eq now ho ..).trans (congrArg Except.ok ?_)
        exact (t.setVerification_eq ..).trans (if_neg hchanges)
      | reconcile name key verification =>
        refine ⟨_, ?_, .revised (b := .empty) ho hchanges rfl fun _ => rfl⟩
        refine (t.reconcile_eq now ho ..).trans (congrArg Except.ok ?_)
        exact (if_pos hchanges.1).trans ((t.setVerification_eq ..).trans (if_neg hchanges.2))
    · exact hsettled (.inl ⟨r, ho, hchanges⟩)

/-- What was planned leaves nothing to change or to file. -/
theorem Plans.isSettled_apply {p : Plan IdentityUpdate} (h : Plans t now v e p) :
    e.IsSettled (v.apply p.writes) := by
  cases h with
  | settled hsettled => exact hsettled
  | met => exact .inl ⟨_, v.identity?_putIdentity_self .., fun hne => hne rfl⟩
  | revised _ hchanges =>
    exact .inl ⟨_, v.identity?_putIdentity_self .., not_changes_revise hchanges now⟩

/-! ### What comes of an update -/

/-- What an update that succeeds answers, and what it leaves of the content of an account. -/
structure Updates (t : Trust) (now : UInt64) (e : IdentityEdit) (v : Vault) (u : IdentityUpdate)
    (v' : Vault) : Prop where
  /-- It reports a change exactly where there was something to change. -/
  changed : u.changed = true ↔ ∃ r, v.identity? e.peer = .ok (some r) ∧ e.Changes r
  /-- A change is announced to the conversation with the peer, then to each group. -/
  announced : u.changed = true → u.actions =
    .notify ⟨e.peer, .direct, e.origin, e.change⟩ ::
      (t.groups e.peer).map fun id => .notify ⟨e.peer, .group id, e.origin, e.change⟩
  /-- It is a change to the record on file for the peer. -/
  revised : u.changed = true → ∃ r, v.identity? e.peer = .ok (some r) ∧
    v'.identity? e.peer = .ok (some (e.revise now r))
  /-- The identities of other peers stay. -/
  others : ∀ name, name ≠ e.peer → v'.identities.get? name = v.identities.get? name
  /-- No session is written, unless a key is replaced. -/
  sessions : e.isSave = false ∨ u.changed = false → v'.sessions = v.sessions
  /-- Without a change nothing is announced. -/
  silent : u.changed = false → u.actions = []
  /-- Without a change nothing is written, unless a key is the first of the peer. -/
  idle : u.changed = false → v' = v ∨ ∃ a key, e = .save a key ∧ v.identity? a.name = .ok none ∧
    v'.identity? a.name = .ok (some (Trust.firstRecord now key))

theorem Plans.updates {p : Plan IdentityUpdate} (h : Plans t now v e p) :
    e.Updates t now v p.answer (v.apply p.writes) := by
  cases h with
  | settled hsettled =>
    refine ⟨⟨nofun, fun ⟨r, hr, hchanges⟩ => ?_⟩, nofun, nofun, fun _ _ => rfl, fun _ => rfl,
      fun _ => rfl, fun _ => .inl rfl⟩
    obtain ⟨r', hr', hkept⟩ | ⟨hnone, -⟩ := hsettled
    · cases hr.symm.trans hr'
      exact absurd hchanges hkept
    · cases hr.symm.trans hnone
  | @met a key hnone =>
    refine ⟨⟨nofun, fun ⟨r, hr, _⟩ => ?_⟩, nofun, nofun, fun name hname => ?_, fun _ => rfl,
      fun _ => rfl, fun _ => .inr ⟨a, key, rfl, hnone, v.identity?_putIdentity_self ..⟩⟩
    · cases hr.symm.trans hnone
    · exact v.get?_putIdentity_of_ne rfl hname _
  | @revised _ r b hr hchanges hidentities hsessions =>
    refine ⟨⟨fun _ => ⟨r, hr, hchanges⟩, fun _ => rfl⟩, fun _ => ?_,
      fun _ => ⟨r, hr, v.identity?_putIdentity_self ..⟩,
      fun name hname => v.get?_putIdentity_of_ne hidentities hname _, fun hstatus => ?_,
      nofun, nofun⟩
    · simp only [Trust.announce, IdentityNotice.announce, List.map_cons, List.map_map]
      rfl
    · obtain hstatus | hfalse := hstatus
      · rw [Vault.apply, Batch.putIdentity, hsessions hstatus]
        rfl
      · cases hfalse

/-- For any content that can be read, and whatever the policy and the groups: an update that
succeeds reports, announces and writes real changes only, and repeated at any time it finds nothing
to do. With nothing to do it leaves the storage alone, even where the next commit would fail. An
update fails only with its commit, and then changes nothing. -/
theorem updates_real_changes (t : Trust) (now : UInt64) (e : IdentityEdit) {s : Storage}
    {account : String} (hread : (s.vault account).Readable) :
    (∀ u s', s.run account (e.plan t now) = (.ok u, s') →
      e.Updates t now (s.vault account) u (s'.vault account) ∧
      ∀ later faults, { s' with faults }.run account (e.plan t later) =
        (.ok .unchanged, { s' with faults })) ∧
    ((∀ r, (s.vault account).identity? e.peer = .ok (some r) → ¬e.Changes r) →
      (e.isSave = true → (s.vault account).identity? e.peer ≠ .ok none) →
      s.run account (e.plan t now) = (.ok .unchanged, s)) ∧
    (∀ error s', s.run account (e.plan t now) = (.error error, s') → ∃ n faults,
      s.faults.strike = (true, faults) ∧ error = .storage (.unavailable (.injected n)) ∧
      s' = { s with faults }) := by
  have hsettled (s : Storage) (later : UInt64) (h : e.IsSettled (s.vault account)) :
      s.run account (e.plan t later) = (.ok .unchanged, s) := by
    rw [Storage.run, plan_of_isSettled t later h]
    rfl
  obtain ⟨p, hplan, hplans⟩ := exists_plan t now e hread
  have hcarries := s.carriesOut account (e.plan t now (s.vault account))
  refine ⟨fun u s' hrun => ?_, fun hkept hmet => hsettled s now ?_, fun error s' hrun => ?_⟩
  · rw [Storage.run] at hrun
    rw [hrun, hplan] at hcarries
    have hvault : u = p.answer ∧ s'.vault account = (s.vault account).apply p.writes := by
      cases hcarries with
      | idle hempty => exact ⟨rfl, (Vault.apply_of_isEmpty _ hempty).symm⟩
      | done _ hcommit => exact ⟨rfl, (Storage.commit_eq_ok hcommit).2⟩
    obtain ⟨rfl, hvault⟩ := hvault
    have hafter : e.IsSettled (s'.vault account) := hvault ▸ hplans.isSettled_apply
    exact ⟨hvault ▸ hplans.updates, fun later faults => hsettled { s' with faults } later hafter⟩
  · obtain ⟨_ | r, ho⟩ := hread.identity e.peer
    · cases hsave : e.isSave with
      | true => exact absurd ho (hmet hsave)
      | false => exact .inr ⟨ho, hsave⟩
    · exact .inl ⟨r, ho, hkept r ho⟩
  · rw [Storage.run] at hrun
    rw [hrun, hplan] at hcarries
    cases hcarries with
    | struck _ hstrike => exact ⟨_, _, hstrike, rfl, rfl⟩

/-- Bob's key, compared. -/
def sampleVault : Vault :=
  Vault.empty.apply (Batch.empty.putIdentity "bob" ⟨⟨.replicate 2⟩, .verified, true, 3, 4⟩)

/-- Bob's confirmation is taken back, and both groups he is in are told. -/
theorem updates_real_changes_bob :
    let t : Trust := ⟨.acceptChanged, fun _ => ["lunch", "work"]⟩
    let e : IdentityEdit := .mark "bob" .default .here
    let s := (Storage.empty .never).setVault "alice" sampleVault
    let u : IdentityUpdate := ⟨true, [.notify ⟨"bob", .direct, .here, .markedUnverified⟩,
      .notify ⟨"bob", .group "lunch", .here, .markedUnverified⟩,
      .notify ⟨"bob", .group "work", .here, .markedUnverified⟩]⟩
    (s.vault "alice").Readable ∧ (s.run "alice" (e.plan t 5)).1 = .ok u ∧
    e.Updates t 5 (s.vault "alice") u ((s.run "alice" (e.plan t 5)).2.vault "alice") ∧
    ((s.run "alice" (e.plan t 5)).2.run "alice" (e.plan t 6)).1 = .ok .unchanged := by
  intro t e s u
  have hvault : s.vault "alice" = sampleVault := Storage.vault_setVault_self ..
  have hread : (s.vault "alice").Readable :=
    hvault ▸ Vault.readable_empty.apply (Batch.isBounded_empty.putIdentity "bob" _)
  have hrun : (s.run "alice" (e.plan t 5)).1 = .ok u := by decide +kernel
  obtain ⟨hupdates, hrepeats⟩ := (updates_real_changes t 5 e hread).1 u _ (Prod.ext hrun rfl)
  exact ⟨hread, hrun, hupdates, congrArg Prod.fst (hrepeats 6 _)⟩

end IdentityEdit

end SecureSession
