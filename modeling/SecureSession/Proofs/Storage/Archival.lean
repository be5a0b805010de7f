import SecureSession.Proofs.Storage.Commits
import SecureSession.Proofs.Storage.Views

/-! # Archival

Archiving at an address, at the other devices of a peer, or everywhere is one thing done to
different targets: where a target has a live session, it moves to the front of the archive there,
all in one commit; every other entry keeps its bytes. No target has a live session afterwards, so
doing it again commits nothing. What is left does not depend on how the targets were grouped or in
which order they came. -/

namespace SecureSession

/-! ### Live sessions -/

namespace Vault

/-- Whether there is a live session at an address. -/
def hasLive (v : Vault) (a : Address) : Bool := (v.contents.record a).current.isSome

/-- The addresses of the live sessions among some targets. -/
def liveAmong (v : Vault) (targets : Address → Bool) : List Address :=
  v.addresses.filter fun a => targets a && v.hasLive a

/-- How a vault comes out of archiving the live sessions among some targets. -/
structure Archives (v : Vault) (targets : Address → Bool) (w : Vault) : Prop where
  archived : ∀ a r s, targets a = true → v.session? a = .ok (some r) → r.current = some s →
    w.sessions.get? a = some (SessionRecord.encode {
      current := none
      previous := (s :: r.previous).take SessionRecord.archiveLimit
      pending := r.pending })
  kept : ∀ a, (targets a = true → ∀ r, v.session? a = .ok (some r) → r.current = none) →
    w.sessions.get? a = v.sessions.get? a
  identities : w.identities = v.identities

variable {v w x : Vault} {targets others : Address → Bool}

theorem hasLive_eq_true {a : Address} : v.hasLive a = true ↔
    ∃ r s, v.session? a = .ok (some r) ∧ r.current = some s ∧ v.contents.record a = r := by
  unfold hasLive contents
  dsimp only
  cases h : v.session? a with
  | error e => simp [SessionRecord.empty]
  | ok o =>
    cases o with
    | none => simp [SessionRecord.empty]
    | some r => simp [Option.isSome_iff_exists]

theorem mem_addresses_of_hasLive {a : Address} (h : v.hasLive a = true) : a ∈ v.addresses := by
  refine (v.mem_addresses_or a).resolve_right fun hempty => ?_
  rw [hasLive, hempty] at h
  cases h

theorem mem_liveAmong {a : Address} :
    a ∈ v.liveAmong targets ↔ targets a = true ∧ v.hasLive a = true := by
  unfold liveAmong
  rw [List.mem_filter, Bool.and_eq_true]
  exact ⟨fun h => h.2, fun h => ⟨mem_addresses_of_hasLive h.2, h⟩⟩

theorem nodup_liveAmong : (v.liveAmong targets).Nodup := v.sessions.nodup_keys.filter _

/-- The bytes at every address, told at once. -/
theorem archives_iff : v.Archives targets w ↔ w.identities = v.identities ∧
    ∀ a, w.sessions.get? a =
      if a ∈ v.liveAmong targets then some (v.contents.record a).archive.encode
      else v.sessions.get? a := by
  constructor
  · intro h
    refine ⟨h.identities, fun a => ?_⟩
    split
    · rename_i ha
      obtain ⟨htarget, hlive⟩ := mem_liveAmong.mp ha
      obtain ⟨r, s, hread, hcurrent, hrecord⟩ := hasLive_eq_true.mp hlive
      rw [h.archived a r s htarget hread hcurrent, hrecord, SessionRecord.archive, hcurrent]
    · rename_i ha
      refine h.kept a fun htarget r hread => ?_
      by_contra hcurrent
      obtain ⟨s, hs⟩ := Option.ne_none_iff_exists'.mp hcurrent
      have hrecord : v.contents.record a = r := by simp only [contents, hread, Option.getD_some]
      exact ha (mem_liveAmong.mpr ⟨htarget, hasLive_eq_true.mpr ⟨r, s, hread, hs, hrecord⟩⟩)
  · rintro ⟨hidentities, hsessions⟩
    refine ⟨fun a r s htarget hread hs => ?_, fun a ha => ?_, hidentities⟩
    · have hrecord : v.contents.record a = r := by simp only [contents, hread, Option.getD_some]
      rw [hsessions, if_pos (mem_liveAmong.mpr
        ⟨htarget, hasLive_eq_true.mpr ⟨r, s, hread, hs, hrecord⟩⟩), hrecord,
        SessionRecord.archive, hs]
    · rw [hsessions, if_neg]
      intro hmem
      obtain ⟨htarget, hlive⟩ := mem_liveAmong.mp hmem
      obtain ⟨r, s, hread, hs, -⟩ := hasLive_eq_true.mp hlive
      rw [ha htarget r hread] at hs
      cases hs

/-- The records after archiving. -/
theorem Archives.record_eq (h : v.Archives targets w) (a : Address) : w.contents.record a =
    if a ∈ v.liveAmong targets then (v.contents.record a).archive else v.contents.record a := by
  have hbytes := (archives_iff.mp h).2 a
  split
  · rename_i ha
    rw [if_pos ha] at hbytes
    have hdecode := SessionRecord.decode_encode (v.isBounded_record a).archive []
    rw [List.append_nil] at hdecode
    have hread : w.session? a = .ok (some (v.contents.record a).archive) := by
      rw [session?, hbytes, read?, hdecode]
      rfl
    simp only [contents, hread, Option.getD_some]
  · rename_i ha
    rw [if_neg ha] at hbytes
    exact record_congr hbytes

/-- No target has a live session left, and no other address gains or loses one. -/
theorem Archives.hasLive_eq (h : v.Archives targets w) (a : Address) :
    w.hasLive a = (v.hasLive a && !targets a) := by
  unfold hasLive
  rw [h.record_eq]
  split
  · rename_i ha
    obtain ⟨htarget, -⟩ := mem_liveAmong.mp ha
    rw [SessionRecord.current_archive, htarget]
    simp
  · rename_i ha
    rw [mem_liveAmong, not_and, Bool.not_eq_true] at ha
    cases htarget : targets a with
    | false => simp
    | true =>
      have hnone : (v.contents.record a).current.isSome = false := ha htarget
      simp [hnone]

theorem Archives.liveAmong_eq_nil (h : v.Archives targets w) : w.liveAmong targets = [] := by
  rw [List.eq_nil_iff_forall_not_mem]
  intro a ha
  obtain ⟨htarget, hlive⟩ := mem_liveAmong.mp ha
  rw [h.hasLive_eq, htarget] at hlive
  simp at hlive

theorem archives_self (h : v.liveAmong targets = []) : v.Archives targets v :=
  archives_iff.mpr ⟨rfl, fun a => by simp [h]⟩

/-- One archival after the other is one archival of the targets of both. -/
theorem Archives.trans (h : v.Archives targets w) (h' : w.Archives others x) :
    v.Archives (fun a => targets a || others a) x := by
  refine archives_iff.mpr ⟨h'.identities.trans h.identities, fun a => ?_⟩
  rw [(archives_iff.mp h').2, h.record_eq, (archives_iff.mp h).2]
  simp only [mem_liveAmong, h.hasLive_eq, Bool.or_eq_true, Bool.and_eq_true, Bool.not_eq_true']
  by_cases hlive : v.hasLive a = true
  · cases targets a <;> simp [hlive]
  · simp [hlive]

/-- What archiving leaves depends only on which live sessions are targets. -/
theorem Archives.eq (h : v.Archives targets w) (h' : v.Archives others x)
    (hsame : ∀ a, v.hasLive a = true → targets a = others a) : w = x := by
  obtain ⟨hidentities, hsessions⟩ := archives_iff.mp h
  obtain ⟨hidentities', hsessions'⟩ := archives_iff.mp h'
  have hmem : ∀ a, a ∈ v.liveAmong targets ↔ a ∈ v.liveAmong others := fun a => by
    rw [mem_liveAmong, mem_liveAmong]
    exact and_congr_left fun hlive => by rw [hsame a hlive]
  obtain ⟨sessions, identities⟩ := w
  obtain ⟨sessions', identities'⟩ := x
  obtain rfl : sessions = sessions' := SortedMap.ext_get? fun a => by
    rw [hsessions, hsessions']
    simp only [hmem]
  obtain rfl : identities = identities' := hidentities.trans hidentities'.symm
  rfl

end Vault

/-! ### Plans -/

/-- Whether a plan puts an archived record in place of every live session among the targets, and
writes nothing else. -/
structure Plan.ArchivesAt (plan : Plan Nat) (v : Vault) (targets : Address → Bool) : Prop where
  staged : ∀ a, plan.writes.staged? a =
    if a ∈ v.liveAmong targets then some (some (v.contents.record a).archive) else none
  identities : plan.writes.identities = .empty
  answer : plan.answer = (v.liveAmong targets).length

namespace Plan

variable {plan : Plan Nat} {v : Vault} {targets : Address → Bool}

theorem ArchivesAt.isBounded (h : plan.ArchivesAt v targets) : plan.writes.IsBounded := by
  intro a r hr
  rw [Batch.stagedRecord?, h.staged] at hr
  split at hr
  · cases hr
    exact (v.isBounded_record a).archive
  · cases hr

theorem ArchivesAt.archives (h : plan.ArchivesAt v targets) :
    v.Archives targets (v.apply plan.writes) := by
  refine Vault.archives_iff.mpr ⟨?_, fun a => ?_⟩
  · rw [Vault.apply, h.identities]
    rfl
  · rw [Vault.get?_sessions_apply, h.staged]
    split <;> rfl

/-- The answer counts the writes. -/
theorem ArchivesAt.size_eq (h : plan.ArchivesAt v targets) : plan.writes.size = plan.answer := by
  have hperm : plan.writes.sessions.keys.Perm (v.liveAmong targets) := by
    refine (List.perm_ext_iff_of_nodup (SortedMap.nodup_keys _) Vault.nodup_liveAmong).mpr
      fun a => ?_
    have hstaged := h.staged a
    rw [Batch.staged?] at hstaged
    rw [SortedMap.mem_keys_iff, hstaged]
    split <;> simp [*]
  have hlength : plan.writes.sessions.size = (v.liveAmong targets).length := by
    rw [← hperm.length_eq]
    exact (List.length_map _).symm
  rw [Batch.size, hlength, h.identities, h.answer]
  rfl

theorem ArchivesAt.isEmpty_eq (h : plan.ArchivesAt v targets) :
    plan.writes.isEmpty = (v.liveAmong targets).isEmpty := by
  have hsize : plan.writes.size = (v.liveAmong targets).length := h.size_eq.trans h.answer
  rw [Bool.eq_iff_iff, Batch.isEmpty, Bool.and_eq_true, SortedMap.isEmpty, SortedMap.isEmpty,
    List.isEmpty_iff_length_eq_zero, List.isEmpty_iff_length_eq_zero,
    List.isEmpty_iff_length_eq_zero, ← hsize, Batch.size, SortedMap.size, SortedMap.size]
  omega

end Plan

namespace Vault

variable {v : Vault} {targets : Address → Bool}

/-- Staging archives at addresses that come once each, and were not staged before. -/
theorem staged_of_foldlM : ∀ {l : List Address} {b b' : Batch} {n n' : Nat}, l.Nodup →
    (∀ a ∈ l, b.staged? a = none) → l.foldlM v.stageArchive (b, n) = .ok (b', n') →
      n' = n + l.countP v.hasLive ∧ ∀ c, b'.staged? c =
        if c ∈ l ∧ v.hasLive c = true then some (some (v.contents.record c).archive)
        else b.staged? c
  | [], b, b', n, n', _, _, h => by
    cases h
    simp
  | a :: l, b, b', n, n', hl, hb, h => by
    obtain ⟨hfresh, hl⟩ := List.nodup_cons.mp hl
    rw [List.foldlM_cons] at h
    obtain ⟨⟨b₁, n₁⟩, hstage, hrest⟩ := bind_eq_ok.mp h
    obtain ⟨r, hload, hstage⟩ := bind_eq_ok.mp hstage
    have hrecord : v.contents.record a = r := by
      rw [loadStaged, hb a List.mem_cons_self] at hload
      exact record_of_load hload
    have hstep : n₁ = n + (if v.hasLive a then 1 else 0) ∧ ∀ c, b₁.staged? c =
        if c = a ∧ v.hasLive a = true then some (some r.archive) else b.staged? c := by
      rw [hasLive, hrecord]
      split at hstage
      · cases hstage
        simp [*, Batch.staged?_put]
      · cases hstage
        simp [*]
    have hunstaged : ∀ c ∈ l, b₁.staged? c = none := by
      intro c hc
      rw [hstep.2, if_neg, hb c (List.mem_cons_of_mem a hc)]
      rintro ⟨rfl, -⟩
      exact hfresh hc
    obtain ⟨hcount, hstaged⟩ := staged_of_foldlM hl hunstaged hrest
    refine ⟨?_, fun c => ?_⟩
    · rw [hcount, hstep.1, List.countP_cons]
      omega
    · rw [hstaged, hstep.2]
      by_cases hc : c = a
      · subst hc
        simp [hfresh, hrecord]
      · simp [hc]

/-- Archiving at some addresses, of which those with a live session are the targets. -/
theorem Readable.archiveAt_spec (hv : v.Readable) {l : List Address} (hl : l.Nodup)
    (hmem : ∀ a, v.hasLive a = true → (a ∈ l ↔ targets a = true)) :
    ∃ plan, v.archiveAt l = .ok plan ∧ plan.ArchivesAt v targets := by
  obtain ⟨b, n, hfold⟩ := hv.foldlM_stageArchive_ok l .empty 0
  obtain ⟨hcount, hstaged⟩ := staged_of_foldlM hl (fun _ _ => rfl) hfold
  have hperm : (l.filter v.hasLive).Perm (v.liveAmong targets) := by
    refine (List.perm_ext_iff_of_nodup (hl.filter _) nodup_liveAmong).mpr fun a => ?_
    rw [List.mem_filter, mem_liveAmong]
    exact and_congr_left (hmem a)
  refine ⟨⟨b, n⟩, ?_, fun a => ?_, identities_of_foldlM hfold, ?_⟩
  · rw [archiveAt, hfold]
    rfl
  · have hiff : (a ∈ l ∧ v.hasLive a = true) ↔ a ∈ v.liveAmong targets := by
      rw [← hperm.mem_iff, List.mem_filter]
    rw [hstaged]
    simp only [hiff]
    rfl
  · rw [hcount, List.countP_eq_length_filter, hperm.length_eq, Nat.zero_add]

end Vault

/-! ### One commit -/

namespace Storage

variable {α : Type} {s s' s'' : Storage} {account : String} {targets others : Address → Bool}

/-- How an operation archives the live sessions of an account among some targets, and
answers how many there were: in one commit, which writes these records alone, or in none,
where there is nothing to archive. -/
structure ArchivesOnce (s : Storage) (account : String)
    (plan : Vault → Except SessionError (Plan α)) (targets : Address → Bool) (answer : Nat → α) :
    Prop where
  idle : (s.vault account).liveAmong targets = [] → s.run account plan = (.ok (answer 0), s)
  once : (s.vault account).liveAmong targets ≠ [] → ∃ writes : Batch,
    writes.size = ((s.vault account).liveAmong targets).length ∧
    (s.vault account).Archives targets ((s.vault account).apply writes) ∧
    s.run account plan =
      match s.commit account writes with
      | (.ok (), s') => (.ok (answer writes.size), s')
      | (.error e, s') => (.error (.storage e), s')
  again : ∀ x s', s.run account plan = (.ok x, s') → s'.run account plan = (.ok (answer 0), s')

/-- Whether an operation plans an archival of some targets wherever everything stored can be read,
and answers how many live sessions there were. -/
def PlansArchival (plan : Vault → Except SessionError (Plan α)) (targets : Address → Bool)
    (answer : Nat → α) : Prop :=
  ∀ v : Vault, v.Readable → ∃ made : Plan Nat,
    plan v = .ok (made.map answer) ∧ made.ArchivesAt v targets

variable {plan : Vault → Except SessionError (Plan α)} {answer : Nat → α}

theorem run_idle (hplan : PlansArchival plan targets answer) (hread : (s.vault account).Readable)
    (hnone : (s.vault account).liveAmong targets = []) :
    s.run account plan = (.ok (answer 0), s) := by
  obtain ⟨made, hmade, harchives⟩ := hplan _ hread
  have hempty : (made.map answer).writes.isEmpty = true := by
    show made.writes.isEmpty = true
    rw [harchives.isEmpty_eq, hnone]
    rfl
  have hanswer : made.answer = 0 := by rw [harchives.answer, hnone]; rfl
  rw [run, hmade, carryOut, if_pos hempty, Plan.map, hanswer]

theorem run_once (hplan : PlansArchival plan targets answer) (hread : (s.vault account).Readable)
    (hsome : (s.vault account).liveAmong targets ≠ []) : ∃ made : Plan Nat,
    made.ArchivesAt (s.vault account) targets ∧
    s.run account plan =
      match s.commit account made.writes with
      | (.ok (), s') => (.ok (answer made.writes.size), s')
      | (.error e, s') => (.error (.storage e), s') := by
  obtain ⟨made, hmade, harchives⟩ := hplan _ hread
  have hwrites : ¬(made.map answer).writes.isEmpty = true := by
    show ¬made.writes.isEmpty = true
    rw [harchives.isEmpty_eq, List.isEmpty_iff]
    exact hsome
  refine ⟨made, harchives, ?_⟩
  rw [run, hmade, carryOut, if_neg hwrites, harchives.size_eq]
  rfl

/-- What has changed where such an operation succeeded. -/
theorem archives_of_run (hplan : PlansArchival plan targets answer)
    (hread : (s.vault account).Readable) {x : α} (h : s.run account plan = (.ok x, s')) :
    (s'.vault account).Readable ∧ (s.vault account).Archives targets (s'.vault account) := by
  by_cases hlive : (s.vault account).liveAmong targets = []
  · rw [run_idle hplan hread hlive] at h
    cases h
    exact ⟨hread, Vault.archives_self hlive⟩
  · obtain ⟨made, harchives, hrun⟩ := run_once hplan hread hlive
    rw [hrun] at h
    rcases hcommit : s.commit account made.writes with ⟨e | _, s₁⟩
    · rw [hcommit] at h
      cases h
    · rw [hcommit] at h
      cases h
      rw [(commit_eq_ok hcommit).2]
      exact ⟨hread.apply harchives.isBounded, harchives.archives⟩

theorem archivesOnce (hplan : PlansArchival plan targets answer)
    (hread : (s.vault account).Readable) : s.ArchivesOnce account plan targets answer where
  idle := run_idle hplan hread
  once hlive := by
    obtain ⟨made, harchives, hrun⟩ := run_once hplan hread hlive
    exact ⟨made.writes, harchives.size_eq.trans harchives.answer, harchives.archives, hrun⟩
  again x s' h := by
    obtain ⟨hread', harchives⟩ := archives_of_run hplan hread h
    exact run_idle hplan hread' harchives.liveAmong_eq_nil

/-! ### The three operations -/

/-- The address itself. -/
theorem plansArchival_archive (a : Address) : PlansArchival (·.archive a) (· == a) (0 < ·) := by
  intro v hread
  have hspec : ∃ made, v.archiveAt [a] = .ok made ∧ made.ArchivesAt v (· == a) :=
    hread.archiveAt_spec (List.nodup_singleton a) fun b _ => by simp
  obtain ⟨made, hmade, harchives⟩ := hspec
  refine ⟨made, ?_, harchives⟩
  show v.archive a = _
  rw [Vault.archive, hmade]
  rfl

/-- The other devices of the peer that have a record. -/
theorem plansArchival_archiveSiblings (a : Address) :
    PlansArchival (·.archiveSiblings a) (fun b => b.name == a.name && b.device != a.device) id := by
  intro v hread
  refine hread.archiveAt_spec ((v.nodup_addressesOf a.name).filter _) fun b hlive => ?_
  have hstored := Vault.mem_addresses_of_hasLive hlive
  rw [List.mem_filter, Vault.mem_addressesOf, Bool.and_eq_true, bne_iff_ne, beq_iff_eq, bne_iff_ne]
  refine ⟨fun h => ⟨h.1.1, fun hdevice => h.2 ?_⟩, fun h => ⟨⟨h.1, hstored⟩, fun heq => h.2 ?_⟩⟩
  · obtain ⟨name, device⟩ := a
    obtain ⟨name', device'⟩ := b
    obtain ⟨⟨rfl, -⟩, -⟩ := h
    obtain rfl : device' = device := hdevice
    rfl
  · rw [heq]

/-- Every address that has a record. -/
theorem plansArchival_archiveAll : PlansArchival Vault.archiveAll (fun _ => true) id := by
  intro v hread
  refine hread.archiveAt_spec v.sessions.nodup_keys fun a hlive => ?_
  exact ⟨fun _ => rfl, fun _ => Vault.mem_addresses_of_hasLive hlive⟩

/-! ### One address after the other -/

/-- Archives at some addresses, one call for each, until one fails. -/
def archiveEach (account : String) : List Address → Storage → Except SessionError Storage
  | [], s => .ok s
  | a :: l, s =>
    match s.run account (·.archive a) with
    | (.ok _, s') => archiveEach account l s'
    | (.error e, _) => .error e

/-- A storage that differs from another one by an archival for an account. -/
structure Archived (s : Storage) (account : String) (targets : Address → Bool)
    (s' : Storage) : Prop where
  archives : (s.vault account).Archives targets (s'.vault account)
  held : (s'.vaults.get? account).isSome = (s.vaults.get? account).isSome
  others : ∀ other, other ≠ account → s'.vaults.get? other = s.vaults.get? other

theorem Archived.trans (h : s.Archived account targets s') (h' : s'.Archived account others s'') :
    s.Archived account (fun a => targets a || others a) s'' where
  archives := h.archives.trans h'.archives
  held := h'.held.trans h.held
  others other hother := (h'.others other hother).trans (h.others other hother)

/-- Two archivals of the same live sessions leave the same vaults. -/
theorem Archived.vaults_eq (h : s.Archived account targets s') (h' : s.Archived account others s'')
    (hsame : ∀ a, (s.vault account).hasLive a = true → targets a = others a) :
    s'.vaults = s''.vaults := by
  have hvault : s'.vault account = s''.vault account := h.archives.eq h'.archives hsame
  refine SortedMap.ext_get? fun other => ?_
  by_cases hother : other = account
  · subst hother
    have hheld := h.held.trans h'.held.symm
    rw [vault, vault] at hvault
    cases hget : s'.vaults.get? other with
    | none =>
      rw [hget, Option.isSome_none, eq_comm, Option.isSome_eq_false_iff,
        Option.isNone_iff_eq_none] at hheld
      rw [hheld]
    | some v =>
      rw [hget, Option.isSome_some, eq_comm, Option.isSome_iff_exists] at hheld
      obtain ⟨v', hget'⟩ := hheld
      rw [hget, hget'] at hvault
      rw [hget', show v = v' from hvault]
  · rw [h.others other hother, h'.others other hother]

theorem vaults_of_commit {b : Batch} (h : s.commit account b = (.ok (), s')) :
    s'.vaults = s.vaults.insert account ((s.vault account).apply b) := by
  unfold commit at h
  split at h <;> cases h
  rfl

/-- An archival that found something to archive found it in a vault that was held. -/
theorem archived_of_run (hplan : PlansArchival plan targets answer)
    (hread : (s.vault account).Readable) {x : α} (h : s.run account plan = (.ok x, s')) :
    s.Archived account targets s' := by
  have hvault := (archives_of_run hplan hread h).2
  by_cases hlive : (s.vault account).liveAmong targets = []
  · rw [run_idle hplan hread hlive] at h
    cases h
    exact ⟨hvault, rfl, fun _ _ => rfl⟩
  · obtain ⟨made, -, hrun⟩ := run_once hplan hread hlive
    rw [hrun] at h
    rcases hcommit : s.commit account made.writes with ⟨e | _, s₁⟩
    · rw [hcommit] at h
      cases h
    · rw [hcommit] at h
      cases h
      have hvaults := vaults_of_commit hcommit
      refine ⟨hvault, ?_, fun other hother => ?_⟩
      · rw [hvaults, SortedMap.get?_insert_self]
        cases hheld : s.vaults.get? account with
        | some v => rfl
        | none =>
          refine absurd ?_ hlive
          rw [Storage.vault, hheld]
          rfl
      · rw [hvaults, SortedMap.get?_insert_of_ne _ hother]

theorem archived_of_archiveEach :
    ∀ {l : List Address} {s s' : Storage}, (s.vault account).Readable →
    archiveEach account l s = .ok s' → s.Archived account l.contains s'
  | [], s, s', _, h => by
    cases h
    exact ⟨Vault.archives_self (by simp [Vault.liveAmong]), rfl, fun _ _ => rfl⟩
  | a :: l, s, s', hread, h => by
    unfold archiveEach at h
    split at h
    · rename_i x s₁ hrun
      have hread' := (archives_of_run (plansArchival_archive a) hread hrun).1
      have hfirst := archived_of_run (plansArchival_archive a) hread hrun
      have hrest := hfirst.trans (archived_of_archiveEach hread' h)
      have htargets : (fun c => (c == a) || l.contains c) = (a :: l).contains := by
        funext c
        rw [List.contains_cons]
      rwa [htargets] at hrest
    · cases h

/-! ### Without failures -/

/-- An archival succeeds where no commit fails. -/
theorem run_of_calm (hplan : PlansArchival plan targets answer) (hread : (s.vault account).Readable)
    (hcalm : s.faults.strike = (false, s.faults)) :
    ∃ x s', s.run account plan = (.ok x, s') ∧ s'.faults = s.faults := by
  by_cases hlive : (s.vault account).liveAmong targets = []
  · exact ⟨_, _, run_idle hplan hread hlive, rfl⟩
  · obtain ⟨made, -, hrun⟩ := run_once hplan hread hlive
    rw [hrun, commit, hcalm]
    exact ⟨_, _, rfl, rfl⟩

theorem archiveEach_of_calm : ∀ (l : List Address) {s : Storage}, (s.vault account).Readable →
    s.faults.strike = (false, s.faults) →
      ∃ s', archiveEach account l s = .ok s' ∧ s'.faults = s.faults
  | [], s, _, _ => ⟨s, rfl, rfl⟩
  | a :: l, s, hread, hcalm => by
    obtain ⟨x, s₁, hrun, hfaults⟩ := run_of_calm (plansArchival_archive a) hread hcalm
    have hread' := (archives_of_run (plansArchival_archive a) hread hrun).1
    obtain ⟨s', hrest, hfaults'⟩ := archiveEach_of_calm l hread' (hfaults ▸ hcalm)
    refine ⟨s', ?_, hfaults'.trans hfaults⟩
    rw [archiveEach, hrun]
    exact hrest

/-- Each of the three operations archives the live sessions among its targets, all in one commit,
and once they are archived it has nothing to do. Archiving every session leaves what archiving at
every address leaves, one address after the other in any order. -/
theorem archivals_exact (s : Storage) (account : String) (hread : (s.vault account).Readable) :
    (∀ a, s.ArchivesOnce account (·.archive a) (· == a) (0 < ·)) ∧
    (∀ a, s.ArchivesOnce account (·.archiveSiblings a)
      (fun b => b.name == a.name && b.device != a.device) id) ∧
    s.ArchivesOnce account Vault.archiveAll (fun _ => true) id ∧
    ∀ l : List Address, l.Perm (s.vault account).addresses →
      (∀ s' n s'', archiveEach account l s = .ok s' →
        s.run account Vault.archiveAll = (.ok n, s'') → s'.vaults = s''.vaults) ∧
      (s.faults.armed = false → s.faults.rate = 0 →
        archiveEach account l s = .ok (s.run account Vault.archiveAll).2) := by
  have hsame : ∀ (l : List Address), l.Perm (s.vault account).addresses →
      ∀ s' n s'', archiveEach account l s = .ok s' →
        s.run account Vault.archiveAll = (.ok n, s'') → s'.vaults = s''.vaults := by
    intro l hl s' n s'' heach hall
    have hleft := archived_of_archiveEach hread heach
    have hright := archived_of_run plansArchival_archiveAll hread hall
    refine hleft.vaults_eq hright fun a hlive => ?_
    rw [List.contains_iff_mem, hl.mem_iff]
    exact Vault.mem_addresses_of_hasLive hlive
  refine ⟨fun a => archivesOnce (plansArchival_archive a) hread,
    fun a => archivesOnce (plansArchival_archiveSiblings a) hread,
    archivesOnce plansArchival_archiveAll hread, fun l hl => ⟨hsame l hl, ?_⟩⟩
  intro harmed hrate
  have hcalm : s.faults.strike = (false, s.faults) := by simp [Faults.strike, harmed, hrate]
  obtain ⟨s', heach, hfaults⟩ := archiveEach_of_calm l hread hcalm
  obtain ⟨n, s'', hall, hfaults'⟩ := run_of_calm plansArchival_archiveAll hread hcalm
  have hvaults := hsame l hl s' n s'' heach hall
  rw [heach, hall]
  obtain ⟨vaults, faults⟩ := s'
  obtain ⟨vaults', faults'⟩ := s''
  obtain rfl : vaults = vaults' := hvaults
  obtain rfl : faults = faults' := hfaults.trans hfaults'.symm
  rfl

/-- Three devices of Bob, of which the second has no live session, and one of Carol. -/
theorem archivals_exact_bob_carol :
    let state : SessionState :=
      .fresh default default ⟨default, default, default, none, some ⟨default, 7⟩⟩
    let live : SessionRecord := SessionRecord.empty.promote state
    let stored : Batch := (((Batch.empty.put ⟨"bob", 1⟩ live).put ⟨"bob", 2⟩ live.archive).put
      ⟨"bob", 3⟩ live).put ⟨"carol", 1⟩ live
    let s := (empty .never).setVault "alice" (Vault.empty.apply stored)
    (s.vault "alice").Readable ∧
    (∃ s', s.run "alice" (·.archiveSiblings ⟨"bob", 1⟩) = (.ok 1, s') ∧
      s'.run "alice" (·.archiveSiblings ⟨"bob", 1⟩) = (.ok 0, s')) ∧
    (s.run "alice" Vault.archiveAll).1 = .ok 3 ∧
    archiveEach "alice" [⟨"carol", 1⟩, ⟨"bob", 2⟩, ⟨"bob", 3⟩, ⟨"bob", 1⟩] s =
      .ok (s.run "alice" Vault.archiveAll).2 := by
  intro state live stored s
  have hlive : live.IsBounded := show _ ≤ _ by decide
  have hbounded : stored.IsBounded :=
    (((Batch.isBounded_empty.put hlive _).put hlive.archive _).put hlive _).put hlive _
  have hread : (s.vault "alice").Readable := by
    rw [vault_setVault_self]
    exact Vault.readable_empty.apply hbounded
  have hsiblings : (s.run "alice" (·.archiveSiblings ⟨"bob", 1⟩)).1 = .ok 1 := by decide +kernel
  have hall : (s.run "alice" Vault.archiveAll).1 = .ok 3 := by decide +kernel
  have horder : [⟨"carol", 1⟩, ⟨"bob", 2⟩, ⟨"bob", 3⟩, ⟨"bob", 1⟩].Perm
      (s.vault "alice").addresses := by decide +kernel
  have hrun : s.run "alice" (·.archiveSiblings ⟨"bob", 1⟩) =
      (.ok 1, (s.run "alice" (·.archiveSiblings ⟨"bob", 1⟩)).2) := by
    rw [← hsiblings]
  obtain ⟨-, hbob, -, heach⟩ := archivals_exact s "alice" hread
  have hagain := (hbob ⟨"bob", 1⟩).again _ _ hrun
  have hone := (heach _ horder).2 rfl rfl
  exact ⟨hread, ⟨_, hrun, hagain⟩, hall, hone⟩

end Storage

end SecureSession
