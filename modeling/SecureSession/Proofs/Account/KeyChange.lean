import SecureSession.Proofs.Account.Failure

/-! # Changes of a peer's key

Where a request changes the key on file for a peer, its one commit archives every live session with
every device of the peer. A session that the request itself makes goes on top of the archive at its
own address, and is the only one with the peer that is live after the commit. -/

namespace SecureSession

/-! ### On contents -/

namespace Contents

variable {c : Contents} {now : UInt64} {name : String} {key : PublicKey} {i : IdentityRecord}

theorem record_save_of_changed (hi : c.filed name = some i) (hkey : i.identityKey ≠ key)
    {a : Address} (ha : a.name = name) : (c.save now name key).record a = (c.record a).archive := by
  simp only [save, hi, if_neg hkey, record_file]
  exact if_pos ha

section Install
variable {a : Address} {r : SessionRecord} {s : SessionState} (hi : c.filed a.name = some i)
  (hkey : i.identityKey ≠ s.remoteIdentity)
include hi hkey

theorem record_install_of_changed : (c.install now a r s).record a = r.archive.promote s := by
  rw [install, record_put_self, record_save_of_changed (by rw [filed_put]; exact hi) hkey rfl,
    record_put_self]

theorem record_install_sibling {b : Address} (hb : b ≠ a) (hname : b.name = a.name) :
    (c.install now a r s).record b = (c.record b).archive := by
  rw [install, record_put_of_ne _ hb,
    record_save_of_changed (by rw [filed_put]; exact hi) hkey hname, record_put_of_ne _ hb]

end Install

/-- Where a key is filed for one peer and all others keep theirs, a key that
changes is the key filed. -/
theorem filed_of_rekeyed {c' : Contents} {peer : String} {i' : IdentityRecord}
    (hself : ∃ r, c'.filed peer = some r ∧ r.identityKey = key)
    (hothers : ∀ n, n ≠ peer → c'.filed n = c.filed n) (hbefore : c.filed name = some i)
    (hafter : c'.filed name = some i') (hchanged : i'.identityKey ≠ i.identityKey) :
    peer = name ∧ i'.identityKey = key := by
  by_cases hname : name = peer
  · subst hname
    obtain ⟨r, hr, hkey⟩ := hself
    cases hafter.symm.trans hr
    exact ⟨rfl, hkey⟩
  · have hkept := (hothers name hname).trans hbefore
    cases hafter.symm.trans hkept
    exact absurd rfl hchanged

end Contents

/-! ### On accounts -/

/-- The record that a request finds at an address, less what the session it makes
there does not go on top of. -/
def Request.beneath (q : Request) (a : Address) (r : SessionRecord) : SessionRecord :=
  if q.site? = some a then q.base r else r

namespace Account

variable {A A' : Account} {q : Request} {name : String}

/-- How an account comes out of a request that changes the key on file for a peer. -/
structure Swept (A A' : Account) (q : Request) (name : String) (key : PublicKey) : Prop where
  readable : A'.vault.Readable
  /-- All changes are made in one commit. -/
  commit : ∃ b, A.storage.commit A.party.account b = (.ok (), A'.storage)
  /-- The bytes stored for other peers stay. -/
  others : ∀ a, a.name ≠ name → A'.vault.sessions.get? a = A.vault.sessions.get? a
  /-- Every session that was live is the newest of its archive. -/
  previous : ∀ a, a.name = name → (A'.contents.record a).previous =
    ((A.contents.record a).current.toList ++ (q.beneath a (A.contents.record a)).previous).take
      SessionRecord.archiveLimit
  /-- At all other addresses of the peer no session is live, and exchanges stay under way. -/
  siblings : ∀ a, a.name = name → q.site? ≠ some a →
    (A'.contents.record a).current = none ∧
    (A'.contents.record a).pending = (A.contents.record a).pending
  /-- The session that the request made is live and with the new key. -/
  live : ∀ a, q.site? = some a →
    ∃ s, (A'.contents.record a).current = some s ∧ s.remoteIdentity = key

theorem swept_of_saved {b : Batch} {u : IdentityUpdate} {a : Address} {key : PublicKey}
    {now : UInt64} {i : IdentityRecord} (hread : A.vault.Readable)
    (hstage : A.party.trust.stageSave A.vault now a key .empty = .ok (b, u))
    (hcommit : A.storage.commit A.party.account b = (.ok (), A'.storage))
    (hvault : A'.vault = A.vault.apply b)
    (hi : A.contents.filed a.name = some i) (hkey : i.identityKey ≠ key) :
    A.Swept A' (.save a key) a.name key := by
  obtain ⟨hleads, -⟩ := Vault.leads_of_stageSave Batch.isBounded_empty rfl hstage
  have hcontents : A'.contents = A.contents.save now a.name key := by
    rw [contents, hvault]
    exact hleads.contents
  have hrecord (c : Address) (hc : c.name = a.name) :
      A'.contents.record c = (A.contents.record c).archive := by
    rw [hcontents, Contents.record_save_of_changed hi hkey hc]
  refine ⟨hvault ▸ hread.apply hleads.bounded, ⟨b, hcommit⟩, fun c hc => ?_, fun c hc => ?_,
    fun c hc _ => ?_, nofun⟩
  · rw [hvault, Vault.get?_sessions_apply, Vault.staged?_of_stageSave hc hstage]
    rfl
  · rw [hrecord c hc]
    exact SessionRecord.previous_archive (A.vault.isBounded_record c)
  · rw [hrecord c hc]
    exact ⟨SessionRecord.current_archive _, SessionRecord.pending_archive _⟩

theorem swept_of_installed {a : Address} {s : SessionState} {now : UInt64}
    {plan : Plan IdentityUpdate} {i : IdentityRecord} (hread : A.vault.Readable)
    (hsite : q.site? = some a)
    (hplan : A.party.install A.vault now a (q.base (A.contents.record a)) s = .ok plan)
    (hcommit : A.storage.commit A.party.account plan.writes = (.ok (), A'.storage))
    (hvault : A'.vault = A.vault.apply plan.writes)
    (hi : A.contents.filed a.name = some i) (hkey : i.identityKey ≠ s.remoteIdentity) :
    A.Swept A' q a.name s.remoteIdentity := by
  have hbounded : (q.base (A.contents.record a)).IsBounded :=
    q.isBounded_base (A.vault.isBounded_record a)
  obtain ⟨hwrites, -⟩ := Party.writes_of_install hbounded hplan
  have hcontents : A'.contents = A.contents.install now a (q.base (A.contents.record a)) s := by
    rw [contents, hvault]
    exact hwrites.contents
  have hself : A'.contents.record a = (q.base (A.contents.record a)).archive.promote s := by
    rw [hcontents, Contents.record_install_of_changed hi hkey]
  have hsibling (c : Address) (hc : c.name = a.name) (hne : c ≠ a) :
      A'.contents.record c = (A.contents.record c).archive := by
    rw [hcontents, Contents.record_install_sibling hi hkey hne hc]
  refine ⟨hvault ▸ hread.apply hwrites.bounded, ⟨_, hcommit⟩, fun c hc => ?_, fun c hc => ?_,
    fun c hc hne => ?_, fun c hc => ?_⟩
  · rw [hvault, Vault.get?_sessions_apply, Party.staged?_of_install hc hplan]
    rfl
  · by_cases hca : c = a
    · subst hca
      rw [hself, Request.beneath, if_pos hsite, SessionRecord.previous_promote,
        SessionRecord.archive_archive, SessionRecord.previous_archive hbounded,
        Request.current_base]
    · have hnot : q.site? ≠ some c := fun h => hca (Option.some.inj (h.symm.trans hsite))
      rw [hsibling c hc hca, Request.beneath, if_neg hnot]
      exact SessionRecord.previous_archive (A.vault.isBounded_record c)
  · have hca : c ≠ a := fun h => hne (h ▸ hsite)
    rw [hsibling c hc hca]
    exact ⟨SessionRecord.current_archive _, SessionRecord.pending_archive _⟩
  · obtain rfl : a = c := Option.some.inj (hsite.symm.trans hc)
    rw [hself]
    exact ⟨s, SessionRecord.current_promote _ _, rfl⟩

/-- Only to file a key or to make a session changes the key on file for a peer. -/
theorem swept_of_writes {b : Batch} {reply : Reply} {consumed : Option UInt32}
    {i i' : IdentityRecord} (hread : A.vault.Readable)
    (hwrites : q.Writes A.party A.vault b reply consumed)
    (hcommit : A.storage.commit A.party.account b = (.ok (), A'.storage))
    (hvault : A'.vault = A.vault.apply b)
    (hbefore : A.contents.filed name = some i) (hafter : A'.contents.filed name = some i')
    (hchanged : i'.identityKey ≠ i.identityKey) : A.Swept A' q name i'.identityKey := by
  have hsame (h : (A.vault.apply b).contents.filed name = some i) : A.Swept A' q name
      i'.identityKey := by
    rw [contents, hvault, h] at hafter
    cases hafter
    exact absurd rfl hchanged
  cases hwrites with
  | opened | stored => exact hsame ((A.vault.filed_apply _ name).trans hbefore)
  | @installed _ a r s now plan actions hsite hload htrust hplan =>
    obtain rfl := Vault.record_of_load hload
    have hbounded := q.isBounded_base (A.vault.isBounded_record a)
    have hcontents : A'.contents = A.contents.install now a (q.base (A.contents.record a)) s := by
      rw [contents, hvault]
      exact (Party.writes_of_install hbounded hplan).1.contents
    rw [hcontents] at hafter
    obtain ⟨rfl, hkey⟩ := Contents.filed_of_rekeyed (A.contents.filed_install_self now a _ s)
      (fun _ hne => A.contents.filed_install_of_ne now a _ s hne) hbefore hafter hchanged
    rw [hkey] at hchanged ⊢
    exact swept_of_installed hread hsite hplan hcommit hvault hbefore hchanged.symm
  | @saved a key now b u hstage =>
    obtain ⟨hleads, -⟩ := Vault.leads_of_stageSave Batch.isBounded_empty rfl hstage
    have hcontents : A'.contents = A.contents.save now a.name key := by
      rw [contents, hvault]
      exact hleads.contents
    rw [hcontents] at hafter
    obtain ⟨rfl, hkey⟩ := Contents.filed_of_rekeyed (A.contents.filed_save_self now a.name key)
      (fun _ hne => A.contents.filed_save_of_ne now hne key) hbefore hafter hchanged
    rw [hkey] at hchanged ⊢
    exact swept_of_saved hread hstage hcommit hvault hbefore hchanged.symm
  | @confirmed _ peer r verification now u hload =>
    have hcontents : A'.contents = A.contents.file peer { r with
        verification, updatedAt := now } := by
      rw [contents, hvault]
      exact A.vault.contents_apply_putIdentity Batch.isBounded_empty peer _
    rw [hcontents] at hafter
    obtain ⟨rfl, hkey⟩ := Contents.filed_of_rekeyed ⟨_, A.contents.filed_file_self peer _, rfl⟩
      (fun _ hne => A.contents.filed_file_of_ne hne _) hbefore hafter hchanged
    -- a confirmation leaves the key as it is
    cases hbefore.symm.trans (Vault.filed_of_loadIdentity hload)
    exact absurd hkey hchanged
  | deleted l hreply =>
    refine hsame ?_
    rw [A.vault.contents_apply_deletes]
    exact hbefore
  | archived hstage hreply =>
    refine hsame ?_
    rw [(Vault.leads_of_foldlM Batch.isBounded_empty hstage).contents]
    exact hbefore

/-- However a request comes out, it sweeps the sessions of a peer if it changes the key on file. -/
theorem Comes.swept {result : Except SessionError Reply} {i i' : IdentityRecord}
    (h : A.Comes q result A') (hread : A.vault.Readable) (hbefore : A.contents.filed name = some i)
    (hafter : A'.contents.filed name = some i') (hchanged : i'.identityKey ≠ i.identityKey) :
    A.Swept A' q name i'.identityKey := by
  have hsame (hcontents : A'.contents = A.contents) : A.Swept A' q name i'.identityKey := by
    rw [hcontents, hbefore] at hafter
    cases hafter
    exact absurd rfl hchanged
  cases h with
  | failed | idle | published => exact hsame rfl
  | committed environment hwrites hcommit =>
    exact swept_of_writes hread hwrites hcommit (vault_of_commit hcommit) hbefore hafter hchanged

/-- A request that succeeds and changes the key on file for a peer sweeps
all the peer's sessions. -/
theorem key_change_sweeps (suite : Suite) {A A' : Account} {q : Request} {reply : Reply}
    {name : String} {i i' : IdentityRecord} (hread : A.vault.Readable)
    (hserve : A.serve suite q = (.ok reply, A')) (hbefore : A.contents.filed name = some i)
    (hafter : A'.contents.filed name = some i') (hchanged : i'.identityKey ≠ i.identityKey) :
    A.Swept A' q name i'.identityKey := by
  have hcomes := comes_serve suite A q
  rw [hserve] at hcomes
  exact hcomes.swept hread hbefore hafter hchanged

theorem readable_sampleVault : sampleVault.Readable := by
  have hbob : (SessionRecord.ofHistory [.plain 2 10, .plain 2 11] false none).IsBounded :=
    show _ ≤ _ by decide
  have hdevice : (SessionRecord.ofHistory [.plain 2 20] false
      (some ⟨9, .plain 6, .plain 7, .plain 1⟩)).IsBounded := show _ ≤ _ by decide
  have hcarol : (SessionRecord.ofHistory [.plain 3 30] false none).IsBounded := show _ ≤ _ by decide
  exact Vault.readable_empty.apply (((Batch.isBounded_empty.put hbob _).put hdevice _).put hcarol _)

/-- Bob comes with a new key to an exchange that both sides open: the new session takes the place of
the live one with his second device, and his first device is left without. -/
theorem key_change_sweeps_bob :
    let A := sample .acceptChanged sampleVault
    let q := Request.receive ⟨"bob", 2⟩ 7
      (.initiate ((PendingExchange.mk 3 (.plain 8) (.plain 9) (.plain 4)).leg .initiate))
    A.vault.Readable ∧
    (A.serve .plain q).1.isOk = true ∧
    A.contents.filed "bob" = some (Trust.firstRecord 0 ⟨.replicate 2⟩) ∧
    ((A.serve .plain q).2.contents.filed "bob").map IdentityRecord.identityKey =
      some ⟨.replicate 4⟩ ∧
    A.Swept (A.serve .plain q).2 q "bob" ⟨.replicate 4⟩ := by
  intro A q
  have hread : A.vault.Readable := (vault_sample ..).symm ▸ readable_sampleVault
  have hok : (A.serve .plain q).1.isOk = true := by decide +kernel
  have hbefore : A.contents.filed "bob" = some (Trust.firstRecord 0 ⟨.replicate 2⟩) := by
    decide +kernel
  have hkey : ((A.serve .plain q).2.contents.filed "bob").map IdentityRecord.identityKey =
      some ⟨.replicate 4⟩ := by decide +kernel
  obtain ⟨i', hafter, hkey'⟩ := Option.map_eq_some_iff.mp hkey
  obtain ⟨reply, hreply⟩ : ∃ reply, (A.serve .plain q).1 = .ok reply := by
    cases h : (A.serve .plain q).1 with
    | ok reply => exact ⟨reply, rfl⟩
    | error e => rw [h] at hok; cases hok
  have hchanged : i'.identityKey ≠ (Trust.firstRecord 0 ⟨.replicate 2⟩).identityKey := by
    rw [hkey']
    decide
  refine ⟨hread, hok, hbefore, hkey, ?_⟩
  rw [← hkey']
  exact key_change_sweeps .plain hread (Prod.ext hreply rfl) hbefore hafter hchanged

end Account

end SecureSession
