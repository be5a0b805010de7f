import SecureSession.Proofs.Handshake.Shapes
import SecureSession.Proofs.Storage.Commits
import SecureSession.Proofs.Storage.Views

/-! # Plans within bounds

Every plan writes under the name of the peer it was made for. The records it writes are those at the
address it was made for, unless it changes the key on file. Carried out, it leaves the other
accounts alone, and what comes of it depends on the plan and on the faults to come, but on nothing
that is stored. -/

namespace SecureSession

/-! ### Plans -/

/-- Whether the key on file under a name is another one than before. -/
def Vault.Rekeys (v w : Vault) (name : String) : Prop :=
  ∃ i j, v.loadIdentity name = .ok (some i) ∧ w.loadIdentity name = .ok (some j) ∧
    i.identityKey ≠ j.identityKey

instance (v w : Vault) (name : String) : Decidable (v.Rekeys w name) :=
  decidable_of_iff (((v.loadIdentity name).toOption.join.any fun i =>
    (w.loadIdentity name).toOption.join.any fun j => i.identityKey != j.identityKey) = true) <| by
    unfold Vault.Rekeys
    rcases v.loadIdentity name with _ | _ | i <;> rcases w.loadIdentity name with _ | _ | j <;>
      simp [Except.toOption]

theorem Vault.not_rekeys_self (v : Vault) (name : String) : ¬v.Rekeys v name := by
  rintro ⟨i, j, hi, hj, hkey⟩
  cases hi.symm.trans hj
  exact hkey rfl

theorem Vault.rekeys_apply {v : Vault} {b : Batch} {name : String} {i j : IdentityRecord}
    (hload : v.loadIdentity name = .ok (some i)) (hfiled : b.identities.get? name = some j)
    (hkey : i.identityKey ≠ j.identityKey) : v.Rekeys (v.apply b) name := by
  refine ⟨i, j, hload, ?_, hkey⟩
  rw [loadIdentity, identity?_apply, hfiled]
  rfl

/-- Whether a plan for a vault files only under the given names and writes records only under these,
and only at the given addresses where it does not change the key on file. -/
structure Plan.Within {α : Type} (plan : Plan α) (v : Vault) (names : Set String)
    (sites : Set Address) : Prop where
  sessions : ∀ a : Address, a.name ∉ names → plan.writes.staged? a = none
  identities : ∀ name ∉ names, plan.writes.identities.get? name = none
  sites : ∀ a ∉ sites, plan.writes.staged? a = none ∨ v.Rekeys (v.apply plan.writes) a.name

namespace Plan

variable {α β : Type} {plan : Plan α} {v : Vault} {names : Set String} {sites : Set Address}

theorem Within.map (h : plan.Within v names sites) (f : α → β) :
    (plan.map f).Within v names sites :=
  ⟨h.sessions, h.identities, h.sites⟩

theorem within_reply (answer : α) : (Plan.reply answer).Within v names sites :=
  ⟨fun _ _ => rfl, fun _ _ => rfl, fun _ _ => .inl rfl⟩

/-- A plan that files no key. -/
theorem within_of_sessions (hidentities : plan.writes.identities = .empty)
    (hstaged : ∀ a ∉ sites, plan.writes.staged? a = none) (hsites : ∀ a ∈ sites, a.name ∈ names) :
    plan.Within v names sites where
  sessions a ha := hstaged a fun hmem => ha (hsites a hmem)
  identities name _ := by
    rw [hidentities]
    rfl
  sites a ha := .inl (hstaged a ha)

theorem name_of_mem_site {a : Address} :
    ∀ c ∈ ({a} : Set Address), c.name ∈ ({a.name} : Set String) := by
  rintro c rfl
  exact Set.mem_singleton c.name

/-- A plan that files no key and writes one record. -/
theorem within_of_site {a : Address} (hidentities : plan.writes.identities = .empty)
    (hstaged : ∀ c ≠ a, plan.writes.staged? c = none) : plan.Within v {a.name} {a} :=
  within_of_sessions hidentities hstaged name_of_mem_site

theorem within_store (a : Address) (r : SessionRecord) : (Vault.store a r).Within v {a.name} {a} :=
  within_of_site rfl fun _ hc => (Batch.staged?_put ..).trans (if_neg hc)

theorem within_delete (a : Address) : (Vault.delete a).Within v {a.name} {a} :=
  within_of_site rfl fun _ hc => (Batch.staged?_delete ..).trans (if_neg hc)

theorem within_deleteAll (name : String) :
    (v.deleteAll name).Within v {name} {b | b.name = name} := by
  refine within_of_sessions (Batch.identities_deletes ..) (fun c hc => ?_) fun _ hc => hc
  exact (Batch.staged?_deletes ..).trans
    (if_neg fun hmem => hc (Vault.name_of_mem_addressesOf hmem))

theorem within_archiveAt {l : List Address} {plan : Plan Nat} (h : v.archiveAt l = .ok plan)
    (hsites : ∀ a ∈ sites, a.name ∈ names) (hl : ∀ a ∈ l, a ∈ sites) :
    plan.Within v names sites := by
  obtain ⟨⟨b, n⟩, hstage, h⟩ := bind_eq_ok.mp h
  cases h
  refine within_of_sessions (Vault.identities_of_foldlM hstage) (fun c hc => ?_) hsites
  exact Vault.staged?_of_foldlM (fun hmem => hc (hl c hmem)) hstage

theorem within_setVerification (t : Trust) (now : UInt64) (name : String) (r : IdentityRecord)
    (verification : Verification) (origin : NoticeOrigin) :
    (t.setVerification now name r verification origin).Within v {name} ∅ := by
  unfold Trust.setVerification
  split
  · exact within_reply _
  · refine ⟨fun _ _ => rfl, fun n hn => ?_, fun _ _ => .inl rfl⟩
    exact SortedMap.get?_insert_of_ne _ hn _

/-- A key that is filed on top of writes to one record is within the bounds of its peer. -/
theorem within_of_stageSave {t : Trust} {now : UInt64} {a : Address} {key : PublicKey}
    {b b' : Batch} {u : IdentityUpdate} (hb : b.identities = .empty)
    (hstaged : ∀ c ∉ sites, b.staged? c = none) (hsites : ∀ c ∈ sites, c.name = a.name)
    (h : t.stageSave v now a key b = .ok (b', u)) : (Plan.mk b' u).Within v {a.name} sites := by
  have hother (c : Address) (hc : c.name ≠ a.name) : b'.staged? c = none :=
    (Vault.staged?_of_stageSave hc h).trans (hstaged c fun hmem => hc (hsites c hmem))
  refine ⟨hother, fun name hname => ?_, fun c hc => ?_⟩
  · rw [Vault.identities_of_stageSave hname h, hb]
    rfl
  · rcases Vault.sessions_of_stageSave h with hsame | ⟨i, j, hload, hfiled, hkey⟩
    · rw [Batch.staged?, hsame]
      exact .inl (hstaged c hc)
    · by_cases hname : c.name = a.name
      · rw [hname]
        exact .inr (Vault.rekeys_apply hload hfiled hkey)
      · exact .inl (hother c hname)

theorem within_of_install {p : Party} {now : UInt64} {a : Address} {r : SessionRecord}
    {s : SessionState} {plan : Plan IdentityUpdate} (h : p.install v now a r s = .ok plan) :
    plan.Within v {a.name} {a} := by
  obtain ⟨⟨b, u⟩, hsave, h⟩ := bind_eq_ok.mp h
  cases h
  have hwithin : (Plan.mk b u).Within v {a.name} {a} :=
    within_of_stageSave rfl (fun c hc => (Batch.empty.staged?_put a c r).trans (if_neg hc))
      name_of_mem_site hsave
  refine ⟨fun c hc => ?_, hwithin.identities, fun c hc => ?_⟩
  · have hne : c ≠ a := fun heq => hc (name_of_mem_site c heq)
    exact (Batch.staged?_put ..).trans ((if_neg hne).trans (hwithin.sessions c hc))
  · rcases hwithin.sites c hc with hnone | ⟨i, j, hload, hfiled, hkey⟩
    · exact .inl ((Batch.staged?_put ..).trans ((if_neg hc).trans hnone))
    · refine .inr ⟨i, j, hload, ?_, hkey⟩
      rw [← hfiled, Vault.loadIdentity, Vault.loadIdentity, Vault.identity?_apply,
        Vault.identity?_apply]
      rfl

theorem within_of_plans {p : Party} {a : Address} {base : SessionRecord → SessionRecord}
    {consumed : Option UInt32} {plan : Plan Step} (h : p.Plans v a base consumed plan) :
    plan.Within v {a.name} {a} := by
  cases h with
  | dropped => exact within_reply _
  | opened => exact (within_store a _).map _
  | installed _ _ hplan => exact (within_of_install hplan).map _

end Plan

/-! ### Carrying out plans -/

namespace Storage

variable {α : Type} {names : Set String}

theorem vault_commit_of_ne (s : Storage) {account other : String} (hother : other ≠ account)
    (b : Batch) : (s.commit account b).2.vault other = s.vault other := by
  unfold commit
  split
  · rfl
  · exact vault_setVault_of_ne _ hother _

/-- Only the content of the account changes. -/
theorem vault_carryOut_of_ne (s : Storage) {account other : String} (hother : other ≠ account)
    (plan : Except SessionError (Plan α)) :
    (s.carryOut account plan).2.vault other = s.vault other := by
  have hcarry := s.carriesOut account plan
  rcases hout : s.carryOut account plan with ⟨result, s'⟩
  rw [hout] at hcarry
  cases hcarry with
  | refused | idle | struck => rfl
  | @done planned _ hwrites hcommit =>
    have hvault := s.vault_commit_of_ne hother planned.writes
    rw [hcommit] at hvault
    exact hvault

/-- The content of the account stays as it is, or the plan is applied to it. -/
theorem vault_carryOut (s : Storage) (account : String) (plan : Except SessionError (Plan α)) :
    (s.carryOut account plan).2.vault account = s.vault account ∨ ∃ planned, plan = .ok planned ∧
      (s.carryOut account plan).2.vault account = (s.vault account).apply planned.writes := by
  have hcarry := s.carriesOut account plan
  rcases hout : s.carryOut account plan with ⟨result, s'⟩
  rw [hout] at hcarry
  cases hcarry with
  | refused | idle | struck => exact .inl rfl
  | @done planned _ hwrites hcommit => exact .inr ⟨planned, rfl, (commit_eq_ok hcommit).2⟩

/-- What comes of a plan depends on the faults to come, and on nothing stored. -/
theorem carryOut_congr {s s' : Storage} {account : String} (plan : Except SessionError (Plan α))
    (hfaults : s.faults = s'.faults) (h : (s.vault account).Agrees names (s'.vault account)) :
    (s.carryOut account plan).1 = (s'.carryOut account plan).1 ∧
      (s.carryOut account plan).2.faults = (s'.carryOut account plan).2.faults ∧
      ((s.carryOut account plan).2.vault account).Agrees names
        ((s'.carryOut account plan).2.vault account) := by
  cases plan with
  | error e => exact ⟨rfl, hfaults, h⟩
  | ok plan =>
    unfold carryOut commit
    dsimp only
    rw [hfaults]
    split
    · exact ⟨rfl, hfaults, h⟩
    · rcases s'.faults.strike with ⟨_ | _, faults⟩
      · refine ⟨rfl, rfl, ?_⟩
        rw [vault_setVault_self, vault_setVault_self]
        exact h.apply plan.writes
      · exact ⟨rfl, rfl, h⟩

end Storage

end SecureSession
