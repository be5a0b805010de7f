import SecureSession.Proofs.Account.Requests
import SecureSession.Proofs.Storage.Bounds

/-! # Isolation of accounts and peers

An operation under an account reads and writes what the account has stored under the names that the
operation is about. All content of other accounts and all entries under other names stay as they
are, byte for byte, and make no difference to what comes of the operation. Of the records under
those names only the ones at the addresses it is about are written, unless it changes the key on
file for their peer. -/

namespace SecureSession

/-! ### Operations -/

/-- What can be asked of an account. -/
inductive Query
  | load (a : Address)
  | loadExisting (l : List Address)
  /-- The record at an address as a batch would leave it. -/
  | loadStaged (b : Batch) (a : Address)
  | containsSession (a : Address)
  | subDevices (name : String)
  | activeAddresses (l : List String)
  | handshakeState (a : Address)
  | identity (name : String)
  /-- Whether a key may be used for a session with an address. -/
  | validate (a : Address) (key : PublicKey)

/-- What a query that succeeds is answered. -/
inductive Query.Answer
  | record (r : SessionRecord)
  | records (l : List SessionRecord)
  | flag (b : Bool)
  | devices (l : List UInt32)
  | addresses (l : List Address)
  | state (s : HandshakeState)
  | identity (r : Option IdentityRecord)
deriving DecidableEq

/-- Any operation under an account. -/
inductive Access
  | query (q : Query)
  | request (q : Request)
  /-- To apply a batch. -/
  | commit (b : Batch)

/-- Answers a query about what is stored. -/
def Query.answer (t : Trust) (v : Vault) : Query → Except SessionError Answer
  | load a => (v.load a).map .record
  | loadExisting l => (v.loadExisting l).map .records
  | loadStaged b a => (v.loadStaged b a).map .record
  | containsSession a => (v.containsSession a).map .flag
  | subDevices name => .ok (.devices (v.subDevices name))
  | activeAddresses l => (v.activeAddresses l).map .addresses
  | handshakeState a => (v.handshakeState a).map .state
  | identity name => (v.loadIdentity name).map .identity
  | validate a key => (t.validate v a key).map .flag

namespace Account

/-- Carries out an operation. -/
def access (suite : Suite) (A : Account) :
    Access → Except SessionError (Query.Answer ⊕ Reply) × Account
  | .query q => ((q.answer A.party.trust A.vault).map .inl, A)
  | .request q => ((A.serve suite q).1.map .inr, (A.serve suite q).2)
  | .commit b =>
    let r := A.edit .done fun _ => .ok ⟨b, ()⟩
    (r.1.map .inr, r.2)

end Account

/-! ### What an operation is about -/

/-- The names of the peers that a query is about. -/
def Query.peers : Query → Set String
  | load a | loadStaged _ a | containsSession a | handshakeState a | validate a _ => {a.name}
  | subDevices name | identity name => {name}
  | loadExisting l => {name | ∃ a ∈ l, a.name = name}
  | activeAddresses l => {name | name ∈ l}

namespace Request

/-- The names of the peers that a request is about. -/
def peers : Request → Set String
  | receive a .. | useBundle a .. | initiate a .. | save a _ | store a _ | delete a | archive a
  | archiveSiblings a => {a.name}
  | mark name .. | reconcile name .. | deleteAll name => {name}
  | archiveAll => Set.univ
  | publish .. => ∅

/-- The addresses at which a request writes records, whatever keys are on file. -/
def sites : Request → Set Address
  | receive a .. | useBundle a .. | initiate a .. | store a _ | delete a | archive a => {a}
  | deleteAll name => {b | b.name = name}
  | archiveSiblings a => {b | b.name = a.name ∧ b ≠ a}
  | archiveAll => Set.univ
  | save .. | mark .. | reconcile .. | publish .. => ∅

end Request

namespace Access

/-- The names of the peers that an operation is about. -/
def peers : Access → Set String
  | query q => q.peers
  | request q => q.peers
  | commit b => {name | (∃ a, a.name = name ∧ b.staged? a ≠ none) ∨ b.identities.get? name ≠ none}

/-- The addresses at which an operation writes records, whatever keys are on file. -/
def sites : Access → Set Address
  | query _ => ∅
  | request q => q.sites
  | commit b => {a | b.staged? a ≠ none}

end Access

/-! ### Keeping to the bounds -/

namespace Account

/-- Whether two accounts are of the same party, have the same faults to come, and hold the same
under some names. -/
structure Resembles (names : Set String) (B A : Account) : Prop where
  party : B.party = A.party
  faults : B.storage.faults = A.storage.faults
  vault : B.vault.Agrees names A.vault

/-- Whether an operation is about the given names and addresses only. -/
structure Confined {β : Type} (names : Set String) (sites : Set Address)
    (f : Account → β × Account) : Prop where
  account : ∀ A, (f A).2.party.account = A.party.account
  /-- The content of other accounts stays. -/
  accounts : ∀ A account, account ≠ A.party.account →
    (f A).2.storage.vault account = A.storage.vault account
  /-- Entries under other names stay. -/
  entries : ∀ A, (f A).2.vault.Agrees namesᶜ A.vault
  /-- Records at other addresses stay, or the key on file changes. -/
  records : ∀ A, ∀ a ∉ sites, (f A).2.vault.sessions.get? a = A.vault.sessions.get? a ∨
    A.vault.Rekeys (f A).2.vault a.name
  /-- Nothing else that is stored makes a difference. -/
  blind : ∀ {N : Set String} {A B}, names ⊆ N → B.Resembles N A →
    (f B).1 = (f A).1 ∧ (f B).2.Resembles N (f A).2

variable {α β γ : Type} {names : Set String} {sites : Set Address}

theorem Confined.map {f : Account → β × Account} (h : Confined names sites f) (g : β → γ) :
    Confined names sites fun A => (g (f A).1, (f A).2) where
  account := h.account
  accounts := h.accounts
  entries := h.entries
  records := h.records
  blind hnames hB := ⟨congrArg g (h.blind hnames hB).1, (h.blind hnames hB).2⟩

/-- One operation after another, where nothing is said of addresses. -/
theorem Confined.append {sites' : Set Address} {f : Account → β × Account}
    {g : Account → γ × Account} {names' N : Set String} (hf : Confined names sites f)
    (hg : Confined names' sites' g) (hnames : names ⊆ N) (hnames' : names' ⊆ N) :
    Confined N Set.univ fun A => (((f A).1, (g (f A).2).1), (g (f A).2).2) where
  account A := (hg.account _).trans (hf.account A)
  accounts A account hne :=
    (hg.accounts (f A).2 account (hf.account A ▸ hne)).trans (hf.accounts A account hne)
  entries A := Vault.Agrees.trans
    ((hg.entries (f A).2).mono (Set.compl_subset_compl.mpr hnames'))
    ((hf.entries A).mono (Set.compl_subset_compl.mpr hnames))
  records A a ha := absurd trivial ha
  blind {M A B} hsub hB := by
    obtain ⟨hfirst, hbetween⟩ := hf.blind (hnames.trans hsub) hB
    obtain ⟨hsecond, hafter⟩ := hg.blind (hnames'.trans hsub) hbetween
    exact ⟨by rw [hfirst, hsecond], hafter⟩

/-- Carries out the plan that a party makes of what is stored, and lets it come to an end. -/
def conduct (prepare : Party → Vault → Except SessionError (Plan α) × Environment)
    (finish : Party → Except SessionError α → β × Party) (A : Account) : β × Account :=
  let prepared := prepare A.party A.vault
  let out := A.storage.carryOut A.party.account prepared.1
  let ended := finish { A.party with environment := prepared.2 } out.1
  (ended.1, ⟨ended.2, out.2⟩)

section Conduct
variable {prepare : Party → Vault → Except SessionError (Plan α) × Environment}
  {finish : Party → Except SessionError α → β × Party}
  (hfinish : ∀ p r, (finish p r).2.account = p.account)
include hfinish

theorem vault_conduct (A : Account) : (A.conduct prepare finish).2.vault =
    (A.storage.carryOut A.party.account (prepare A.party A.vault).1).2.vault A.party.account :=
  congrArg _ (hfinish _ _)

/-- A plan is conducted within the bounds of what it reads and writes. -/
theorem confined_conduct
    (hwithin : ∀ p v plan, (prepare p v).1 = .ok plan → plan.Within v names sites)
    (hblind : ∀ p v w, v.Agrees names w → prepare p v = prepare p w) :
    Confined names sites (conduct prepare finish) := by
  -- what is stored afterwards is as before, or has a plan within the bounds applied to it
  have hvault (A : Account) : (A.conduct prepare finish).2.vault = A.vault ∨
      ∃ plan : Plan α, plan.Within A.vault names sites ∧
        (A.conduct prepare finish).2.vault = A.vault.apply plan.writes := by
    rw [vault_conduct hfinish]
    rcases A.storage.vault_carryOut A.party.account (prepare A.party A.vault).1 with
      hsame | ⟨plan, hplan, happly⟩
    · exact .inl hsame
    · exact .inr ⟨plan, hwithin _ _ plan hplan, happly⟩
  constructor
  · exact fun A => hfinish _ _
  · intro A account hne
    exact A.storage.vault_carryOut_of_ne hne _
  · intro A
    rcases hvault A with hsame | ⟨plan, hplan, happly⟩
    · rw [hsame]
      exact .refl A.vault
    · rw [happly]
      refine ⟨fun a ha => ?_, fun name hname => ?_⟩
      · rw [Vault.get?_sessions_apply, hplan.sessions a ha]
        rfl
      · rw [Vault.get?_identities_apply, hplan.identities name hname]
        rfl
  · intro A a ha
    rcases hvault A with hsame | ⟨plan, hplan, happly⟩
    · rw [hsame]
      exact .inl rfl
    · rw [happly]
      refine (hplan.sites a ha).imp_left fun hnone => ?_
      rw [Vault.get?_sessions_apply, hnone]
      rfl
  · intro N A B hnames hB
    obtain ⟨p, s⟩ := A
    obtain ⟨p', s'⟩ := B
    obtain rfl : p' = p := hB.party
    have hsame : prepare p' (vault ⟨p', s'⟩) = prepare p' (vault ⟨p', s⟩) :=
      hblind _ _ _ (hB.vault.mono hnames)
    obtain ⟨hresult, hfaults, hagrees⟩ := Storage.carryOut_congr
      (prepare p' (vault ⟨p', s⟩)).1 hB.faults hB.vault
    refine ⟨?_, ?_, ?_, ?_⟩
    · simp only [conduct, hsame, hresult]
    · simp only [conduct, hsame, hresult]
    · simp only [conduct, hsame, hfaults]
    · rw [vault_conduct hfinish, vault_conduct hfinish, hsame]
      exact hagrees

end Conduct

theorem step_eq_conduct (plan : Party → Vault → Draw (Plan Step)) (A : Account) :
    (A.step fun s => A.party.perform s (plan A.party)) =
      A.conduct (fun p v => (plan p v).perform p.environment) fun p r =>
        (r.map (.outcome ·.outcome), r.toOption.elim p fun step => p.consume step.consumed) := by
  unfold step Party.perform conduct vault
  dsimp only
  split <;> rename_i hout <;> rw [hout] <;> rfl

/-- A step of a handshake with an address. -/
theorem confined_step {a : Address} (plan : Party → Vault → Draw (Plan Step))
    (hplans : ∀ p v planned e, (plan p v).perform p.environment = (.ok planned, e) →
      ∃ base consumed, p.Plans v a base consumed planned)
    (hblind : ∀ p v w, v.Agrees {a.name} w → plan p v = plan p w) :
    Confined {a.name} {a} fun A => A.step fun s => A.party.perform s (plan A.party) := by
  simp only [step_eq_conduct]
  refine confined_conduct (fun p r => ?_) (fun p v planned h => ?_) fun p v w h => ?_
  · rcases r with e | ⟨o, _ | id⟩ <;> rfl
  · obtain ⟨base, consumed, hplan⟩ := hplans p v planned _ (Prod.ext h rfl)
    exact Plan.within_of_plans hplan
  · rw [hblind p v w h]

theorem edit_eq_conduct (reply : α → Reply) (plan : Party → Vault → Except SessionError (Plan α))
    (A : Account) : A.edit reply (plan A.party) =
      A.conduct (fun p v => (plan p v, p.environment)) fun p r => (r.map reply, p) := rfl

/-- A plan that nothing is drawn for. -/
theorem confined_edit {reply : α → Reply} (plan : Party → Vault → Except SessionError (Plan α))
    (hwithin : ∀ p v planned, plan p v = .ok planned → planned.Within v names sites)
    (hblind : ∀ p v w, v.Agrees names w → plan p v = plan p w) :
    Confined names sites fun A => A.edit reply (plan A.party) := by
  simp only [edit_eq_conduct]
  refine confined_conduct (fun _ _ => rfl) hwithin fun p v w h => ?_
  rw [hblind p v w h]

end Account

/-! ### Any operation -/

theorem Query.answer_congr {t : Trust} {q : Query} {v w : Vault} (h : v.Agrees q.peers w) :
    q.answer t v = q.answer t w := by
  cases q with
  | load a => simp only [answer, h.load (Set.mem_singleton _)]
  | loadExisting l => simp only [answer, h.loadExisting fun a ha => ⟨a, ha, rfl⟩]
  | loadStaged b a => simp only [answer, h.loadStaged (Set.mem_singleton _)]
  | containsSession a => simp only [answer, h.containsSession (Set.mem_singleton _)]
  | subDevices name => simp only [answer, Vault.subDevices, h.devices (Set.mem_singleton _)]
  | activeAddresses l => simp only [answer, h.activeAddresses fun _ hname => hname]
  | handshakeState a => simp only [answer, h.handshakeState (Set.mem_singleton _)]
  | identity name => simp only [answer, h.loadIdentity (Set.mem_singleton _)]
  | validate a key => simp only [answer, h.validate (Set.mem_singleton _)]

namespace Account

theorem confined_query (q : Query) :
    Confined q.peers ∅ fun A => (q.answer A.party.trust A.vault, A) where
  account _ := rfl
  accounts _ _ _ := rfl
  entries A := .refl A.vault
  records _ _ _ := .inl rfl
  blind {N A B} hnames hB := by
    refine ⟨?_, hB⟩
    dsimp only
    rw [hB.party, Query.answer_congr (hB.vault.mono hnames)]

theorem confined_publish (suite : Suite) (device prekeyId : UInt32) :
    Confined ∅ ∅ fun A => A.serve suite (.publish device prekeyId) where
  account _ := rfl
  accounts _ _ _ := rfl
  entries A := .refl A.vault
  records _ _ _ := .inl rfl
  blind {N A B} hnames hB := by
    obtain ⟨p, s⟩ := A
    obtain ⟨p', s'⟩ := B
    obtain rfl : p' = p := hB.party
    exact ⟨rfl, rfl, hB.faults, hB.vault⟩

theorem confined_serve (suite : Suite) (q : Request) :
    Confined q.peers q.sites fun A => A.serve suite q := by
  cases q with
  | receive a thread m =>
    exact confined_step (fun p => p.planReceive suite a thread m)
      (fun _ _ _ _ h => ⟨_, _, (Party.settles_planReceive h).plans⟩)
      fun _ _ _ h => h.planReceive suite thread (Set.mem_singleton _) m
  | useBundle a thread b =>
    refine confined_step (fun p => p.planFromBundle suite a thread b) (fun p v planned e h => ?_)
      fun _ _ _ h => h.planFromBundle suite thread (Set.mem_singleton _) b
    obtain ⟨r, ratchet, plan, hload, htrust, -, hplan, rfl⟩ := Party.planFromBundle_eq_ok h
    exact ⟨id, none, .installed hload htrust hplan⟩
  | initiate a thread =>
    refine confined_step (fun p => p.planInitiate suite a thread) (fun p v planned e h => ?_)
      fun _ _ _ h => h.planInitiate suite thread (Set.mem_singleton _)
    obtain ⟨r, actions, hload, rfl⟩ := Party.planInitiate_eq_ok h
    exact ⟨id, none, .opened hload⟩
  | publish device prekeyId => exact confined_publish suite device prekeyId
  | save a key =>
    refine confined_edit (fun p => p.trust.save p.environment.now a key) (fun p v planned h => ?_)
      fun _ _ _ h => h.save (Set.mem_singleton _) _ key
    exact Plan.within_of_stageSave rfl (fun _ _ => rfl) (fun _ hc => hc.elim) (stageSave_of_save h)
  | mark name verification origin =>
    refine confined_edit (fun p => p.trust.mark p.environment.now name verification origin)
      (fun p v planned h => ?_) fun _ _ _ h => h.mark (Set.mem_singleton _) _ verification origin
    obtain ⟨_ | r, -, h⟩ := bind_eq_ok.mp h
    · cases h
      exact Plan.within_reply _
    · cases h
      exact Plan.within_setVerification ..
  | reconcile name key verification =>
    refine confined_edit (fun p => p.trust.reconcile p.environment.now name key verification)
      (fun p v planned h => ?_) fun _ _ _ h => h.reconcile (Set.mem_singleton _) _ key verification
    obtain ⟨_ | r, -, h⟩ := bind_eq_ok.mp h
    · cases h
      exact Plan.within_reply _
    · dsimp only at h
      split at h <;> cases h
      · exact Plan.within_setVerification ..
      · exact Plan.within_reply _
  | store a r =>
    refine confined_edit (fun _ _ => .ok (Vault.store a r)) (fun p v planned h => ?_)
      fun _ _ _ _ => rfl
    cases h
    exact Plan.within_store a r
  | delete a =>
    refine confined_edit (fun _ _ => .ok (Vault.delete a)) (fun p v planned h => ?_)
      fun _ _ _ _ => rfl
    cases h
    exact Plan.within_delete a
  | deleteAll name =>
    refine confined_edit (fun _ v => .ok (v.deleteAll name))
      (fun p v planned h => ?_) fun p v w h => ?_
    · cases h
      exact Plan.within_deleteAll name
    · rw [Vault.deleteAll, Vault.deleteAll, h.addressesOf (Set.mem_singleton _),
        h.devices (Set.mem_singleton _)]
  | archive a =>
    refine confined_edit (fun _ v => v.archive a) (fun p v planned h => ?_)
      fun _ _ _ h => h.archive (Set.mem_singleton _)
    obtain ⟨plan, hplan, h⟩ := bind_eq_ok.mp h
    cases h
    exact (Plan.within_archiveAt hplan Plan.name_of_mem_site
      fun c hc => List.mem_singleton.mp hc).map _
  | archiveSiblings a =>
    refine confined_edit (fun _ v => v.archiveSiblings a) (fun p v planned h => ?_)
      fun _ _ _ h => h.archiveSiblings (Set.mem_singleton _)
    refine Plan.within_archiveAt h (fun c hc => hc.1) fun c hc => ?_
    obtain ⟨hlisted, hne⟩ := List.mem_filter.mp hc
    exact ⟨Vault.name_of_mem_addressesOf hlisted, by simpa using hne⟩
  | archiveAll =>
    refine confined_edit (fun _ v => v.archiveAll) (fun p v planned h => ?_) fun p v w h => ?_
    · exact Plan.within_archiveAt h (fun _ _ => trivial) fun _ _ => trivial
    · rw [h.eq]

theorem confined_commit (b : Batch) : Confined (Access.commit b).peers (Access.commit b).sites
    fun A => A.edit .done fun _ => .ok ⟨b, ()⟩ := by
  refine confined_edit (fun _ _ => .ok ⟨b, ()⟩) (fun p v planned h => ?_) fun _ _ _ _ => rfl
  cases h
  refine ⟨fun a ha => ?_, fun name hname => ?_, fun a ha => .inl (not_not.mp ha)⟩
  · exact not_not.mp fun hstaged => ha (.inl ⟨a, rfl, hstaged⟩)
  · exact not_not.mp fun hfiled => hname (.inr hfiled)

theorem confined_access (suite : Suite) :
    ∀ q : Access, Confined q.peers q.sites fun A => A.access suite q
  | .query q => (confined_query q).map _
  | .request q => (confined_serve suite q).map _
  | .commit b => (confined_commit b).map _

/-! ### Runs -/

/-- Carries out operations one after the other, and collects what comes of them. -/
def accesses (suite : Suite) :
    Account → List Access → List (Except SessionError (Query.Answer ⊕ Reply)) × Account
  | A, [] => ([], A)
  | A, q :: l =>
    let (result, A) := A.access suite q
    let (results, A) := A.accesses suite l
    (result :: results, A)

/-- What holds of one operation holds of a run of them, with all the names that its operations are
about: no other entry is touched or makes a difference. -/
theorem confined_accesses (suite : Suite) (N : Set String) :
    ∀ l : List Access, (∀ q ∈ l, q.peers ⊆ N) → Confined N Set.univ fun A => A.accesses suite l
  | [], _ => ⟨fun _ => rfl, fun _ _ _ => rfl, fun A => .refl A.vault, fun _ _ _ => .inl rfl,
      fun _ hB => ⟨rfl, hB⟩⟩
  | q :: l, hl =>
    have hrest := confined_accesses suite N l fun q' hq' => hl q' (List.mem_cons_of_mem _ hq')
    ((confined_access suite q).append hrest (hl q List.mem_cons_self) subset_rfl).map
      fun r => r.1 :: r.2

/-! ### The result -/

/-- An operation under an account leaves the content of every other account as it is, byte for byte,
and of the account's own all entries under names it is not about. It also leaves the records at
other addresses than those it is about, unless it changes the key on file for their peer. What comes
of it is the same for every storage that holds the same under the names it is about, whatever other
accounts have stored and whatever is stored under other names; and it leaves the same there. -/
theorem access_isolated (suite : Suite) (A : Account) (q : Access) :
    (∀ account ≠ A.party.account,
      (A.access suite q).2.storage.vault account = A.storage.vault account) ∧
    (∀ a : Address, a.name ∉ q.peers →
      (A.access suite q).2.vault.sessions.get? a = A.vault.sessions.get? a) ∧
    (∀ name ∉ q.peers,
      (A.access suite q).2.vault.identities.get? name = A.vault.identities.get? name) ∧
    (∀ a ∉ q.sites, (A.access suite q).2.vault.sessions.get? a = A.vault.sessions.get? a ∨
      A.vault.Rekeys (A.access suite q).2.vault a.name) ∧
    ∀ B : Account, B.Resembles q.peers A → (B.access suite q).1 = (A.access suite q).1 ∧
      (B.access suite q).2.Resembles q.peers (A.access suite q).2 := by
  have h := confined_access suite q
  exact ⟨h.accounts A, (h.entries A).sessions, (h.entries A).identities, h.records A,
    fun B hB => h.blind subset_rfl hB⟩

/-- A sample account in the company of another one, with bytes that are no record under a name that
starts like Bob's. -/
def beset : Account where
  party := (sample .rejectChanged sampleVault).party
  storage := ((Storage.empty .never).setVault "zoe" sampleVault).setVault "alice"
    (sampleVault.putRaw ⟨"bobby", 1⟩ [0xff])

theorem vault_beset : beset.vault = sampleVault.putRaw ⟨"bobby", 1⟩ [0xff] :=
  Storage.vault_setVault_self ..

theorem resembles_beset : beset.Resembles {"bob"} (sample .rejectChanged sampleVault) where
  party := rfl
  faults := rfl
  vault := by
    rw [vault_beset, vault_sample]
    exact Vault.agrees_putRaw (by decide) sampleVault [0xff]

/-- A first message of Bob's. -/
def greeting : Access := .request (.receive ⟨"bob", 1⟩ 7 (sampleMessage 2))

/-- Bob's first message is answered alike with and without this company, and touches neither the
other account, nor the other name, nor Bob's second device. -/
theorem access_isolated_greeting :
    ((sample .rejectChanged sampleVault).access .plain greeting).1 =
        .ok (.inr (.outcome ⟨.established, [.securityUpdate 7]⟩)) ∧
      (beset.access .plain greeting).1 =
      ((sample .rejectChanged sampleVault).access .plain greeting).1 ∧
      (beset.access .plain greeting).2.storage.vault "zoe" = sampleVault ∧
      (beset.access .plain greeting).2.vault.sessions.get? ⟨"bobby", 1⟩ = some [0xff] ∧
      (beset.access .plain greeting).2.vault.sessions.get? ⟨"bob", 2⟩ =
        beset.vault.sessions.get? ⟨"bob", 2⟩ := by
  obtain ⟨haccounts, hsessions, -, hrecords, -⟩ := access_isolated .plain beset greeting
  obtain ⟨-, -, -, -, hblind⟩ := access_isolated .plain (sample .rejectChanged sampleVault) greeting
  refine ⟨by decide +kernel, (hblind beset resembles_beset).1, ?_, ?_, ?_⟩
  · have hother : "zoe" ≠ beset.party.account := by decide
    rw [haccounts "zoe" hother]
    exact (Storage.vault_setVault_of_ne _ hother _).trans (Storage.vault_setVault_self ..)
  · have hname : "bobby" ∉ greeting.peers :=
      fun h => absurd (Set.mem_singleton_iff.mp h) (by decide)
    rw [hsessions ⟨"bobby", 1⟩ hname, vault_beset]
    exact SortedMap.get?_insert_self ..
  · have hsite : (⟨"bob", 2⟩ : Address) ∉ greeting.sites := fun h =>
      absurd (Set.mem_singleton_iff.mp h) (by decide)
    refine (hrecords ⟨"bob", 2⟩ hsite).resolve_right ?_
    -- the key on file is Bob's, as it was
    rintro ⟨i, j, hbefore, hafter, hkey⟩
    have hfiled : beset.vault.loadIdentity "bob" =
        .ok (some (Trust.firstRecord 0 ⟨.replicate 2⟩)) := by
      decide +kernel
    have hkept : (beset.access .plain greeting).2.vault.loadIdentity "bob" =
        .ok (some (Trust.firstRecord 0 ⟨.replicate 2⟩)) := by decide +kernel
    rw [hbefore] at hfiled
    rw [hafter] at hkept
    cases hfiled
    cases hkept
    exact hkey rfl

end Account

end SecureSession
