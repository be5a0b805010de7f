import SecureSession.Proofs.Handshake.Shapes
import SecureSession.Proofs.Storage.Commits
import SecureSession.Simulation.Sample

/-! # Requests of an account

An account takes messages in, uses bundles and opens exchanges; its user files and confirms
identities, and stores, deletes and archives sessions. `Account.Comes` says once what any of these
requests can do: it fails and writes nothing, it has nothing to write, or it commits one batch, of a
shape that `Request.Writes` lists. Nothing is assumed of what is stored or of when commits fail. -/

namespace SecureSession

/-! ### Requests -/

/-- What an account can be asked for. -/
inductive Request
  /-- To take in a message from an address. -/
  | receive (a : Address) (thread : UInt64) (m : HandshakeMessage)
  /-- To build a session from a published bundle. -/
  | useBundle (a : Address) (thread : UInt64) (b : PreKeyBundle)
  /-- To open an exchange. -/
  | initiate (a : Address) (thread : UInt64)
  /-- To publish a new prekey of a device. -/
  | publish (device prekeyId : UInt32)
  /-- To file the key of the peer at an address. -/
  | save (a : Address) (key : PublicKey)
  /-- To give a peer's key another confirmation. -/
  | mark (name : String) (verification : Verification) (origin : NoticeOrigin)
  /-- To apply the confirmation that another device claims for a key. -/
  | reconcile (name : String) (key : PublicKey) (verification : Verification)
  | store (a : Address) (r : SessionRecord)
  | delete (a : Address)
  | deleteAll (name : String)
  | archive (a : Address)
  | archiveSiblings (a : Address)
  | archiveAll

/-- What a request that succeeds is answered. -/
inductive Reply
  | outcome (o : HandshakeOutcome)
  | published (b : PreKeyBundle)
  | update (u : IdentityUpdate)
  | done (u : Unit)
  /-- Whether there was a session to archive. -/
  | archived (b : Bool)
  /-- How many records were deleted or archived. -/
  | counted (n : Nat)
deriving DecidableEq

namespace Request

/-- The address at which a request can make a session. -/
def site? : Request → Option Address
  | receive a .. | useBundle a .. | initiate a .. => some a
  | _ => none

/-- The record that a session made by a request goes on top of. -/
def base : Request → SessionRecord → SessionRecord
  | receive _ _ m => m.base
  | _ => id

/-- The prekey that a session made by a request uses up. -/
def usedBy (p : Party) : Request → Option UInt32
  | receive _ _ m => p.usedBy m
  | _ => none

theorem isBounded_base (q : Request) {r : SessionRecord} (hr : r.IsBounded) :
    (q.base r).IsBounded := by
  cases q with
  | receive a thread m =>
    cases m with
    | initiate | response =>
      have hclear : r.clearPending.IsBounded := hr
      exact hclear.purgeLegacy
    | bundle | legacy => exact hr
  | _ => exact hr

/-- Whether a record that a request gives to be stored is within bounds. -/
def StoresBounded (q : Request) : Prop := ∀ a r, q = store a r → r.IsBounded

@[simp] theorem current_base (q : Request) (r : SessionRecord) :
    (q.base r).current = r.current := by
  cases q with
  | receive a thread m => cases m <;> rfl
  | _ => rfl

/-- Whether a request stores a record as it is given. -/
def isStore : Request → Bool
  | store .. => true
  | _ => false

end Request

/-! ### Accounts -/

/-- A party to handshakes with the storage it stores in. -/
structure Account where
  party : Party
  storage : Storage

namespace Account

/-- What an account has stored. -/
def vault (A : Account) : Vault := A.storage.vault A.party.account

/-- What can be read of what an account has stored. -/
def contents (A : Account) : Contents := A.vault.contents

/-- Carries out a step of a handshake. -/
def step (A : Account) (f : Storage → Except SessionError HandshakeOutcome × Party × Storage) :
    Except SessionError Reply × Account :=
  let r := f A.storage
  (r.1.map .outcome, ⟨r.2.1, r.2.2⟩)

/-- Carries out a plan for what is stored. -/
def edit {α : Type} (A : Account) (reply : α → Reply)
    (plan : Vault → Except SessionError (Plan α)) : Except SessionError Reply × Account :=
  let r := A.storage.run A.party.account plan
  (r.1.map reply, { A with storage := r.2 })

/-- Serves a request. -/
def serve (suite : Suite) (A : Account) : Request → Except SessionError Reply × Account
  | .receive a thread m => A.step fun s => A.party.receive suite s a thread m
  | .useBundle a thread b => A.step fun s => A.party.useBundle suite s a thread b
  | .initiate a thread => A.step fun s => A.party.initiate suite s a thread
  | .publish device prekeyId =>
    let r := A.party.publish suite device prekeyId
    (.ok (.published r.1), { A with party := r.2 })
  | .save a key => A.edit .update (A.party.trust.save A.party.environment.now a key)
  | .mark name verification origin =>
    A.edit .update (A.party.trust.mark A.party.environment.now name verification origin)
  | .reconcile name key verification =>
    A.edit .update (A.party.trust.reconcile A.party.environment.now name key verification)
  | .store a r => A.edit .done fun _ => .ok (Vault.store a r)
  | .delete a => A.edit .done fun _ => .ok (Vault.delete a)
  | .deleteAll name => A.edit .counted fun v => .ok (v.deleteAll name)
  | .archive a => A.edit .archived (·.archive a)
  | .archiveSiblings a => A.edit .counted (·.archiveSiblings a)
  | .archiveAll => A.edit .counted Vault.archiveAll

end Account

/-! ### Runs -/

/-- A request with the time it is made at, the randomness it finds, and when commits then fail. -/
structure Turn where
  request : Request
  environment : Environment
  faults : Faults

namespace Account

/-- The account at a turn. -/
def facing (A : Account) (t : Turn) : Account where
  party := { A.party with environment := t.environment }
  storage := { A.storage with faults := t.faults }

variable (suite : Suite)

/-- Takes a turn. -/
def take (A : Account) (t : Turn) : Except SessionError Reply × Account :=
  (A.facing t).serve suite t.request

/-- The account after some turns. -/
def after (A : Account) (l : List Turn) : Account := l.foldl (fun A t => (A.take suite t).2) A

theorem after_cons (A : Account) (t : Turn) (l : List Turn) :
    A.after suite (t :: l) = (A.take suite t).2.after suite l := rfl

theorem after_append (A : Account) (l l' : List Turn) :
    A.after suite (l ++ l') = (A.after suite l).after suite l' := List.foldl_append

end Account

/-! ### What a request writes -/

/-- The batches that a party's requests can commit to a vault, each with the answer
and the prekey used up. -/
inductive Request.Writes (p : Party) (v : Vault) : Request → Batch → Reply → Option UInt32 → Prop
  /-- An exchange is opened. -/
  | opened {q : Request} {a : Address} {r : SessionRecord} {x : PendingExchange}
    {actions : List SessionAction} (hload : v.load a = .ok r) :
    Writes p v q (Batch.empty.put a (r.setPending x)) (.outcome ⟨.initiated, actions⟩) none
  /-- A session is installed. -/
  | installed {q : Request} {a : Address} {r : SessionRecord} {s : SessionState} {now : UInt64}
    {plan : Plan IdentityUpdate} {actions : List SessionAction} (hsite : q.site? = some a)
    (hload : v.load a = .ok r) (htrust : p.trust.require v a s.remoteIdentity = .ok ())
    (hplan : p.install v now a (q.base r) s = .ok plan) :
    Writes p v q plan.writes (.outcome ⟨.established, actions⟩) (q.usedBy p)
  /-- A key is filed. -/
  | saved {a : Address} {key : PublicKey} {now : UInt64} {b : Batch} {u : IdentityUpdate}
    (h : p.trust.stageSave v now a key .empty = .ok (b, u)) :
    Writes p v (.save a key) b (.update u) none
  /-- The key on file gets another confirmation. -/
  | confirmed {q : Request} {name : String} {r : IdentityRecord} {verification : Verification}
    {now : UInt64} {u : IdentityUpdate} (hload : v.loadIdentity name = .ok (some r)) :
    Writes p v q (Batch.empty.putIdentity name { r with verification, updatedAt := now })
      (.update u) none
  | stored {a : Address} {r : SessionRecord} :
    Writes p v (.store a r) (Batch.empty.put a r) (.done ()) none
  /-- Records are deleted. -/
  | deleted {q : Request} {reply : Reply} (l : List Address) (hreply : ∀ o, reply ≠ .outcome o) :
    Writes p v q (l.foldl Batch.delete .empty) reply none
  /-- Live sessions are archived. -/
  | archived {q : Request} {l : List Address} {b : Batch} {n : Nat} {reply : Reply}
    (h : l.foldlM v.stageArchive (.empty, 0) = .ok (b, n)) (hreply : ∀ o, reply ≠ .outcome o) :
    Writes p v q b reply none

/-- How an account comes out of a request. -/
inductive Account.Comes (A : Account) : Request → Except SessionError Reply → Account → Prop
  /-- What fails writes nothing and uses up nothing. -/
  | failed {q : Request} {e : SessionError} (environment : Environment) (faults : Faults) :
    Comes A q (.error e) ⟨{ A.party with environment }, { A.storage with faults }⟩
  /-- There is nothing to write. -/
  | idle {q : Request} {reply : Reply} (environment : Environment)
    (hreply : ∀ o, reply = .outcome o → o.status.isDropped = true ∧ o.actions = []) :
    Comes A q (.ok reply) ⟨{ A.party with environment }, A.storage⟩
  | committed {q : Request} {b : Batch} {reply : Reply} {consumed : Option UInt32} {s : Storage}
    (environment : Environment) (hwrites : q.Writes A.party A.vault b reply consumed)
    (hcommit : A.storage.commit A.party.account b = (.ok (), s)) :
    Comes A q (.ok reply) ⟨{ A.party with environment }.consume consumed, s⟩
  /-- A new key pair is held under the number of a prekey. -/
  | published {device prekeyId : UInt32} {b : PreKeyBundle} (pair : KeyPair)
    (environment : Environment) :
    Comes A (.publish device prekeyId) (.ok (.published b))
      ⟨{ A.party with environment, prekeys := A.party.prekeys.insert prekeyId pair }, A.storage⟩

namespace Account

variable {suite : Suite} {A : Account} {q : Request}

/-! ### What is left -/

theorem vault_of_commit {environment : Environment} {consumed : Option UInt32} {b : Batch}
    {s : Storage} (h : A.storage.commit A.party.account b = (.ok (), s)) :
    Account.vault ⟨{ A.party with environment }.consume consumed, s⟩ = A.vault.apply b := by
  cases consumed <;> exact (Storage.commit_eq_ok h).2

/-! ### Steps of a handshake -/

theorem comes_step {a : Address} (hsite : q.site? = some a) {plan : Vault → Draw (Plan Step)}
    (hplan : ∀ planned e, (plan A.vault).perform A.party.environment = (.ok planned, e) →
      A.party.Plans A.vault a q.base (q.usedBy A.party) planned) :
    A.Comes q (A.step fun s => A.party.perform s plan).1
      (A.step fun s => A.party.perform s plan).2 := by
  rcases hdraw : (plan A.vault).perform A.party.environment with ⟨planned, e⟩
  rw [hdraw] at hplan
  rw [vault] at hdraw
  have hcarry := A.storage.carriesOut A.party.account planned
  simp only [step, Party.perform, hdraw]
  rcases hout : A.storage.carryOut A.party.account planned with ⟨result, s⟩
  rw [hout] at hcarry
  cases hcarry with
  | refused error => exact .failed e A.storage.faults
  | @struck _ faults => exact .failed e faults
  | @idle planned hempty =>
    cases hplan planned e rfl with
    | @dropped status h =>
      refine .idle e fun o ho => ?_
      cases ho
      exact ⟨h, rfl⟩
    | opened hload =>
      exact absurd ((Batch.empty.isEmpty_put a _).symm.trans hempty) (by simp)
    | installed hload htrust hinstall =>
      exact absurd ((Party.isEmpty_install hinstall).symm.trans hempty) (by simp)
  | @done planned s hwrites hcommit =>
    cases hplan planned e rfl with
    | dropped h => cases hwrites
    | opened hload => exact .committed e (.opened hload) hcommit
    | installed hload htrust hinstall =>
      exact .committed e (.installed hsite hload htrust hinstall) hcommit

/-! ### Edits -/

theorem comes_edit {α : Type} {reply : α → Reply} {plan : Vault → Except SessionError (Plan α)}
    (hreply : ∀ x o, reply x ≠ .outcome o)
    (hplan : ∀ planned, plan A.vault = .ok planned → planned.writes.isEmpty = false →
      q.Writes A.party A.vault planned.writes (reply planned.answer) none) :
    A.Comes q (A.edit reply plan).1 (A.edit reply plan).2 := by
  have hcarry := A.storage.carriesOut A.party.account (plan A.vault)
  have hrun : A.storage.run A.party.account plan =
    A.storage.carryOut A.party.account (plan A.vault) := rfl
  simp only [edit, hrun]
  generalize plan A.vault = planned at hcarry hplan
  rcases hout : A.storage.carryOut A.party.account planned with ⟨result, s⟩
  rw [hout] at hcarry
  cases hcarry with
  | refused error => exact .failed A.party.environment A.storage.faults
  | @struck _ faults => exact .failed A.party.environment faults
  | idle hempty => exact .idle A.party.environment fun o ho => absurd ho (hreply _ o)
  | done hwrites hcommit =>
    exact .committed A.party.environment (hplan _ rfl hwrites) hcommit

theorem stageSave_of_save {t : Trust} {now : UInt64} {a : Address} {key : PublicKey} {v : Vault}
    {planned : Plan IdentityUpdate} (h : t.save now a key v = .ok planned) :
    t.stageSave v now a key .empty = .ok (planned.writes, planned.answer) := by
  obtain ⟨⟨b, u⟩, hstage, h⟩ := bind_eq_ok.mp h
  cases h
  exact hstage

theorem writes_setVerification {p : Party} {v : Vault} {t : Trust} {now : UInt64} {name : String}
    {r : IdentityRecord} {verification : Verification} {origin : NoticeOrigin}
    (hload : v.loadIdentity name = .ok (some r))
    (hempty : (t.setVerification now name r verification origin).writes.isEmpty = false) :
    q.Writes p v (t.setVerification now name r verification origin).writes
      (.update (t.setVerification now name r verification origin).answer) none := by
  unfold Trust.setVerification at hempty ⊢
  split
  · rename_i hsame
    rw [if_pos hsame] at hempty
    cases hempty
  · exact .confirmed hload

theorem writes_mark {p : Party} {v : Vault} {t : Trust} {now : UInt64} {name : String}
    {verification : Verification} {origin : NoticeOrigin} {planned : Plan IdentityUpdate}
    (h : t.mark now name verification origin v = .ok planned)
    (hempty : planned.writes.isEmpty = false) :
    q.Writes p v planned.writes (.update planned.answer) none := by
  obtain ⟨_ | r, hload, h⟩ := bind_eq_ok.mp h
  · cases h
    cases hempty
  · cases h
    exact writes_setVerification hload hempty

theorem writes_reconcile {p : Party} {v : Vault} {t : Trust} {now : UInt64} {name : String}
    {key : PublicKey} {verification : Verification} {planned : Plan IdentityUpdate}
    (h : t.reconcile now name key verification v = .ok planned)
    (hempty : planned.writes.isEmpty = false) :
    q.Writes p v planned.writes (.update planned.answer) none := by
  obtain ⟨_ | r, hload, h⟩ := bind_eq_ok.mp h
  · cases h
    cases hempty
  · dsimp only at h
    split at h
    · cases h
      exact writes_setVerification hload hempty
    · cases h
      cases hempty

theorem writes_archiveAt {p : Party} {v : Vault} {l : List Address} {planned : Plan Nat}
    {reply : Reply} (h : v.archiveAt l = .ok planned) (hreply : ∀ o, reply ≠ .outcome o) :
    q.Writes p v planned.writes reply none := by
  obtain ⟨⟨b, n⟩, hstage, h⟩ := bind_eq_ok.mp h
  cases h
  exact .archived hstage hreply

/-! ### Any request -/

/-- Every request comes out in one of the ways listed. -/
theorem comes_serve (suite : Suite) (A : Account) (q : Request) :
    A.Comes q (A.serve suite q).1 (A.serve suite q).2 := by
  cases q with
  | receive a thread m => exact comes_step rfl fun _ _ h => (Party.settles_planReceive h).plans
  | useBundle a thread b =>
    refine comes_step rfl fun _ _ h => ?_
    obtain ⟨r, ratchet, plan, hload, htrust, -, hplan, rfl⟩ := Party.planFromBundle_eq_ok h
    exact .installed hload htrust hplan
  | initiate a thread =>
    refine comes_step rfl fun _ _ h => ?_
    obtain ⟨r, actions, hload, rfl⟩ := Party.planInitiate_eq_ok h
    exact .opened hload
  | publish device prekeyId => exact .published _ _
  | save a key => exact comes_edit nofun fun _ h _ => .saved (stageSave_of_save h)
  | mark name verification origin => exact comes_edit nofun fun _ h hempty => writes_mark h hempty
  | reconcile name key verification =>
    exact comes_edit nofun fun _ h hempty => writes_reconcile h hempty
  | store a r =>
    refine comes_edit nofun fun planned h _ => ?_
    cases h
    exact .stored
  | delete a =>
    refine comes_edit nofun fun planned h _ => ?_
    cases h
    exact .deleted [a] nofun
  | deleteAll name =>
    refine comes_edit nofun fun planned h _ => ?_
    cases h
    exact .deleted _ nofun
  | archive a =>
    refine comes_edit nofun fun planned h _ => ?_
    obtain ⟨plan, hplan, h⟩ := bind_eq_ok.mp h
    cases h
    exact writes_archiveAt hplan nofun
  | archiveSiblings a => exact comes_edit nofun fun _ h _ => writes_archiveAt h nofun
  | archiveAll => exact comes_edit nofun fun _ h _ => writes_archiveAt h nofun

theorem comes_take (suite : Suite) (A : Account) (t : Turn) :
    (A.facing t).Comes t.request (A.take suite t).1 (A.take suite t).2 := comes_serve ..

/-- A request that establishes a session has installed and committed it. -/
theorem Comes.of_established {A' : Account} {o : HandshakeOutcome}
    (h : A.Comes q (.ok (.outcome o)) A') (ho : o.isEstablished = true) :
    ∃ a r s now plan environment storage, q.site? = some a ∧
      A.vault.load a = .ok r ∧ A.party.install A.vault now a (q.base r) s = .ok plan ∧
      A.storage.commit A.party.account plan.writes = (.ok (), storage) ∧
      A' = ⟨{ A.party with environment }.consume (q.usedBy A.party), storage⟩ := by
  have hstatus : o.status = .established := by simpa [HandshakeOutcome.isEstablished] using ho
  cases h with
  | idle environment hreply =>
    have hdropped := (hreply o rfl).1
    rw [hstatus] at hdropped
    cases hdropped
  | committed environment hwrites hcommit =>
    cases hwrites with
    | opened => cases hstatus
    | installed hsite hload htrust hplan =>
      exact ⟨_, _, _, _, _, environment, _, hsite, hload, hplan, hcommit, rfl⟩
    | deleted l hreply => exact absurd rfl (hreply o)
    | archived hstage hreply => exact absurd rfl (hreply o)

/-! ### What is written -/

theorem isBounded_of_writes {p : Party} {v : Vault} {b : Batch} {reply : Reply}
    {consumed : Option UInt32} (h : q.Writes p v b reply consumed) (hq : q.StoresBounded) :
    b.IsBounded := by
  cases h with
  | @opened _ a r x actions hload =>
    have hr : (r.setPending x).IsBounded := Vault.record_of_load hload ▸ v.isBounded_record a
    exact Batch.isBounded_empty.put hr a
  | @installed _ a r s now plan actions hsite hload htrust hplan =>
    have hr : r.IsBounded := Vault.record_of_load hload ▸ v.isBounded_record a
    exact (Party.writes_of_install (q.isBounded_base hr) hplan).1.bounded
  | saved hstage => exact (Vault.leads_of_stageSave Batch.isBounded_empty rfl hstage).1.bounded
  | confirmed => exact Batch.isBounded_empty.putIdentity _ _
  | stored => exact Batch.isBounded_empty.put (hq _ _ rfl) _
  | deleted l =>
    intro a r h
    have hnone : Batch.empty.staged? a = none := rfl
    rw [Batch.stagedRecord?, Batch.staged?_deletes, hnone] at h
    split at h <;> cases h
  | archived hstage => exact (Vault.leads_of_foldlM Batch.isBounded_empty hstage).bounded

/-- Every request writes to the vault what can be read back, if it writes anything. -/
theorem Comes.vault_eq {A' : Account} {result : Except SessionError Reply} (h : A.Comes q result A')
    (hq : q.StoresBounded) : ∃ b : Batch, b.IsBounded ∧ A'.vault = A.vault.apply b := by
  cases h with
  | failed | idle | published => exact ⟨.empty, Batch.isBounded_empty, rfl⟩
  | committed environment hwrites hcommit =>
    exact ⟨_, isBounded_of_writes hwrites hq, vault_of_commit hcommit⟩

/-! ### What stays -/

/-- What no request changes. -/
structure Keeps (A A' : Account) : Prop where
  account : A'.party.account = A.party.account
  identity : A'.party.identity = A.party.identity
  trust : A'.party.trust = A.party.trust
  lastResort : A'.party.lastResort = A.party.lastResort
  fault : A'.party.prekeys.fault = A.party.prekeys.fault

theorem Keeps.refl (A : Account) : A.Keeps A := ⟨rfl, rfl, rfl, rfl, rfl⟩

theorem Keeps.trans {A A' A'' : Account} (h : A.Keeps A') (h' : A'.Keeps A'') : A.Keeps A'' :=
  ⟨h'.account.trans h.account, h'.identity.trans h.identity, h'.trust.trans h.trust,
    h'.lastResort.trans h.lastResort, h'.fault.trans h.fault⟩

theorem Comes.keeps {A' : Account} {result : Except SessionError Reply} (h : A.Comes q result A') :
    A.Keeps A' := by
  cases h with
  | failed | idle | published => exact ⟨rfl, rfl, rfl, rfl, rfl⟩
  | @committed _ b reply consumed s environment hwrites hcommit =>
    cases consumed with
    | none => exact ⟨rfl, rfl, rfl, rfl, rfl⟩
    | some id => exact ⟨rfl, rfl, rfl, rfl, PreKeys.fault_discard _ id⟩

theorem keeps_take (suite : Suite) (A : Account) (t : Turn) : A.Keeps (A.take suite t).2 :=
  have hfacing : A.Keeps (A.facing t) := ⟨rfl, rfl, rfl, rfl, rfl⟩
  hfacing.trans (comes_take suite A t).keeps

theorem keeps_after (suite : Suite) : ∀ (l : List Turn) (A : Account), A.Keeps (A.after suite l)
  | [], A => .refl A
  | t :: l, A => (keeps_take suite A t).trans (keeps_after suite l (A.take suite t).2)

end Account

/-! ### A sample -/

/-- Cryptography without secrets: a public key repeats its secret, and ratchets start
from the keys as they are. -/
def Suite.plain : Suite where
  publicKey s := ⟨s.key⟩
  initialState q := .ok {
    rootKey := q.theirBase.key
    localKey := q.ourEphemeral.publicKey
    remoteKey := q.theirEphemeral
    sendingChain := some (.start q.ourBase.publicKey.key)
    receivingChain := some (.start q.theirBase.key) }

theorem Suite.keepsKeys_plain : Suite.plain.KeepsKeys := by
  intro q r h
  cases h
  exact ⟨rfl, rfl, rfl⟩

/-- The session of a sample peer, its identity and its keys made of a byte each. -/
def SessionState.plain (identity tag : UInt8) : SessionState :=
  SessionSample.state ⟨tag, Version.newest, true, true, ⟨.replicate 1⟩, ⟨.replicate identity⟩, none⟩

/-- The key pair of a byte. -/
def KeyPair.plain (b : UInt8) : KeyPair := Suite.plain.keyPair ⟨.replicate b⟩

namespace Account

/-- Two devices of Bob's with live sessions, the second with an exchange under way, and one of
Carol's; the keys of both peers are on file. -/
def sampleVault : Vault := Vault.empty.apply <| Batch.empty
  |>.put ⟨"bob", 1⟩ (.ofHistory [.plain 2 10, .plain 2 11] false none)
  |>.put ⟨"bob", 2⟩ (.ofHistory [.plain 2 20] false
    (some ⟨9, .plain 6, .plain 7, .plain 1⟩))
  |>.put ⟨"carol", 1⟩ (.ofHistory [.plain 3 30] false none)
  |>.putIdentity "bob" (Trust.firstRecord 0 ⟨.replicate 2⟩)
  |>.putIdentity "carol" (Trust.firstRecord 0 ⟨.replicate 3⟩)

/-- An account with some content that holds the prekey of number 5. -/
def sample (policy : TrustPolicy) (v : Vault) : Account where
  party := {
    account := "alice"
    identity := .plain 1
    trust := ⟨policy, fun _ => []⟩
    lastResort := defaultLastResort
    environment := ⟨.counter 40, 0⟩
    prekeys := PreKeys.empty.insert 5 (.plain 5) }
  storage := (Storage.empty .never).setVault "alice" v

theorem vault_sample (policy : TrustPolicy) (v : Vault) : (sample policy v).vault = v :=
  Storage.vault_setVault_self ..

/-- A first message for the prekey of number 5, under an identity made of a byte. -/
def sampleMessage (identity : UInt8) : HandshakeMessage := .bundle {
  prekeyId := 5
  baseKey := ⟨.replicate 50⟩
  identityKey := ⟨.replicate identity⟩
  message := (SessionState.plain identity 51).nextMessage [] }

/-- The leg of an exchange of a peer's, its keys made of a byte each. -/
def sampleLeg (sequence : UInt32) (base ephemeral identity : UInt8) (flags : ExchangeFlags) :
    KeyExchangeMessage :=
  (PendingExchange.mk sequence (.plain base) (.plain ephemeral) (.plain identity)).leg flags

end Account

end SecureSession
