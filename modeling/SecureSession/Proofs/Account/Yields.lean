import SecureSession.Proofs.Account.Requests

/-! # Requests on contents

What each request makes of the contents of an account, with the answer that goes with it: one case
for each thing that any request can do, so that what holds over runs is proved by cases on it. A
request that fails makes nothing of them, whether it was refused or could not be committed. -/

namespace SecureSession

/-! ### Requests told apart -/

namespace Request

/-- The confirmation that a request has for a key of a peer. -/
def claim? (name : String) (key : PublicKey) : Request → Option Verification
  | mark n verification _ => if n = name then some verification else none
  | reconcile n k verification => if n = name ∧ k = key then some verification else none
  | _ => none

end Request

namespace Account

/-! ### What a request yields -/

/-- What a request makes of the contents of an account, with its answer. -/
inductive Yields (suite : Suite) (A : Account) :
    Request → Except SessionError Reply → Contents → Prop
  | failed {q : Request} (e : SessionError) : Yields suite A q (.error e) A.contents
  | dropped {a : Address} {thread : UInt64} {m : HandshakeMessage} {status : HandshakeStatus}
    (h : status.isDropped = true) :
    Yields suite A (.receive a thread m) (.ok (.outcome (.dropped status))) A.contents
  /-- An exchange is under way. -/
  | opened {a : Address} {thread : UInt64} {actions : List SessionAction} :
    Yields suite A (.initiate a thread) (.ok (.outcome ⟨.initiated, actions⟩))
      (A.contents.put a ((A.contents.record a).setPending (A.party.opening suite)))
  /-- A leg has completed an exchange. -/
  | completed {a : Address} {thread : UInt64} {m : HandshakeMessage} {leg : KeyExchangeMessage}
    {q : PendingExchange} {ratchet : RatchetState} {actions : List SessionAction}
    (hleg : m.leg? = some leg) (hq : A.party.completing? suite (A.contents.record a) leg = some q)
    (hratchet : suite.initialState (Party.exchangeParameters q leg) = .ok ratchet) :
    Yields suite A (.receive a thread m) (.ok (.outcome ⟨.established, actions⟩))
      (A.contents.complete A.party.environment.now a q leg ratchet)
  /-- A first message has made a session. -/
  | built {a : Address} {thread : UInt64} {m : HandshakeMessage} {s : SessionState}
    {actions : List SessionAction} (hleg : m.leg? = none) (hnew : s.IsNew suite) :
    Yields suite A (.receive a thread m) (.ok (.outcome ⟨.established, actions⟩))
      (A.contents.install A.party.environment.now a (A.contents.record a) s)
  /-- A bundle has made a session. -/
  | used {a : Address} {thread : UInt64} {b : PreKeyBundle} {s : SessionState}
    {actions : List SessionAction} (hnew : s.IsNew suite) :
    Yields suite A (.useBundle a thread b) (.ok (.outcome ⟨.established, actions⟩))
      (A.contents.install A.party.environment.now a (A.contents.record a) s)
  | saved {a : Address} {key : PublicKey} {u : IdentityUpdate} :
    Yields suite A (.save a key) (.ok (.update u))
      (A.contents.save A.party.environment.now a.name key)
  /-- The key on file has another confirmation. -/
  | confirmed {q : Request} {name : String} {r : IdentityRecord} {verification : Verification}
    {u : IdentityUpdate} (hfiled : A.contents.filed name = some r)
    (hclaim : q.claim? name r.identityKey = some verification)
    (hne : r.verification ≠ verification) :
    Yields suite A q (.ok (.update u)) (A.contents.file name
      { r with verification, updatedAt := A.party.environment.now })
  /-- There was nothing to write. -/
  | kept {q : Request} {reply : Reply} (hreply : ∀ o, reply ≠ .outcome o) :
    Yields suite A q (.ok reply) A.contents
  /-- A record is stored as it is given; whether it can be read is not asked. -/
  | stored {a : Address} {r : SessionRecord} {c : Contents} (hfiled : c.filed = A.contents.filed) :
    Yields suite A (.store a r) (.ok (.done ())) c
  /-- The records at some addresses are deleted. -/
  | deleted {q : Request} {reply : Reply} (l : List Address) (hreply : ∀ o, reply ≠ .outcome o) :
    Yields suite A q (.ok reply)
      { A.contents with record := fun a => if a ∈ l then .empty else A.contents.record a }
  /-- The live sessions at some addresses are archived. -/
  | archived {q : Request} {reply : Reply} (l : List Address) (hreply : ∀ o, reply ≠ .outcome o) :
    Yields suite A q (.ok reply) (A.contents.archiveAt l)

/-! ### Carrying out a plan -/

/-- The answer and the vault left by carrying out a plan that may not have been made. -/
inductive Carries {α : Type} (A : Account) (reply : α → Reply)
    (plan : Except SessionError (Plan α)) :
    Except SessionError Reply → Vault → Prop
  | failed (e : SessionError) : Carries A reply plan (.error e) A.vault
  | done {made : Plan α} (h : plan = .ok made) :
    Carries A reply plan (.ok (reply made.answer)) (A.vault.apply made.writes)

variable {suite : Suite} {A : Account}

/-- A plan that is carried out has been written, even where there was nothing to write. -/
theorem carries_of_carriesOut {α : Type} {reply : α → Reply} {plan : Except SessionError (Plan α)}
    {result : Except SessionError α} {s : Storage}
    (h : A.storage.CarriesOut A.party.account plan result s) :
    A.Carries reply plan (result.map reply) (s.vault A.party.account) := by
  cases h with
  | refused e => exact .failed e
  | struck => exact .failed _
  | @idle made hempty =>
    have hdone : A.Carries reply (.ok made) (.ok (reply made.answer)) (A.vault.apply made.writes) :=
      .done rfl
    rwa [A.vault.apply_of_isEmpty hempty] at hdone
  | @done made s hwrites hcommit =>
    rw [(Storage.commit_eq_ok hcommit).2]
    exact .done rfl

theorem carries_edit {α : Type} (A : Account) (reply : α → Reply)
    (plan : Vault → Except SessionError (Plan α)) :
    A.Carries reply (plan A.vault) (A.edit reply plan).1 (A.edit reply plan).2.vault :=
  carries_of_carriesOut (A.storage.carriesOut A.party.account (plan A.vault))

/-- A step of a handshake carries out its plan, whatever prekey it uses up. -/
theorem carriesOut_step (A : Account) (plan : Vault → Draw (Plan Step)) :
    ∃ result s, A.storage.CarriesOut A.party.account
        ((plan A.vault).perform A.party.environment).1 result s ∧
      (A.step fun s => A.party.perform s plan).1 = result.map (.outcome ·.outcome) ∧
      (A.step fun s => A.party.perform s plan).2.vault = s.vault A.party.account := by
  rcases hdraw : (plan A.vault).perform A.party.environment with ⟨planned, e⟩
  rw [vault] at hdraw
  have hcarry := A.storage.carriesOut A.party.account planned
  simp only [step, Party.perform, hdraw]
  rcases hout : A.storage.carryOut A.party.account planned with ⟨e | made, s⟩
  · rw [hout] at hcarry
    exact ⟨_, _, hcarry, rfl, rfl⟩
  · rw [hout] at hcarry
    refine ⟨_, _, hcarry, ?_⟩
    obtain ⟨outcome, _ | id⟩ := made <;> exact ⟨rfl, rfl⟩

theorem carries_step (A : Account) (plan : Vault → Draw (Plan Step)) :
    A.Carries (.outcome ·.outcome) ((plan A.vault).perform A.party.environment).1
      (A.step fun s => A.party.perform s plan).1
        (A.step fun s => A.party.perform s plan).2.vault := by
  obtain ⟨result, s, hcarry, hresult, hvault⟩ := A.carriesOut_step plan
  rw [hresult, hvault]
  exact carries_of_carriesOut hcarry

/-- What is carried out yields what its plan yields, if one was made. -/
theorem Carries.yields {α : Type} {q : Request} {reply : α → Reply}
    {plan : Except SessionError (Plan α)} {result : Except SessionError Reply} {v : Vault}
    (h : A.Carries reply plan result v) (hmade : ∀ made, plan = .ok made →
      A.Yields suite q (.ok (reply made.answer)) (A.vault.apply made.writes).contents) :
    A.Yields suite q result v.contents := by
  cases h with
  | failed e => exact .failed e
  | done h => exact hmade _ h

theorem yields_step {q : Request} {plan : Vault → Draw (Plan Step)}
    (hmade : ∀ made e, (plan A.vault).perform A.party.environment = (.ok made, e) →
      A.Yields suite q (.ok (.outcome made.answer.outcome)) (A.vault.apply made.writes).contents) :
    A.Yields suite q (A.step fun s => A.party.perform s plan).1
      (A.step fun s => A.party.perform s plan).2.contents :=
  (A.carries_step plan).yields fun made h => hmade made _ (Prod.ext h rfl)

theorem yields_edit {α : Type} {q : Request} {reply : α → Reply}
    {plan : Vault → Except SessionError (Plan α)}
    (hmade : ∀ made, plan A.vault = .ok made →
      A.Yields suite q (.ok (reply made.answer)) (A.vault.apply made.writes).contents) :
    A.Yields suite q (A.edit reply plan).1 (A.edit reply plan).2.contents :=
  (A.carries_edit reply plan).yields hmade

/-! ### Steps of a handshake -/

theorem yields_initiate (suite : Suite) (A : Account) (a : Address) (thread : UInt64) :
    A.Yields suite (.initiate a thread) (A.serve suite (.initiate a thread)).1
      (A.serve suite (.initiate a thread)).2.contents := by
  refine yields_step fun made e h => ?_
  obtain ⟨r, actions, hload, rfl⟩ := Party.planInitiate_eq_ok h
  obtain rfl := Vault.record_of_load hload
  have hbounded : ((A.vault.contents.record a).setPending (A.party.opening suite)).IsBounded :=
    A.vault.isBounded_record a
  have hwrites := (A.vault.writes_store a hbounded).contents
  exact hwrites ▸ .opened

theorem yields_useBundle (suite : Suite) (A : Account) (a : Address) (thread : UInt64)
    (b : PreKeyBundle) :
    A.Yields suite (.useBundle a thread b) (A.serve suite (.useBundle a thread b)).1
      (A.serve suite (.useBundle a thread b)).2.contents := by
  refine yields_step fun made e h => ?_
  obtain ⟨r, ratchet, plan, hload, -, hratchet, hplan, rfl⟩ := Party.planFromBundle_eq_ok h
  obtain rfl := Vault.record_of_load hload
  have hwrites := (Party.writes_of_install (A.vault.isBounded_record a) hplan).1.contents
  exact hwrites ▸ .used ⟨rfl, _, hratchet⟩

theorem yields_receive (suite : Suite) (A : Account) (a : Address) (thread : UInt64)
    (m : HandshakeMessage) :
    A.Yields suite (.receive a thread m) (A.serve suite (.receive a thread m)).1
      (A.serve suite (.receive a thread m)).2.contents := by
  refine yields_step fun made e h => ?_
  cases Party.settles_planReceive h with
  | dropped hdropped => exact .dropped hdropped
  | @installed r s plan actions hload htrust hmakes hplan =>
    obtain rfl := Vault.record_of_load hload
    have hbounded : (m.base (A.vault.contents.record a)).IsBounded :=
      (Request.receive a thread m).isBounded_base (A.vault.isBounded_record a)
    have hwrites := (Party.writes_of_install hbounded hplan).1.contents
    cases m with
    | initiate leg | response leg =>
      obtain ⟨q, ratchet, hq, hratchet, rfl⟩ := hmakes
      exact hwrites ▸ .completed rfl hq hratchet
    | bundle m => exact hwrites ▸ .built rfl hmakes
    | legacy kind used => exact hwrites ▸ .built rfl hmakes

/-! ### Edits -/

theorem yields_setVerification {q : Request} {name : String} {r : IdentityRecord}
    {verification : Verification} (hload : A.vault.loadIdentity name = .ok (some r))
    (hclaim : q.claim? name r.identityKey = some verification) (origin : NoticeOrigin) :
    A.Yields suite q
      (.ok (.update (A.party.trust.setVerification A.party.environment.now name r verification
        origin).answer))
      (A.vault.apply (A.party.trust.setVerification A.party.environment.now name r verification
        origin).writes).contents := by
  unfold Trust.setVerification
  split
  · exact .kept nofun
  · rename_i hne
    show A.Yields suite q _ (A.vault.apply (Batch.empty.putIdentity name _)).contents
    rw [A.vault.contents_apply_putIdentity Batch.isBounded_empty]
    exact .confirmed (Vault.filed_of_loadIdentity hload) hclaim hne

theorem yields_archiveAt {q : Request} {l : List Address} {made : Plan Nat} {reply : Reply}
    (h : A.vault.archiveAt l = .ok made) (hreply : ∀ o, reply ≠ .outcome o) :
    A.Yields suite q (.ok reply) (A.vault.apply made.writes).contents := by
  obtain ⟨⟨b, n⟩, hstage, h⟩ := bind_eq_ok.mp h
  cases h
  show A.Yields suite q _ (A.vault.apply b).contents
  rw [(Vault.leads_of_foldlM Batch.isBounded_empty hstage).contents]
  exact .archived l hreply

theorem yields_deletes {q : Request} {reply : Reply} (l : List Address)
    (hreply : ∀ o, reply ≠ .outcome o) : A.Yields suite q (.ok reply)
      (A.vault.apply (l.foldl Batch.delete .empty)).contents := by
  rw [A.vault.contents_apply_deletes]
  exact .deleted l hreply

/-! ### Any request -/

/-- Every request yields one of the contents listed. -/
theorem yields_serve (suite : Suite) (A : Account) (q : Request) :
    A.Yields suite q (A.serve suite q).1 (A.serve suite q).2.contents := by
  cases q with
  | receive a thread m => exact yields_receive suite A a thread m
  | useBundle a thread b => exact yields_useBundle suite A a thread b
  | initiate a thread => exact yields_initiate suite A a thread
  | publish device prekeyId => exact .kept nofun
  | save a key =>
    refine yields_edit fun made h => ?_
    have hstage := stageSave_of_save h
    have hleads := (Vault.leads_of_stageSave Batch.isBounded_empty rfl hstage).1
    exact hleads.contents ▸ .saved
  | mark name verification origin =>
    refine yields_edit fun made h => ?_
    obtain ⟨_ | r, hload, h⟩ := bind_eq_ok.mp h
    · cases h
      exact .kept nofun
    · cases h
      have hclaim : (Request.mark name verification origin).claim? name r.identityKey =
        some verification := if_pos rfl
      exact yields_setVerification hload hclaim origin
  | reconcile name key verification =>
    refine yields_edit fun made h => ?_
    obtain ⟨_ | r, hload, h⟩ := bind_eq_ok.mp h
    · cases h
      exact .kept nofun
    · dsimp only at h
      split at h
      · rename_i hkey
        cases h
        have hclaim : (Request.reconcile name key verification).claim? name r.identityKey =
          some verification := if_pos ⟨rfl, hkey.symm⟩
        exact yields_setVerification hload hclaim .elsewhere
      · cases h
        exact .kept nofun
  | store a r =>
    refine yields_edit fun made h => ?_
    cases h
    exact .stored (funext fun name => A.vault.filed_apply _ name)
  | delete a =>
    refine yields_edit fun made h => ?_
    cases h
    exact yields_deletes [a] nofun
  | deleteAll name =>
    refine yields_edit fun made h => ?_
    cases h
    exact yields_deletes _ nofun
  | archive a =>
    refine yields_edit fun made h => ?_
    obtain ⟨plan, hplan, h⟩ := bind_eq_ok.mp h
    cases h
    exact yields_archiveAt hplan nofun
  | archiveSiblings a => exact yields_edit fun made h => yields_archiveAt h nofun
  | archiveAll => exact yields_edit fun made h => yields_archiveAt h nofun

theorem yields_take (suite : Suite) (A : Account) (t : Turn) :
    (A.facing t).Yields suite t.request (A.take suite t).1 (A.take suite t).2.contents :=
  yields_serve suite (A.facing t) t.request

/-- A request that establishes a session has installed a new one on the record
that it goes on top of. -/
theorem Yields.of_established {q : Request} {a : Address} {o : HandshakeOutcome} {c : Contents}
    (h : A.Yields suite q (.ok (.outcome o)) c) (ho : o.isEstablished = true)
    (hsite : q.site? = some a) : ∃ s, s.IsNew suite ∧
      c = A.contents.install A.party.environment.now a (q.base (A.contents.record a)) s := by
  have hstatus : o.status = .established := by simpa [HandshakeOutcome.isEstablished] using ho
  cases h with
  | dropped hdropped =>
    have hnot : HandshakeStatus.isDropped .established = true := hstatus ▸ hdropped
    cases hnot
  | opened => cases hstatus
  | @completed _ thread m leg q ratchet actions hleg hq hratchet =>
    cases hsite
    cases m with
    | initiate | response => exact ⟨_, ⟨rfl, _, hratchet⟩, rfl⟩
    | bundle | legacy => cases hleg
  | @built _ thread m s actions hleg hnew =>
    cases hsite
    cases m with
    | initiate | response => cases hleg
    | bundle | legacy => exact ⟨s, hnew, rfl⟩
  | used hnew =>
    cases hsite
    exact ⟨_, hnew, rfl⟩
  | kept hreply | deleted l hreply | archived l hreply => exact absurd rfl (hreply o)

end Account

end SecureSession
