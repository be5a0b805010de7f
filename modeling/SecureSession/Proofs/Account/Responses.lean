import SecureSession.Proofs.Account.Establishment
import SecureSession.Proofs.Account.ExchangeKeys
import SecureSession.Proofs.Account.Replays

/-! # Responses

A leg that opens no exchange is taken for the response to the one under way with its sender. Its
number is looked at first: where it answers nothing it is stale, whatever key it comes with. Then
its key has to be trusted, the agreement has to give a ratchet and the session has to be committed;
until that is done the exchange stays under way, and from then on there is nothing to answer until
another one is opened (`Account.IsIdle`). -/

namespace SecureSession

/-! ### Refusals and failures -/

/-- Whether the key on file for a peer is another one and the policy holds on to it. -/
def Trust.Refuses (t : Trust) (v : Vault) (name : String) (key : PublicKey) : Prop :=
  ∃ i, v.identity? name = .ok (some i) ∧ i.identityKey ≠ key ∧ t.policy = .rejectChanged

namespace Trust

variable {t : Trust} {v : Vault} {a : Address} {key : PublicKey}

theorem require_of_refuses (h : t.Refuses v a.name key) :
    t.require v a key = .error (.trustRejected a) := by
  obtain ⟨i, hi, hkey, hpolicy⟩ := h
  simp only [require, validate, Vault.loadIdentity, SessionError.ofStorage, hi, hpolicy]
  simp [Except.mapError, bind, Except.bind, pure, Except.pure, hkey]
  rfl

theorem require_of_not_refuses (h : ¬t.Refuses v a.name key) : t.require v a key = .ok () ∨
    ∃ e, v.identity? a.name = .error e ∧ t.require v a key = .error (.storage e) := by
  cases hi : v.identity? a.name with
  | error e =>
    refine .inr ⟨e, rfl, ?_⟩
    simp only [require, validate, Vault.loadIdentity, SessionError.ofStorage, hi]
    rfl
  | ok o =>
    left
    simp only [require, validate, Vault.loadIdentity, SessionError.ofStorage, hi]
    cases o with
    | none => rfl
    | some i =>
      have htrusted : i.identityKey = key ∨ t.policy = .acceptChanged := by
        by_contra hnot
        rw [not_or] at hnot
        refine h ⟨i, hi, hnot.1, ?_⟩
        cases hpolicy : t.policy with
        | rejectChanged => rfl
        | acceptChanged => exact absurd hpolicy hnot.2
      simp [Except.mapError, bind, Except.bind, pure, Except.pure, htrusted]

/-- A key can be filed unless what is on file for the peer cannot be read or, where the key changes,
the record of a device of the peer that is not staged. -/
theorem stageSave_cases (t : Trust) (v : Vault) (now : UInt64) (a : Address) (key : PublicKey)
    (b : Batch) :
    (∃ saved, t.stageSave v now a key b = .ok saved) ∨
      ∃ e, t.stageSave v now a key b = .error (.storage e) ∧ (v.identity? a.name = .error e ∨
        ∃ i c, v.identity? a.name = .ok (some i) ∧ i.identityKey ≠ key ∧ c.name = a.name ∧
          b.staged? c = none ∧ v.session? c = .error e) := by
  simp only [stageSave, Vault.loadIdentity, SessionError.ofStorage]
  cases hi : v.identity? a.name with
  | error e => exact .inr ⟨e, rfl, .inl rfl⟩
  | ok o =>
    cases o with
    | none => exact .inl ⟨_, rfl⟩
    | some i =>
      simp only [Except.mapError, bind, Except.bind, pure, Except.pure]
      by_cases hkey : i.identityKey = key
      · rw [if_pos hkey]
        exact .inl ⟨_, rfl⟩
      · rw [if_neg hkey]
        rcases v.foldlM_stageArchive_cases ((v.stagedDevices b a.name).map (⟨a.name, ·⟩)) b 0 with
          ⟨b', n, hall⟩ | ⟨c, hc, hstaged, e, hread, hall⟩ <;> rw [← Vault.stageArchiveAll] at hall
        · rw [hall]
          exact .inl ⟨_, rfl⟩
        · rw [hall]
          obtain ⟨device, -, rfl⟩ := List.mem_map.mp hc
          exact .inr ⟨e, rfl, .inr ⟨i, ⟨a.name, device⟩, rfl, hkey, rfl, hstaged, hread⟩⟩

end Trust

/-- Likewise for a session; the record at its own address does not have to be read for this. -/
theorem Party.install_cases (p : Party) (v : Vault) (now : UInt64) (a : Address) (r : SessionRecord)
    (s : SessionState) : (∃ plan, p.install v now a r s = .ok plan) ∨
      ∃ e, p.install v now a r s = .error (.storage e) ∧ (v.identity? a.name = .error e ∨
        ∃ i c, v.identity? a.name = .ok (some i) ∧ i.identityKey ≠ s.remoteIdentity ∧
          c.name = a.name ∧ c ≠ a ∧ v.session? c = .error e) := by
  unfold install
  rcases p.trust.stageSave_cases v now a s.remoteIdentity (Batch.empty.put a r) with
    ⟨saved, hsave⟩ | ⟨e, hsave, hcause⟩ <;> rw [hsave]
  · exact .inl ⟨_, rfl⟩
  · refine .inr ⟨e, rfl, hcause.imp_right ?_⟩
    rintro ⟨i, c, hi, hkey, hname, hstaged, hread⟩
    refine ⟨i, c, hi, hkey, hname, ?_, hread⟩
    rintro rfl
    rw [Batch.staged?_put, if_pos rfl] at hstaged
    cases hstaged

namespace Account

/-! ### A response that answers -/

/-- What a response that answers an exchange under way, and is trusted, can still fail for. -/
inductive Hinders (suite : Suite) (A : Account) (a : Address) (leg : KeyExchangeMessage)
    (x : PendingExchange) : SessionError → Prop
  /-- The agreement gives no ratchet. -/
  | agreement {e : CryptoError}
    (h : suite.initialState (Party.exchangeParameters x leg) = .error e) :
    Hinders suite A a leg x (.crypto e)
  /-- The commit fails. -/
  | commit {n : ℕ} (h : A.storage.faults.strike.1 = true) :
    Hinders suite A a leg x (.storage (.unavailable (.injected n)))
  /-- What is on file for the peer cannot be read. -/
  | identity {e : StorageError} (h : A.vault.identity? a.name = .error e) :
    Hinders suite A a leg x (.storage e)
  /-- The key changes, and the session with another device cannot be archived as
  its record cannot be read. -/
  | sibling {i : IdentityRecord} {b : Address} {e : StorageError}
    (hi : A.vault.identity? a.name = .ok (some i)) (hkey : i.identityKey ≠ leg.identityKey)
    (hname : b.name = a.name) (hne : b ≠ a) (h : A.vault.session? b = .error e) :
    Hinders suite A a leg x (.storage e)

/-- Whether an exchange has made a session with the leg that answers it and
is no longer under way. -/
def Concluded (suite : Suite) (A : Account) (a : Address) (leg : KeyExchangeMessage)
    (x : PendingExchange) : Prop :=
  ∃ t r, suite.initialState (Party.exchangeParameters x leg) = .ok t ∧ A.vault.load a = .ok r ∧
    r.current = some (.fresh x.identity.publicKey leg.identityKey t) ∧ r.pending = none

variable {suite : Suite} {A A' : Account} {a : Address} {thread : UInt64} {m : HandshakeMessage}
  {leg : KeyExchangeMessage} {r : SessionRecord} {x : PendingExchange}

theorem answered?_eq_none_iff : Party.answered? r leg.sequence = none ↔
    ∀ x, r.pending = some x → x.sequence ≠ leg.sequence := by
  simp [Party.answered?, Option.filter_eq_none_iff]

theorem answered?_eq_some_iff : Party.answered? r leg.sequence = some x ↔
    r.pending = some x ∧ x.sequence = leg.sequence := by
  simp [Party.answered?, Option.filter_eq_some_iff]

/-- What is planned for a response to the exchange under way, under a key that is not refused. -/
theorem planResponse_cases (suite : Suite) (A : Account) (thread : UInt64)
    (hx : Party.answered? r leg.sequence = some x)
    (htrust : ¬A.party.trust.Refuses A.vault a.name leg.identityKey) :
    (∃ t installed, suite.initialState (Party.exchangeParameters x leg) = .ok t ∧
      A.party.install A.vault A.party.environment.now a r.clearPending.purgeLegacy
        (.fresh x.identity.publicKey leg.identityKey t) = .ok installed ∧
      A.party.planResponse suite a thread leg r A.party.environment.now A.vault =
      .ok (installed.map fun u =>
        ⟨⟨.established, u.actions ++ [.drainPending a, .securityUpdate thread]⟩, none⟩)) ∨
    ∃ e, A.Hinders suite a leg x e ∧
      A.party.planResponse suite a thread leg r A.party.environment.now A.vault = .error e := by
  simp only [Party.planResponse, hx, Party.planCompletion]
  obtain htrusted | ⟨e, he, hrequire⟩ := Trust.require_of_not_refuses htrust
  · rw [htrusted]
    cases ht : suite.initialState (Party.exchangeParameters x leg) with
    | error e => exact .inr ⟨.crypto e, .agreement ht, rfl⟩
    | ok t =>
      simp only [Except.mapError, bind, Except.bind]
      rcases A.party.install_cases A.vault A.party.environment.now a r.clearPending.purgeLegacy
          (.fresh x.identity.publicKey leg.identityKey t) with
        ⟨installed, hplan⟩ | ⟨e, hplan, he | ⟨i, c, hi, hkey, hname, hne, hread⟩⟩ <;> rw [hplan]
      · exact .inl ⟨t, installed, rfl, hplan, rfl⟩
      · exact .inr ⟨_, .identity he, rfl⟩
      · exact .inr ⟨_, .sibling hi hkey hname hne hread, rfl⟩
  · rw [hrequire]
    exact .inr ⟨_, .identity he, rfl⟩

section Response
variable (suite : Suite) (A : Account) (a : Address) (thread : UInt64) (hleg : m.leg? = some leg)
  (hrole : leg.isInitiate = false)
include hleg hrole

/-- Where what is planned for a response fails, the response fails. -/
theorem serve_response_of_error {e : SessionError} (h : (A.vault.load a).bind (fun r =>
    A.party.planResponse suite a thread leg r A.party.environment.now A.vault) = .error e) :
    (A.serve suite (.receive a thread m)).1 = .error e := by
  obtain ⟨result, s, hcarry, hresult, -⟩ := A.carriesOut_step (A.party.planReceive suite a thread m)
  rw [A.plan_of_response a thread hleg hrole, h] at hcarry
  cases hcarry
  exact hresult

/-- A response to the exchange under way, under a key that is not refused, completes the exchange
unless something hinders it. -/
theorem serve_response (hload : A.vault.load a = .ok r)
    (hx : Party.answered? r leg.sequence = some x)
    (htrust : ¬A.party.trust.Refuses A.vault a.name leg.identityKey) :
    (∃ o, (A.serve suite (.receive a thread m)).1 = .ok (.outcome o) ∧ o.isEstablished = true ∧
      (A.serve suite (.receive a thread m)).2.Concluded suite a leg x) ∨
    ∃ e, A.Hinders suite a leg x e ∧ (A.serve suite (.receive a thread m)).1 = .error e := by
  obtain ⟨t, installed, ht, hplan, hmade⟩ | ⟨e, hhinders, hmade⟩ :=
    A.planResponse_cases suite thread hx htrust
  · obtain ⟨result, s, hcarry, hresult, hvault⟩ :=
      A.carriesOut_step (A.party.planReceive suite a thread m)
    rw [A.plan_of_response a thread hleg hrole, hload] at hcarry
    simp only [Except.bind, hmade] at hcarry
    cases hcarry with
    | struck _ hstrike => exact .inr ⟨_, .commit (congrArg Prod.fst hstrike), hresult⟩
    | idle hempty => exact absurd ((Party.isEmpty_install hplan).symm.trans hempty) (by simp)
    | done _ hcommit =>
      have hr : r.IsBounded := Vault.record_of_load hload ▸ A.vault.isBounded_record a
      have hbase : r.clearPending.purgeLegacy.IsBounded := SessionRecord.IsBounded.purgeLegacy hr
      refine .inl ⟨_, hresult, rfl, t, _, ht, ?_, A.vault.contents.current_install_self ..,
        A.vault.contents.pending_install_self A.party.environment.now a
          r.clearPending.purgeLegacy _⟩
      refine Vault.load_of_session? (Eq.trans ?_ (Party.session?_of_install hbase hplan))
      exact congrArg (Vault.session? · a) (hvault.trans (Storage.commit_eq_ok hcommit).2)
  · refine .inr ⟨e, hhinders, serve_response_of_error suite A a thread hleg hrole ?_⟩
    rw [hload]
    exact hmade

end Response

/-! ### Any response -/

/-- Whether an exchange is under way at an address under the number of a leg. -/
def Awaits (A : Account) (a : Address) (leg : KeyExchangeMessage) (x : PendingExchange) : Prop :=
  ∃ r, A.vault.load a = .ok r ∧ r.pending = some x ∧ x.sequence = leg.sequence

/-- How an account comes out of a leg that opens no exchange. -/
inductive Responds (suite : Suite) (A : Account) (a : Address) (leg : KeyExchangeMessage) :
    Except SessionError Reply → Account → Prop
  | unreadable {e : StorageError} {A' : Account} (h : A.vault.session? a = .error e) :
    Responds suite A a leg (.error (.storage e)) A'
  | stale {r : SessionRecord} {A' : Account} (hload : A.vault.load a = .ok r)
    (h : ∀ x, r.pending = some x → x.sequence ≠ leg.sequence) :
    Responds suite A a leg (.ok (.outcome (.dropped .stale))) A'
  | refused {x : PendingExchange} {A' : Account} (hx : A.Awaits a leg x)
    (h : A.party.trust.Refuses A.vault a.name leg.identityKey) :
    Responds suite A a leg (.error (.trustRejected a)) A'
  | hindered {x : PendingExchange} {e : SessionError} {A' : Account} (hx : A.Awaits a leg x)
    (htrust : ¬A.party.trust.Refuses A.vault a.name leg.identityKey)
    (h : A.Hinders suite a leg x e) :
    Responds suite A a leg (.error e) A'
  | completed {x : PendingExchange} {o : HandshakeOutcome} {A' : Account} (hx : A.Awaits a leg x)
    (htrust : ¬A.party.trust.Refuses A.vault a.name leg.identityKey) (ho : o.isEstablished = true)
    (h : A'.Concluded suite a leg x) : Responds suite A a leg (.ok (.outcome o)) A'

theorem responds_serve (suite : Suite) (A : Account) (a : Address) (thread : UInt64)
    (hleg : m.leg? = some leg) (hrole : leg.isInitiate = false) :
    A.Responds suite a leg (A.serve suite (.receive a thread m)).1
      (A.serve suite (.receive a thread m)).2 := by
  cases hread : A.vault.session? a with
  | error e =>
    rw [serve_response_of_error suite A a thread hleg hrole (by rw [Vault.load, hread]; rfl)]
    exact .unreadable hread
  | ok o =>
    have hload : A.vault.load a = .ok (o.getD .empty) := by rw [Vault.load, hread]; rfl
    generalize o.getD .empty = r at hload
    cases hanswered : Party.answered? r leg.sequence with
    | none =>
      rw [serve_of_unanswered hleg hrole hload hanswered]
      exact .stale hload (answered?_eq_none_iff.mp hanswered)
    | some x =>
      have hx : A.Awaits a leg x := ⟨r, hload, answered?_eq_some_iff.mp hanswered⟩
      by_cases htrust : A.party.trust.Refuses A.vault a.name leg.identityKey
      · rw [serve_response_of_error suite A a thread hleg hrole (by
          simp only [hload, Except.bind, Party.planResponse, hanswered,
            Trust.require_of_refuses htrust]
          rfl)]
        exact .refused hx htrust
      · obtain ⟨o, ho, hestablished, hconcluded⟩ | ⟨e, hhinders, he⟩ :=
          serve_response suite A a thread hleg hrole hload hanswered htrust
        · rw [ho]
          exact .completed hx htrust hestablished hconcluded
        · rw [he]
          exact .hindered hx htrust hhinders

namespace Responds

variable {result : Except SessionError Reply}

/-- Exactly the responses that answer nothing under way are stale. -/
theorem stale_iff (h : A.Responds suite a leg result A') :
    result = .ok (.outcome (.dropped .stale)) ↔
    ∃ r, A.vault.load a = .ok r ∧ ∀ x, r.pending = some x → x.sequence ≠ leg.sequence := by
  constructor
  · rintro rfl
    cases h with
    | stale hload h => exact ⟨_, hload, h⟩
    | completed hx htrust ho => cases ho
  · rintro ⟨r, hload, hnone⟩
    have hnot (x : PendingExchange) : ¬A.Awaits a leg x := by
      rintro ⟨r', hload', hx, hsequence⟩
      cases hload.symm.trans hload'
      exact hnone x hx hsequence
    cases h with
    | unreadable h => rw [Vault.load, h] at hload; cases hload
    | stale => rfl
    | refused hx | hindered hx | completed hx => exact absurd hx (hnot _)

/-- Exactly the responses that answer the exchange under way with a key that
is refused are rejected. -/
theorem rejected_iff (h : A.Responds suite a leg result A') : result = .error (.trustRejected a) ↔
    (∃ x, A.Awaits a leg x) ∧ A.party.trust.Refuses A.vault a.name leg.identityKey := by
  constructor
  · rintro rfl
    cases h with
    | refused hx h => exact ⟨⟨_, hx⟩, h⟩
    | hindered hx htrust h => cases h
  · rintro ⟨⟨x, r, hload, hx, hsequence⟩, hrefuses⟩
    cases h with
    | unreadable h => rw [Vault.load, h] at hload; cases hload
    | stale hload' h =>
      cases hload.symm.trans hload'
      exact absurd hsequence (h x hx)
    | refused => rfl
    | hindered _ htrust | completed _ htrust => exact absurd hrefuses htrust

/-- Every other response completes the exchange under way unless something hinders it. -/
theorem completed_or_hindered (h : A.Responds suite a leg result A') {x : PendingExchange}
    (hx : A.Awaits a leg x) (htrust : ¬A.party.trust.Refuses A.vault a.name leg.identityKey) :
    (∃ o, result = .ok (.outcome o) ∧ o.isEstablished = true ∧ A'.Concluded suite a leg x) ∨
      ∃ e, result = .error e ∧ A.Hinders suite a leg x e := by
  obtain ⟨r, hload, hpending, hsequence⟩ := hx
  have hsame {x' : PendingExchange} (hx' : A.Awaits a leg x') : x' = x := by
    obtain ⟨r', hload', hpending', -⟩ := hx'
    cases hload.symm.trans hload'
    exact Option.some.inj (hpending'.symm.trans hpending)
  cases h with
  | unreadable h => rw [Vault.load, h] at hload; cases hload
  | stale hload' h =>
    cases hload.symm.trans hload'
    exact absurd hsequence (h x hpending)
  | refused _ h => exact absurd h htrust
  | hindered hx' _ h => exact .inr ⟨_, rfl, hsame hx' ▸ h⟩
  | completed hx' _ ho h => exact .inl ⟨_, rfl, ho, hsame hx' ▸ h⟩

/-- Unless it completes the exchange, a response changes nothing. -/
theorem unchanged {q : Request} (h : A.Responds suite a leg result A')
    (hcomes : A.Comes q result A')
    (hnot : ∀ o, result = .ok (.outcome o) → o.isEstablished = false) : A.Unchanged A' := by
  cases h with
  | unreadable | refused | hindered => exact hcomes.unchanged_of_error
  | stale => exact (hcomes.unchanged_of_dropped rfl).1
  | completed hx htrust ho => cases ho.symm.trans (hnot _ rfl)

end Responds

end Account

/-! ### Where nothing is under way -/

/-- Whether a request puts no exchange under way at an address: it opens none there, and a record
that it gives to be stored has none there and is within bounds. -/
def Request.OpensNone (a : Address) : Request → Prop
  | initiate b _ => b ≠ a
  | store b r => r.IsBounded ∧ (b = a → r.pending = none)
  | _ => True

namespace Account

variable {suite : Suite} {A A' : Account} {a : Address}

/-- Whether the record at an address can be read and has no exchange under way. -/
def IsIdle (A : Account) (a : Address) : Prop := ∃ r, A.vault.load a = .ok r ∧ r.pending = none

theorem Concluded.isIdle {leg : KeyExchangeMessage} {x : PendingExchange}
    (h : A.Concluded suite a leg x) : A.IsIdle a := by
  obtain ⟨t, r, -, hload, -, hpending⟩ := h
  exact ⟨r, hload, hpending⟩

theorem pending_store {t : Turn} {b : Address} {r : SessionRecord} (ht : t.request = .store b r)
    (hr : r.IsBounded) (hb : b = a → r.pending = none) (h : (A.contents.record a).pending = none) :
    ((A.take suite t).2.contents.record a).pending = none := by
  have hcarries := (A.facing t).carries_edit .done fun _ => .ok (Vault.store b r)
  have hserve : A.take suite t = (A.facing t).edit .done fun _ => .ok (Vault.store b r) := by
    rw [take, ht]
    rfl
  rw [← hserve] at hcarries
  unfold contents
  generalize (A.take suite t).1 = result at hcarries
  generalize (A.take suite t).2.vault = v at hcarries ⊢
  cases hcarries with
  | failed => exact h
  | done hmade =>
    cases hmade
    show ((A.vault.apply (Batch.empty.put b r)).contents.record a).pending = none
    rw [A.vault.contents_apply_put Batch.isBounded_empty hr b]
    by_cases hab : a = b
    · subst hab
      rw [Contents.record_put_self]
      exact hb rfl
    · rw [Contents.record_put_of_ne _ hab]
      exact h

/-- Only to open an exchange or to store a record puts an exchange under way. -/
theorem Yields.pending_eq_none {q : Request} {result : Except SessionError Reply} {c : Contents}
    (h : A.Yields suite q result c) (hstore : q.isStore = false) (hq : q.OpensNone a)
    (hnone : (A.contents.record a).pending = none) : (c.record a).pending = none := by
  have hmono {c : Contents} (hopens : A.contents.OpensNone c) : (c.record a).pending = none :=
    Option.eq_none_iff_forall_ne_some.mpr fun x hx => by
      cases hnone.symm.trans (hopens a x hx)
  cases h with
  | failed | dropped | kept | confirmed => exact hnone
  | opened =>
    rw [Contents.record_put_of_ne _ (Ne.symm hq)]
    exact hnone
  | completed => exact hmono (A.contents.opensNone_complete _ _ _ _ _)
  | built | used => exact hmono (Contents.opensNone_install (fun _ hx => hx) _ _)
  | saved => exact (Contents.pending_save ..).trans hnone
  | stored => cases hstore
  | deleted l =>
    dsimp only
    split
    · rfl
    · exact hnone
  | archived l => exact hmono (A.contents.opensNone_archiveAt l)

theorem IsIdle.take (h : A.IsIdle a) (suite : Suite) {t : Turn} (ht : t.request.OpensNone a) :
    (A.take suite t).2.IsIdle a := by
  obtain ⟨r, hload, hnone⟩ := h
  have hpending : (A.contents.record a).pending = none := (Vault.record_of_load hload).symm ▸ hnone
  have hbounded : t.request.StoresBounded := by
    intro b r hstore
    rw [hstore] at ht
    exact ht.1
  obtain ⟨o, hread, -⟩ := bind_eq_ok.mp hload
  obtain ⟨b, hb, hvault⟩ := (comes_take suite A t).vault_eq hbounded
  obtain ⟨o', hread'⟩ : ∃ o', (A.take suite t).2.vault.session? a = .ok o' := by
    have hread : (A.facing t).vault.session? a = .ok o := mapError_eq_ok.mp hread
    rw [hvault, Vault.session?_apply _ hb, hread]
    cases b.staged? a <;> exact ⟨_, rfl⟩
  have hload' : (A.take suite t).2.vault.load a = .ok (o'.getD .empty) := by
    rw [Vault.load, hread']
    rfl
  refine ⟨_, hload', ?_⟩
  rw [← Vault.record_of_load hload']
  cases hstore : t.request.isStore with
  | false => exact (yields_take suite A t).pending_eq_none hstore ht hpending
  | true =>
    cases hrequest : t.request with
    | store b r =>
      rw [hrequest] at ht
      exact pending_store hrequest ht.1 ht.2 hpending
    | _ => rw [hrequest] at hstore; cases hstore

theorem IsIdle.after (suite : Suite) : ∀ (l : List Turn) {A : Account}, A.IsIdle a →
    (∀ t ∈ l, t.request.OpensNone a) → (A.after suite l).IsIdle a
  | [], _, h, _ => h
  | t :: l, _, h, hl =>
    IsIdle.after suite l (h.take suite (hl t List.mem_cons_self)) fun t' ht' =>
      hl t' (List.mem_cons_of_mem t ht')

/-- Whether every response from an address is stale and changes nothing, now and after every run
that puts no exchange under way there. -/
def DropsResponses (suite : Suite) (A : Account) (a : Address) : Prop :=
  ∀ l : List Turn, (∀ t ∈ l, t.request.OpensNone a) → ∀ (t : Turn) (thread : UInt64)
    (m : HandshakeMessage) (leg : KeyExchangeMessage), t.request = .receive a thread m →
    m.leg? = some leg → leg.isInitiate = false →
    ((A.after suite l).take suite t).1 = .ok (.outcome (.dropped .stale)) ∧
      (A.after suite l).Unchanged ((A.after suite l).take suite t).2

theorem IsIdle.dropsResponses (h : A.IsIdle a) (suite : Suite) : A.DropsResponses suite a := by
  intro l hl t thread m leg ht hleg hrole
  obtain ⟨r, hload, hnone⟩ := h.after suite l hl
  have hresponds := responds_serve suite ((A.after suite l).facing t) a thread hleg hrole
  have hcomes := comes_take suite (A.after suite l) t
  have hstale : ((A.after suite l).take suite t).1 = .ok (.outcome (.dropped .stale)) := by
    rw [Account.take, ht]
    refine hresponds.stale_iff.mpr ⟨r, hload, fun x hx => ?_⟩
    cases hnone.symm.trans hx
  rw [hstale] at hcomes
  obtain ⟨hvaults, hprekeys⟩ := (hcomes.unchanged_of_dropped rfl).1
  exact ⟨hstale, hvaults, hprekeys⟩

/-! ### The result -/

/-- Whatever is stored and whatever the policy, a leg that opens no exchange comes out as follows,
whatever else its flags say. It is stale, exactly if the record at its address can be read and has
no exchange of its number under way. Otherwise it is rejected, exactly if another key is on file and
the policy holds on to it; and else it completes the exchange with the pairs that are stored with
it, unless something hinders it. Until it completes the exchange nothing changes, so the exchange
stays under way; once it has, every response from the address is stale, after every run that puts no
other exchange under way there. -/
theorem response_answers_exchange (suite : Suite) (A : Account) (a : Address) (thread : UInt64)
    {m : HandshakeMessage} {leg : KeyExchangeMessage} (hleg : m.leg? = some leg)
    (hrole : leg.isInitiate = false) {result : Except SessionError Reply} {A' : Account}
    (hserve : A.serve suite (.receive a thread m) = (result, A')) :
    (result = .ok (.outcome (.dropped .stale)) ↔
      ∃ r, A.vault.load a = .ok r ∧ ∀ x, r.pending = some x → x.sequence ≠ leg.sequence) ∧
    (∀ e, A.vault.session? a = .error e → result = .error (.storage e)) ∧
    (result = .error (.trustRejected a) ↔
      (∃ x, A.Awaits a leg x) ∧ A.party.trust.Refuses A.vault a.name leg.identityKey) ∧
    (∀ x, A.Awaits a leg x → ¬A.party.trust.Refuses A.vault a.name leg.identityKey →
      (∃ o, result = .ok (.outcome o) ∧ o.isEstablished = true ∧ A'.Concluded suite a leg x) ∨
        ∃ e, result = .error e ∧ A.Hinders suite a leg x e) ∧
    ((∀ o, result = .ok (.outcome o) → o.isEstablished = false) → A.Unchanged A') ∧
    ((∃ o, result = .ok (.outcome o) ∧ o.isEstablished = true) → A'.DropsResponses suite a) := by
  have hresponds := responds_serve suite A a thread hleg hrole
  have hcomes := comes_serve suite A (.receive a thread m)
  rw [hserve] at hresponds hcomes
  refine ⟨hresponds.stale_iff, fun e he => ?_, hresponds.rejected_iff,
    fun x hx htrust => hresponds.completed_or_hindered hx htrust, hresponds.unchanged hcomes, ?_⟩
  · have hfails := serve_response_of_error suite A a thread hleg hrole (by rw [Vault.load, he]; rfl)
    rw [hserve] at hfails
    exact hfails
  · rintro ⟨o, rfl, ho⟩
    cases hresponds with
    | stale => cases ho
    | completed _ _ _ hconcluded => exact hconcluded.isIdle.dropsResponses suite

/-- Bob's response to the exchange under way with his second device completes it. After another
exchange with his first device and the deletion of Carol's records it is stale, as is one under a
key that would be refused. -/
theorem response_answers_exchange_bob :
    let A := sample .rejectChanged sampleVault
    let m := HandshakeMessage.response (sampleLeg 9 8 9 2 .response)
    let A' := (A.serve .plain (.receive ⟨"bob", 2⟩ 7 m)).2
    let l : List Turn := [⟨.initiate ⟨"bob", 1⟩ 7, ⟨.counter 50, 5⟩, .never⟩,
      ⟨.deleteAll "carol", ⟨.counter 50, 6⟩, .never⟩]
    let t (identity : UInt8) : Turn :=
      ⟨.receive ⟨"bob", 2⟩ 7 (.response (sampleLeg 9 8 9 identity .response)),
        ⟨.counter 50, 7⟩, .never⟩
    (∃ o, (A.serve .plain (.receive ⟨"bob", 2⟩ 7 m)).1 = .ok (.outcome o) ∧
      o.isEstablished = true) ∧
    ((A'.after .plain l).take .plain (t 2)).1 = .ok (.outcome (.dropped .stale)) ∧
    ((A'.after .plain l).take .plain (t 4)).1 = .ok (.outcome (.dropped .stale)) := by
  intro A m A' l t
  have hdone : ∃ o, (A.serve .plain (.receive ⟨"bob", 2⟩ 7 m)).1 = .ok (.outcome o) ∧
      o.isEstablished = true :=
    ⟨⟨.established, [.drainPending ⟨"bob", 2⟩, .securityUpdate 7]⟩, by decide +kernel⟩
  have hl : ∀ t ∈ l, t.request.OpensNone ⟨"bob", 2⟩ := by
    intro t ht
    simp only [l, List.mem_cons, List.not_mem_nil, or_false] at ht
    rcases ht with rfl | rfl
    · exact show (⟨"bob", 1⟩ : Address) ≠ ⟨"bob", 2⟩ by decide
    · trivial
  obtain ⟨-, -, -, -, -, hdrops⟩ :=
    response_answers_exchange .plain A ⟨"bob", 2⟩ 7 (m := m) rfl (by decide) rfl
  exact ⟨hdone, (hdrops hdone l hl (t 2) 7 _ _ rfl rfl (by decide)).1,
    (hdrops hdone l hl (t 4) 7 _ _ rfl rfl (by decide)).1⟩

/-- Where the record at the address cannot be read, no exchange is known to be under way there, and
still a response is not stale. -/
theorem response_to_unreadable_record :
    let A := sample .rejectChanged (sampleVault.putRaw ⟨"bob", 2⟩ [0])
    let leg := sampleLeg 9 8 9 2 .response
    (∀ x, ¬A.Awaits ⟨"bob", 2⟩ leg x) ∧
    (A.serve .plain (.receive ⟨"bob", 2⟩ 7 (.response leg))).1 =
      .error (.storage (.corrupted (.unknownFormat 0))) := by
  intro A leg
  have hload : A.vault.load ⟨"bob", 2⟩ = .error (.storage (.corrupted (.unknownFormat 0))) := by
    decide +kernel
  refine ⟨?_, by decide +kernel⟩
  rintro x ⟨r, hr, -⟩
  rw [hload] at hr
  cases hr

end Account

end SecureSession
