import SecureSession.Proofs.Account.Requests

/-! # Requests that fail

A request that fails leaves all stored bytes and all prekeys as they were, at whatever point it
fails: so does a message that is dropped. -/

namespace SecureSession.Account

/-- Whether all stored content and all prekeys are as before. -/
structure Unchanged (A A' : Account) : Prop where
  vaults : A'.storage.vaults = A.storage.vaults
  prekeys : A'.party.prekeys = A.party.prekeys

variable {A A' : Account} {q : Request}

theorem Unchanged.vault_eq (h : A.Unchanged A') (haccount : A'.party.account = A.party.account) :
    A'.vault = A.vault := by
  rw [vault, vault, haccount, Storage.vault, Storage.vault, h.vaults]

theorem Comes.unchanged_of_error {e : SessionError} (h : A.Comes q (.error e) A') :
    A.Unchanged A' := by
  cases h with
  | failed => exact ⟨rfl, rfl⟩

/-- A message that is dropped asks for nothing. -/
theorem Comes.unchanged_of_dropped {o : HandshakeOutcome} (h : A.Comes q (.ok (.outcome o)) A')
    (ho : o.status.isDropped = true) : A.Unchanged A' ∧ o.actions = [] := by
  cases h with
  | idle environment hreply => exact ⟨⟨rfl, rfl⟩, (hreply o rfl).2⟩
  | committed environment hwrites hcommit =>
    cases hwrites with
    | opened | installed => cases ho
    | deleted l hreply => exact absurd rfl (hreply o)
    | archived h hreply => exact absurd rfl (hreply o)

/-- A request that fails, and a message that is dropped, changes nothing stored and no prekey. -/
theorem unchanged_of_refused (suite : Suite) (A : Account) (q : Request) :
    (∀ e, (A.serve suite q).1 = .error e → A.Unchanged (A.serve suite q).2) ∧
    ∀ o, (A.serve suite q).1 = .ok (.outcome o) → o.status.isDropped = true →
      A.Unchanged (A.serve suite q).2 ∧ o.actions = [] := by
  have hcomes := comes_serve suite A q
  refine ⟨fun e he => ?_, fun o ho hdropped => ?_⟩
  · rw [he] at hcomes
    exact hcomes.unchanged_of_error
  · rw [ho] at hcomes
    exact hcomes.unchanged_of_dropped hdropped

/-- A first message under a new key is trusted and makes a ratchet, and fails only when
the record of another device of the peer turns out to be unreadable; a response that
answers nothing is dropped. -/
theorem unchanged_of_unreadable_sibling :
    let A := sample .acceptChanged (sampleVault.putRaw ⟨"bob", 2⟩ [])
    let q := Request.receive ⟨"bob", 1⟩ 7 (sampleMessage 4)
    let q' := Request.receive ⟨"bob", 1⟩ 7
      (.response ((PendingExchange.mk 3 (.plain 8) (.plain 9) (.plain 2)).leg .response))
    (A.serve .plain q).1 = .error (.storage (.corrupted .emptyRecord)) ∧
    A.Unchanged (A.serve .plain q).2 ∧
    (A.serve .plain q').1 = .ok (.outcome (.dropped .stale)) ∧
    A.Unchanged (A.serve .plain q').2 := by
  intro A q q'
  have herror : (A.serve .plain q).1 = .error (.storage (.corrupted .emptyRecord)) := by
    decide +kernel
  have hstale : (A.serve .plain q').1 = .ok (.outcome (.dropped .stale)) := by decide +kernel
  exact ⟨herror, (unchanged_of_refused .plain A q).1 _ herror, hstale,
    ((unchanged_of_refused .plain A q').2 _ hstale rfl).1⟩

end SecureSession.Account
