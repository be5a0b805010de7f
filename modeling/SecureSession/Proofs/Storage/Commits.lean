import SecureSession.Proofs.SortedMap
import SecureSession.Storage.Storage

/-! # Carrying out plans

A plan that was made is carried out in one commit, unless it writes nothing. The commit writes all
or, where it fails, nothing. -/

namespace SecureSession.Storage

variable {α : Type} {s s' : Storage} {account : String}

@[simp] theorem vault_setVault_self (s : Storage) (account : String) (v : Vault) :
    (s.setVault account v).vault account = v := by
  simp [vault, setVault]

theorem vault_setVault_of_ne (s : Storage) {account other : String} (h : other ≠ account)
    (v : Vault) : (s.setVault account v).vault other = s.vault other := by
  rw [vault, setVault, SortedMap.get?_insert_of_ne _ h]
  rfl

/-! ### Commits -/

/-- A commit that succeeds was not struck. -/
theorem commit_eq_ok {b : Batch} (h : s.commit account b = (.ok (), s')) :
    s.faults.strike = (false, s'.faults) ∧ s'.vault account = (s.vault account).apply b := by
  unfold commit at h
  split at h
  · cases h
  · rename_i faults hstrike
    cases h
    exact ⟨hstrike, vault_setVault_self ..⟩

theorem commit_eq_error {b : Batch} {e : StorageError} (h : s.commit account b = (.error e, s')) :
    e = .unavailable (.injected b.size) ∧
      ∃ faults, s.faults.strike = (true, faults) ∧ s' = { s with faults } := by
  unfold commit at h
  split at h
  · rename_i faults hstrike
    cases h
    exact ⟨rfl, faults, hstrike, rfl⟩
  · cases h

/-! ### Plans -/

/-- How a storage comes out of carrying out a plan that may not have been made. -/
inductive CarriesOut (s : Storage) (account : String) :
    Except SessionError (Plan α) → Except SessionError α → Storage → Prop
  /-- The plan could not be made. -/
  | refused (e : SessionError) : CarriesOut s account (.error e) (.error e) s
  /-- There is nothing to write. -/
  | idle {plan : Plan α} (h : plan.writes.isEmpty = true) :
    CarriesOut s account (.ok plan) (.ok plan.answer) s
  /-- The commit failed. -/
  | struck {plan : Plan α} {faults : Faults} (hwrites : plan.writes.isEmpty = false)
    (h : s.faults.strike = (true, faults)) :
    CarriesOut s account (.ok plan) (.error (.storage (.unavailable (.injected plan.writes.size))))
      { s with faults }
  | done {plan : Plan α} {s' : Storage} (hwrites : plan.writes.isEmpty = false)
    (h : s.commit account plan.writes = (.ok (), s')) :
    CarriesOut s account (.ok plan) (.ok plan.answer) s'

theorem carriesOut (s : Storage) (account : String) (plan : Except SessionError (Plan α)) :
    s.CarriesOut account plan (s.carryOut account plan).1 (s.carryOut account plan).2 := by
  cases plan with
  | error e => exact .refused e
  | ok plan =>
    unfold carryOut
    dsimp only
    cases hempty : plan.writes.isEmpty with
    | true => exact .idle hempty
    | false =>
      rcases hcommit : s.commit account plan.writes with ⟨e | _, s'⟩
      · obtain ⟨rfl, faults, hstrike, rfl⟩ := commit_eq_error hcommit
        exact .struck hempty hstrike
      · exact .done hempty hcommit

end SecureSession.Storage
