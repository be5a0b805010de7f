import SecureSession.Proofs.Simulation.Operations
import SecureSession.Proofs.Modular

/-! # What devices store stays consistent

From any seed, with any accounts, random operations never fail, and after each of them
everything stored can be read, archives are within bounds, and every active session is with
the identity on file (`World.consistent_operations`). All a Diffie–Hellman function is asked
for is to be contributory. -/

namespace SecureSession

namespace World

variable {suite : Suite} {w : World}

/-! ### The checks -/

/-- Whether everything a device has stored can be read, archives are within bounds, and active
sessions are with the identity on file. -/
structure IsConsistent (d : Device) : Prop where
  session : ∀ peer bytes, d.vault.sessions.get? peer = some bytes →
    ∃ r, SessionRecord.decode bytes = .ok r ∧ r.previous.length ≤ SessionRecord.archiveLimit ∧
      ∀ s, r.current = some s → r.isActive → ∃ stored i,
        d.vault.identities.get? peer.name = some stored ∧ IdentityRecord.decode stored = .ok i ∧
        i.identityKey = s.remoteIdentity
  identity : ∀ name bytes, d.vault.identities.get? name = some bytes →
    ∃ i, IdentityRecord.decode bytes = .ok i

theorem read?_some {α : Type} {decode : Bytes → Except StorageError α} {bytes : Bytes}
    {r : Option α} (h : Vault.read? decode (some bytes) = .ok r) :
    ∃ a, decode bytes = .ok a ∧ r = some a := by
  cases hd : decode bytes with
  | ok a => rw [Vault.read?, hd] at h; cases h; exact ⟨a, rfl, rfl⟩
  | error e => rw [Vault.read?, hd] at h; cases h

theorem isConsistent_of_isSound {d : Device} (h : d.IsSound suite) : IsConsistent d := by
  refine ⟨fun peer bytes hbytes => ?_, fun name bytes hbytes => ?_⟩
  · obtain ⟨r, hr⟩ := h.readable.session peer
    have hread : Vault.read? SessionRecord.decode (some bytes) = .ok r := by
      rw [← hbytes]; exact hr
    obtain ⟨r, hdecode, rfl⟩ := read?_some hread
    have hrecord : d.contents.record peer = r := by simp [Device.contents, Vault.contents, hr]
    refine ⟨r, hdecode, SessionRecord.isBounded_of_decode hdecode, fun s hs _ => ?_⟩
    obtain ⟨i, hi, hkey⟩ := h.contents.filed peer s (hrecord ▸ hs)
    obtain ⟨o, ho⟩ := h.readable.identity peer.name
    have hfiled : o = some i := by simpa [Device.contents, Vault.contents, ho] using hi
    cases hstored : d.vault.identities.get? peer.name with
    | none =>
      rw [Vault.identity?, hstored] at ho
      rw [← Except.ok.inj ho] at hfiled
      cases hfiled
    | some stored =>
      rw [Vault.identity?, hstored] at ho
      obtain ⟨i', hread, ho'⟩ := read?_some ho
      rw [hfiled] at ho'
      cases ho'
      exact ⟨stored, i, rfl, hread, hkey⟩
  · obtain ⟨o, ho⟩ := h.readable.identity name
    rw [Vault.identity?, hbytes] at ho
    obtain ⟨i, hread, -⟩ := read?_some ho
    exact ⟨i, hread⟩

theorem forM_eq_ok {α ε : Type} {f : α → Except ε Unit} : ∀ {l : List α},
    (∀ x ∈ l, f x = .ok ()) → l.forM f = .ok ()
  | [], _ => rfl
  | a :: l, h => by
    have hcons : (a :: l).forM f = f a >>= fun _ => l.forM f := rfl
    rw [hcons, h a List.mem_cons_self]
    exact forM_eq_ok fun x hx => h x (List.mem_cons_of_mem _ hx)

theorem checkRecord_eq_ok {d : Device} (h : d.IsSound suite) (peer : Address) :
    checkRecord d peer = .ok () := by
  have hbound : ¬SessionRecord.archiveLimit < (d.vault.contents.record peer).previous.length :=
    Nat.not_lt.mpr (d.vault.isBounded_record peer)
  simp only [checkRecord, h.readable.load_eq, h.readable.loadIdentity_eq, Except.mapError, bind,
    Except.bind, hbound, if_false, pure, Except.pure]
  cases hcurrent : (d.vault.contents.record peer).current with
  | none => rfl
  | some s =>
    obtain ⟨i, hi, hkey⟩ := h.contents.filed peer s hcurrent
    rw [Device.contents] at hi
    cases hactive : (d.vault.contents.record peer).isActive <;>
      simp [Option.filter, hi, hkey]

/-- The checks pass on a sound world. -/
theorem IsSound.checkInvariants_eq_ok (h : w.IsSound suite) : w.checkInvariants = .ok () := by
  refine forM_eq_ok fun d hd => forM_eq_ok fun peer _ => ?_
  obtain ⟨a, ha⟩ := SortedMap.mem_values_iff.mp hd
  exact checkRecord_eq_ok (h.devices a d ha).2 peer

end World

/-! ### The result -/

/-- Random operations never fail, from any seed and with any accounts. After each of them the
checks pass and what is stored is consistent, and what any further operation would fail with
is a failure by design. -/
theorem World.consistent_operations {dh : DiffieHellman} (hdh : dh.Contributory) (seed : UInt64)
    (config : SessionConfig) (accounts : List (String × Nat)) (operations : List Operation) :
    ∃ w w', setUp (.tripleAgreement dh) accounts (ofSeed seed config) = .ok () w ∧
      operations.forM (Operation.apply (.tripleAgreement dh)) w = .ok () w' ∧
      w'.checkInvariants = .ok () ∧ (∀ a d, w'.devices.get? a = some d → IsConsistent d) ∧
      ∀ (o : Operation) e v, w'.addresses ≠ [] →
        o.run (.tripleAgreement dh) w'.addresses w' = .error e v → e.IsDesigned := by
  have hs := Suite.completes_tripleAgreement hdh
  obtain ⟨w, hset, h, hclosed, -⟩ := setUp_spec hs.keepsKeys accounts (isSound_ofSeed seed config)
    (isClosed_ofSeed seed config)
  obtain ⟨w', hoperations, h', hclosed', -⟩ := Operation.forM_apply_spec hs operations h hclosed
  exact ⟨w, w', hset, hoperations, h'.checkInvariants_eq_ok,
    fun a d hd => isConsistent_of_isSound (h'.devices a d hd).2,
    fun o e v hw he => Operation.isDesigned_of_run hs h' hclosed' hw he⟩

/-- Two accounts, one of two devices, that open an exchange, lose a commit
and change an identity. -/
theorem World.consistent_operations_modular : ∃ w w',
    setUp .modular [("alice", 2), ("bob", 1)] (ofSeed 1 default) = .ok () w ∧
      [.initiate 0 2, .failNextCommit 2, .deliver 0 2, .rotateIdentity 0, .deliverAll].forM
        (Operation.apply .modular) w = .ok () w' ∧
      w'.checkInvariants = .ok () ∧ (∀ a d, w'.devices.get? a = some d → IsConsistent d) ∧
      ∀ (o : Operation) e v, w'.addresses ≠ [] → o.run .modular w'.addresses w' = .error e v →
        e.IsDesigned :=
  consistent_operations DiffieHellman.contributory_modular 1 default [("alice", 2), ("bob", 1)]
    [.initiate 0 2, .failNextCommit 2, .deliver 0 2, .rotateIdentity 0, .deliverAll]

end SecureSession
