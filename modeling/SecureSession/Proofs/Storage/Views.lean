import Mathlib.Data.List.Nodup
import SecureSession.Handshake.Receive
import SecureSession.Proofs.Storage.Install

/-! # Entries under some names

Two vaults agree on some names where they hold the same bytes under each of them. What is read of
peers with such names, and what is planned for them, is then the same for both vaults, whatever else
they hold; and they still agree once the same batch was applied to both. -/

namespace SecureSession

/-- Whether two vaults hold the same under some names. -/
structure Vault.Agrees (names : Set String) (v w : Vault) : Prop where
  sessions : ∀ a : Address, a.name ∈ names → v.sessions.get? a = w.sessions.get? a
  identities : ∀ name ∈ names, v.identities.get? name = w.identities.get? name

namespace Vault

variable {names : Set String} {v w : Vault} {a : Address}

theorem Agrees.refl (v : Vault) : v.Agrees names v := ⟨fun _ _ => rfl, fun _ _ => rfl⟩

theorem Agrees.trans {u : Vault} (h : u.Agrees names v) (h' : v.Agrees names w) :
    u.Agrees names w where
  sessions a ha := (h.sessions a ha).trans (h'.sessions a ha)
  identities name hname := (h.identities name hname).trans (h'.identities name hname)

theorem Agrees.mono {names' : Set String} (h : v.Agrees names w) (hsub : names' ⊆ names) :
    v.Agrees names' w :=
  ⟨fun a ha => h.sessions a (hsub ha), fun name hname => h.identities name (hsub hname)⟩

theorem Agrees.apply (h : v.Agrees names w) (b : Batch) : (v.apply b).Agrees names (w.apply b) where
  sessions a ha := by rw [get?_sessions_apply, get?_sessions_apply, h.sessions a ha]
  identities name hname := by
    rw [get?_identities_apply, get?_identities_apply, h.identities name hname]

/-- Other bytes under another name go unnoticed. -/
theorem agrees_putRaw (ha : a.name ∉ names) (v : Vault) (bytes : Bytes) :
    (v.putRaw a bytes).Agrees names v where
  sessions c hc := SortedMap.get?_insert_of_ne _ (fun heq => ha (by rw [← heq]; exact hc)) bytes
  identities _ _ := rfl

/-! ### Reading -/

theorem Agrees.session? (h : v.Agrees names w) (ha : a.name ∈ names) :
    v.session? a = w.session? a := by
  unfold Vault.session?
  rw [h.sessions a ha]

theorem Agrees.load (h : v.Agrees names w) (ha : a.name ∈ names) : v.load a = w.load a := by
  unfold Vault.load
  rw [h.session? ha]

theorem Agrees.containsSession (h : v.Agrees names w) (ha : a.name ∈ names) :
    v.containsSession a = w.containsSession a := by
  unfold Vault.containsSession
  rw [h.session? ha]

theorem Agrees.handshakeState (h : v.Agrees names w) (ha : a.name ∈ names) :
    v.handshakeState a = w.handshakeState a := by
  unfold Vault.handshakeState
  rw [h.load ha]

theorem Agrees.loadIdentity {name : String} (h : v.Agrees names w) (hname : name ∈ names) :
    v.loadIdentity name = w.loadIdentity name := by
  unfold Vault.loadIdentity identity?
  rw [h.identities name hname]

theorem Agrees.sessions? (h : v.Agrees names w) : ∀ {l : List Address}, (∀ a ∈ l, a.name ∈ names) →
    v.sessions? l = w.sessions? l
  | [], _ => rfl
  | a :: l, hl => by
    have hrest : l.mapM v.session? = l.mapM w.session? :=
      Agrees.sessions? h fun c hc => hl c (List.mem_cons_of_mem _ hc)
    unfold Vault.sessions?
    rw [List.mapM_cons, List.mapM_cons, h.session? (hl a List.mem_cons_self), hrest]

theorem Agrees.loadExisting (h : v.Agrees names w) {l : List Address}
    (hl : ∀ a ∈ l, a.name ∈ names) : v.loadExisting l = w.loadExisting l := by
  unfold Vault.loadExisting
  rw [h.sessions? hl]

/-- Devices are listed in order, so the same records make the same list. -/
theorem Agrees.devices {name : String} (h : v.Agrees names w) (hname : name ∈ names) :
    v.devices name = w.devices name := by
  have hmem (d : UInt32) : d ∈ v.devices name ↔ d ∈ w.devices name := by
    rw [mem_devices, mem_devices, addresses, addresses, SortedMap.mem_keys_iff,
      SortedMap.mem_keys_iff, h.sessions ⟨name, d⟩ hname]
  have hnodup (u : Vault) : (u.devices name).Nodup := (u.pairwise_devices name).imp UInt32.ne_of_lt
  exact ((List.perm_ext_iff_of_nodup (hnodup v) (hnodup w)).mpr hmem).eq_of_pairwise
    (fun _ _ _ _ hd hd' => absurd hd' (UInt32.lt_asymm hd)) (v.pairwise_devices name)
      (w.pairwise_devices name)

theorem Agrees.addressesOf {name : String} (h : v.Agrees names w) (hname : name ∈ names) :
    v.addressesOf name = w.addressesOf name := by
  unfold Vault.addressesOf
  rw [h.devices hname]

theorem mem_addressesOf {name : String} :
    a ∈ v.addressesOf name ↔ a.name = name ∧ a ∈ v.addresses := by
  unfold Vault.addressesOf
  rw [List.mem_map]
  constructor
  · rintro ⟨d, hd, rfl⟩
    exact ⟨rfl, (mem_devices ..).mp hd⟩
  · rintro ⟨rfl, ha⟩
    exact ⟨a.device, (mem_devices ..).mpr ha, rfl⟩

theorem name_of_mem_addressesOf {name : String} (h : a ∈ v.addressesOf name) : a.name = name :=
  (mem_addressesOf.mp h).1

theorem nodup_addressesOf (v : Vault) (name : String) : (v.addressesOf name).Nodup := by
  refine List.Nodup.map (fun d d' h => congrArg Address.device h) ?_
  exact (v.pairwise_devices name).imp UInt32.ne_of_lt

theorem Agrees.activeAddresses (h : v.Agrees names w) {l : List String}
    (hl : ∀ name ∈ l, name ∈ names) : v.activeAddresses l = w.activeAddresses l := by
  have hlisted : l.flatMap v.addressesOf = l.flatMap w.addressesOf :=
    List.flatMap_congr fun name hname => h.addressesOf (hl name hname)
  have hnames : ∀ a ∈ l.flatMap w.addressesOf, a.name ∈ names := fun a ha => by
    obtain ⟨name, hname, ha⟩ := List.mem_flatMap.mp ha
    rw [name_of_mem_addressesOf ha]
    exact hl name hname
  unfold Vault.activeAddresses
  rw [hlisted]
  generalize l.flatMap w.addressesOf = addresses at hnames
  congr 1
  induction addresses with
  | nil => rfl
  | cons a rest ih =>
    rw [List.filterMapM_cons, List.filterMapM_cons, h.containsSession (hnames a List.mem_cons_self),
      ih fun c hc => hnames c (List.mem_cons_of_mem _ hc)]

/-- Vaults that agree on all names are the same. -/
theorem Agrees.eq (h : v.Agrees Set.univ w) : v = w := by
  obtain ⟨sessions, identities⟩ := v
  obtain ⟨sessions', identities'⟩ := w
  rw [mk.injEq]
  exact ⟨SortedMap.ext_get? fun a => h.sessions a trivial,
    SortedMap.ext_get? fun name => h.identities name trivial⟩

/-! ### Archiving -/

theorem Agrees.loadStaged (h : v.Agrees names w) (ha : a.name ∈ names) (b : Batch) :
    v.loadStaged b a = w.loadStaged b a := by
  unfold Vault.loadStaged
  rw [h.load ha]

theorem Agrees.stageArchive (h : v.Agrees names w) (ha : a.name ∈ names) (acc : Batch × Nat) :
    v.stageArchive acc a = w.stageArchive acc a := by
  unfold Vault.stageArchive
  rw [h.loadStaged ha]

theorem Agrees.foldlM_stageArchive (h : v.Agrees names w) :
    ∀ {l : List Address} (acc : Batch × Nat),
    (∀ a ∈ l, a.name ∈ names) → l.foldlM v.stageArchive acc = l.foldlM w.stageArchive acc
  | [], _, _ => rfl
  | a :: l, acc, hl => by
    rw [List.foldlM_cons, List.foldlM_cons, h.stageArchive (hl a List.mem_cons_self)]
    congr 1
    funext acc'
    exact Agrees.foldlM_stageArchive h acc' fun c hc => hl c (List.mem_cons_of_mem _ hc)

theorem Agrees.archiveAt (h : v.Agrees names w) {l : List Address} (hl : ∀ a ∈ l, a.name ∈ names) :
    v.archiveAt l = w.archiveAt l := by
  unfold Vault.archiveAt
  rw [h.foldlM_stageArchive _ hl]

theorem Agrees.archive (h : v.Agrees names w) (ha : a.name ∈ names) :
    v.archive a = w.archive a := by
  unfold Vault.archive
  rw [h.archiveAt]
  rintro c hc
  rwa [List.mem_singleton.mp hc]

theorem Agrees.archiveSiblings (h : v.Agrees names w) (ha : a.name ∈ names) :
    v.archiveSiblings a = w.archiveSiblings a := by
  unfold Vault.archiveSiblings
  rw [h.addressesOf ha, h.archiveAt]
  intro c hc
  rwa [name_of_mem_addressesOf (List.mem_filter.mp hc).1]

theorem Agrees.stageArchiveAll (h : v.Agrees names w) {name : String} (hname : name ∈ names)
    (b : Batch) : v.stageArchiveAll b name = w.stageArchiveAll b name := by
  unfold Vault.stageArchiveAll stagedDevices
  rw [h.devices hname, h.foldlM_stageArchive]
  intro c hc
  obtain ⟨d, -, rfl⟩ := List.mem_map.mp hc
  exact hname

/-! ### Trust -/

variable {t : Trust}

theorem Agrees.validate (h : v.Agrees names w) (ha : a.name ∈ names) (key : PublicKey) :
    t.validate v a key = t.validate w a key := by
  unfold Trust.validate
  rw [h.loadIdentity ha]

theorem Agrees.require (h : v.Agrees names w) (ha : a.name ∈ names) (key : PublicKey) :
    t.require v a key = t.require w a key := by
  unfold Trust.require
  rw [h.validate ha]

theorem Agrees.stageSave (h : v.Agrees names w) (ha : a.name ∈ names) (now : UInt64)
    (key : PublicKey) (b : Batch) : t.stageSave v now a key b = t.stageSave w now a key b := by
  unfold Trust.stageSave
  rw [h.loadIdentity ha, h.stageArchiveAll ha]

theorem Agrees.save (h : v.Agrees names w) (ha : a.name ∈ names) (now : UInt64) (key : PublicKey) :
    t.save now a key v = t.save now a key w := by
  unfold Trust.save
  rw [h.stageSave ha]

theorem Agrees.mark {name : String} (h : v.Agrees names w) (hname : name ∈ names) (now : UInt64)
    (verification : Verification) (origin : NoticeOrigin) :
    t.mark now name verification origin v = t.mark now name verification origin w := by
  unfold Trust.mark
  rw [h.loadIdentity hname]

theorem Agrees.reconcile {name : String} (h : v.Agrees names w) (hname : name ∈ names)
    (now : UInt64) (key : PublicKey) (verification : Verification) :
    t.reconcile now name key verification v = t.reconcile now name key verification w := by
  unfold Trust.reconcile
  rw [h.loadIdentity hname]

/-! ### Steps of a handshake -/

variable (suite : Suite) {p : Party} (thread : UInt64)

theorem Agrees.install (h : v.Agrees names w) (ha : a.name ∈ names) (now : UInt64)
    (r : SessionRecord) (s : SessionState) : p.install v now a r s = p.install w now a r s := by
  unfold Party.install
  rw [h.stageSave ha]

theorem Agrees.planInitiate (h : v.Agrees names w) (ha : a.name ∈ names) :
    p.planInitiate suite a thread v = p.planInitiate suite a thread w := by
  unfold Party.planInitiate
  rw [h.load ha]

theorem Agrees.planCompletion (h : v.Agrees names w) (ha : a.name ∈ names) (r : SessionRecord)
    (q : PendingExchange) (m : KeyExchangeMessage) (first : List SessionAction) (now : UInt64) :
    p.planCompletion suite a thread r q m first now v =
      p.planCompletion suite a thread r q m first now w := by
  unfold Party.planCompletion
  simp only [h.install ha]

theorem Agrees.planExchange (h : v.Agrees names w) (ha : a.name ∈ names) (m : KeyExchangeMessage) :
    p.planExchange suite a thread m v = p.planExchange suite a thread m w := by
  unfold Party.planExchange Party.planAnswer Party.planResponse
  simp only [h.load ha, h.require ha, h.planCompletion suite thread ha]

theorem Agrees.planFromBundle (h : v.Agrees names w) (ha : a.name ∈ names) (m : PreKeyBundle) :
    p.planFromBundle suite a thread m v = p.planFromBundle suite a thread m w := by
  unfold Party.planFromBundle
  simp only [h.require ha, h.load ha, h.install ha]

theorem Agrees.planFromMessage (h : v.Agrees names w) (ha : a.name ∈ names) (m : PreKeyMessage)
    (now : UInt64) :
    p.planFromMessage suite a thread m now v = p.planFromMessage suite a thread m now w := by
  unfold Party.planFromMessage
  simp only [h.containsSession ha, h.require ha, h.load ha, h.install ha]

theorem Agrees.planReceive (h : v.Agrees names w) (ha : a.name ∈ names) (m : HandshakeMessage) :
    p.planReceive suite a thread m v = p.planReceive suite a thread m w := by
  unfold Party.planReceive
  cases m with
  | bundle m => simp only [h.planFromMessage suite thread ha]
  | initiate m | response m => exact h.planExchange suite thread ha m
  | legacy => rfl

end Vault

end SecureSession
