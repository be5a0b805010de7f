import SecureSession.Proofs.Storage.Bounds
import SecureSession.Proofs.Storage.Refinement

/-! # Queries about stored records

Records are asked for by address, by list of addresses, by peer and by peers, and each
question takes another route through the storage. Whatever calls an account has made, all
answers are about one map of records, and once the records of a peer are deleted no answer
knows of the peer any more. -/

namespace SecureSession

/-! ### Lists of addresses -/

theorem SessionRecord.isActive_iff {r : SessionRecord} : r.isActive = true ↔ ∃ s chain,
    r.current = some s ∧ s.version = 3 ∧ s.ratchet.sendingChain = some chain := by
  rw [isActive, canSend, version, Bool.and_eq_true, beq_iff_eq]
  cases r.current with
  | none => simp
  | some s =>
    simp [SessionState.canSend, RatchetState.canSend, Option.isSome_iff_exists, Version.newest,
      and_comm]

/-- A list that is sorted depends on the elements alone. -/
theorem SortedMap.sortUnique_congr {κ : Type} [Ord κ] [Std.TransOrd κ] [Std.LawfulEqOrd κ]
    {l l' : List κ} (h : ∀ k, k ∈ l ↔ k ∈ l') : sortUnique l = sortUnique l' :=
  keys_eq_of_mem_iff fun k => mem_sortUnique.trans ((h k).trans mem_sortUnique.symm)

namespace Vault

variable {v w : Vault}

section Readable
variable (hread : v.Readable)
include hread

theorem Readable.activeAddresses_eq_sortUnique (names : List String) :
    v.activeAddresses names = .ok (SortedMap.sortUnique ((names.flatMap v.addressesOf).filter
      fun a => (v.contents.record a).isActive)) := by
  have hfilter (l : List Address) : (l.filterMapM fun a => do
      return if ← v.containsSession a then some a else none) =
        Except.ok (l.filter fun a => (v.contents.record a).isActive) := by
    induction l with
    | nil => rfl
    | cons a l ih =>
      rw [List.filterMapM_cons, ih, hread.containsSession_eq, List.filter_cons]
      cases (v.contents.record a).isActive <;> rfl
  rw [activeAddresses, hfilter]
  rfl

/-- The addresses listed as active are those of the peers with an active record. -/
theorem Readable.activeAddresses_eq (names : List String) :
    ∃ active, v.activeAddresses names = .ok active ∧
    ∀ a, a ∈ active ↔ a.name ∈ names ∧ (v.contents.record a).isActive = true := by
  refine ⟨_, hread.activeAddresses_eq_sortUnique names, fun a => ?_⟩
  rw [SortedMap.mem_sortUnique, List.mem_filter, List.mem_flatMap]
  constructor
  · rintro ⟨⟨name, hname, ha⟩, hactive⟩
    exact ⟨name_of_mem_addressesOf ha ▸ hname, hactive⟩
  · rintro ⟨hname, hactive⟩
    refine ⟨⟨a.name, hname, mem_addressesOf.mpr ⟨rfl, ?_⟩⟩, hactive⟩
    refine (v.mem_addresses_or a).resolve_right fun hempty => ?_
    rw [hempty] at hactive
    cases hactive

end Readable

/-! ### Answers -/

/-- Every question about records is answered as a map of values says. -/
structure Consults (v : Vault) (m : Values) : Prop where
  load : ∀ a, v.load a = .ok ((m.session a).getD .empty)
  /-- The records at addresses that all have one, in the order of the addresses. -/
  loadExisting : ∀ l records, l.map m.session = records.map some → v.loadExisting l = .ok records
  /-- If one is missing, the places without a record are counted. -/
  loadExisting_missing : ∀ l, (∃ a ∈ l, m.session a = none) →
    v.loadExisting l = .error (.noSession l.length (l.countP fun a => (m.session a).isNone))
  containsSession : ∀ a, v.containsSession a = .ok ((m.session a).any SessionRecord.isActive)
  /-- The other devices of a peer, in order and each once. -/
  subDevices_sorted : ∀ name, (v.subDevices name).Pairwise (· < ·)
  mem_subDevices : ∀ name d, d ∈ v.subDevices name ↔ d ≠ 1 ∧ (m.session ⟨name, d⟩).isSome
  /-- The addresses of some peers with a live session that can be sent on in the third version, in
  order and each once. -/
  activeAddresses : ∀ names, ∃ active, v.activeAddresses names = .ok active ∧
    active.Pairwise (fun a b => compare a b = .lt) ∧
    ∀ a, a ∈ active ↔ a.name ∈ names ∧ ∃ r s chain, m.session a = some r ∧ r.current = some s ∧
      s.version = 3 ∧ s.ratchet.sendingChain = some chain
  /-- Neither order nor repetition of the names matters. -/
  activeAddresses_congr : ∀ names names', (∀ name, name ∈ names ↔ name ∈ names') →
    v.activeAddresses names = v.activeAddresses names'

section Holds
variable {m : Values} (h : v.Holds m)
include h

theorem Holds.readable : v.Readable := ⟨fun a => ⟨_, h.session a⟩, fun name => ⟨_, h.identity name⟩⟩

theorem Holds.record_eq (a : Address) : v.contents.record a = (m.session a).getD .empty := by
  simp only [contents, h.session a]

theorem Holds.loadExisting_eq (l : List Address) : v.loadExisting l =
    if 0 < l.countP (fun a => (m.session a).isNone) then
      .error (.noSession l.length (l.countP fun a => (m.session a).isNone))
    else .ok (l.filterMap m.session) := by
  have hcount : (l.map m.session).countP Option.isNone = l.countP fun a => (m.session a).isNone :=
    List.countP_map ..
  have hkept : (l.map m.session).filterMap id = l.filterMap m.session := List.filterMap_map ..
  rw [Vault.loadExisting, h.sessions l, ← hcount, ← hkept]
  rfl

theorem Holds.isActive_iff (a : Address) : (v.contents.record a).isActive = true ↔
    ∃ r s chain, m.session a = some r ∧ r.current = some s ∧ s.version = 3 ∧
      s.ratchet.sendingChain = some chain := by
  rw [h.record_eq, SessionRecord.isActive_iff]
  cases m.session a with
  | none => simp [SessionRecord.empty]
  | some r => simp

theorem Holds.consults : v.Consults m where
  load a := by rw [h.readable.load_eq, h.record_eq]
  loadExisting l records hl := by
    have hnone : l.countP (fun a => (m.session a).isNone) = 0 := by
      rw [List.countP_eq_zero]
      intro a ha hmissing
      obtain ⟨r, -, hr⟩ := List.mem_map.mp (hl ▸ List.mem_map_of_mem ha)
      rw [← hr] at hmissing
      cases hmissing
    have hkept : l.filterMap m.session = records := by
      have hmap : (l.map m.session).filterMap id = l.filterMap m.session := List.filterMap_map ..
      rw [← hmap, hl, List.filterMap_map]
      exact List.filterMap_some
    rw [h.loadExisting_eq, hnone, hkept]
    rfl
  loadExisting_missing l hl := by
    rw [h.loadExisting_eq, if_pos]
    obtain ⟨a, ha, hnone⟩ := hl
    exact List.countP_pos_iff.mpr ⟨a, ha, by rw [hnone]; rfl⟩
  containsSession a := containsSession_of_ok (h.session a)
  subDevices_sorted name := (v.pairwise_devices name).filter _
  mem_subDevices name d := by
    rw [subDevices, List.mem_filter, mem_devices, h.mem_addresses, and_comm, bne_iff_ne]
    rfl
  activeAddresses names := by
    obtain ⟨active, hactive, hmem⟩ := h.readable.activeAddresses_eq names
    refine ⟨active, hactive, ?_,
      fun a => (hmem a).trans (and_congr_right fun _ => h.isActive_iff a)⟩
    cases hactive.symm.trans (h.readable.activeAddresses_eq_sortUnique names)
    exact SortedMap.pairwise_keys _
  activeAddresses_congr names names' hnames := by
    rw [h.readable.activeAddresses_eq_sortUnique, h.readable.activeAddresses_eq_sortUnique]
    refine congrArg Except.ok (SortedMap.sortUnique_congr fun a => ?_)
    simp only [List.mem_filter, List.mem_flatMap, hnames]

end Holds

end Vault

/-! ### Deleting a peer -/

/-- The values without the records of a peer. -/
def Values.forget (m : Values) (name : String) : Values :=
  { m with session := fun a => if a.name = name then none else m.session a }

namespace Vault

variable {v w : Vault} {m : Values}

/-- What there is to ask once the records of a peer are deleted: nothing is found for the peer, and
for all other peers the answers are as before. -/
structure Forgets (v : Vault) (name : String) (w : Vault) : Prop where
  session : ∀ a : Address, a.name = name → w.session? a = .ok none
  containsSession : ∀ a : Address, a.name = name → w.containsSession a = .ok false
  subDevices : w.subDevices name = []
  /-- Every place with an address of the peer is missing. -/
  loadExisting : ∀ l, (∃ a ∈ l, a.name = name) → ∃ missing,
    l.countP (fun a => a.name = name) ≤ missing ∧
    w.loadExisting l = .error (.noSession l.length missing)
  activeAddresses : ∀ names active, v.activeAddresses names = .ok active →
    w.activeAddresses names = .ok (active.filter fun a => a.name ≠ name)
  session_others : ∀ a : Address, a.name ≠ name → w.session? a = v.session? a
  containsSession_others : ∀ a : Address, a.name ≠ name → w.containsSession a = v.containsSession a
  subDevices_others : ∀ other, other ≠ name → w.subDevices other = v.subDevices other
  loadExisting_others : ∀ l, (∀ a ∈ l, a.name ≠ name) → w.loadExisting l = v.loadExisting l
  activeAddresses_others : ∀ names, name ∉ names → w.activeAddresses names = v.activeAddresses names

theorem Holds.deleteAll (h : v.Holds m) (name : String) :
    (v.apply (v.deleteAll name).writes).Holds (m.forget name) := by
  refine ⟨fun a => ?_, fun n => ?_⟩
  · have hnone : Batch.empty.staged? a = none := rfl
    rw [Vault.deleteAll, session?_apply v (Batch.isBounded_deletes _), Batch.staged?_deletes, hnone,
      Values.forget]
    dsimp only
    by_cases hname : a.name = name
    · rw [if_pos hname]
      by_cases ha : a ∈ v.addresses
      · rw [if_pos (mem_addressesOf.mpr ⟨hname, ha⟩)]
        rfl
      · -- without a record there is nothing to delete
        rw [if_neg fun hmem => ha (mem_addressesOf.mp hmem).2]
        rw [h.mem_addresses, Option.not_isSome_iff_eq_none] at ha
        exact (h.session a).trans (congrArg Except.ok ha)
    · rw [if_neg hname, if_neg fun hmem => hname (name_of_mem_addressesOf hmem)]
      exact h.session a
  · rw [Vault.deleteAll, identity?_apply, Batch.identities_deletes]
    exact h.identity n

theorem agrees_deleteAll (v : Vault) (name : String) :
    (v.apply (v.deleteAll name).writes).Agrees {other | other ≠ name} v where
  sessions a ha := by
    have hnone : Batch.empty.staged? a = none := rfl
    rw [deleteAll, get?_sessions_apply, Batch.staged?_deletes, hnone,
      if_neg fun hmem => ha (name_of_mem_addressesOf hmem)]
    rfl
  identities n _ := by
    rw [deleteAll, get?_identities_apply, Batch.identities_deletes]
    rfl

theorem Holds.forgets (h : v.Holds m) (name : String) :
    v.Forgets name (v.apply (v.deleteAll name).writes) := by
  have hafter := h.deleteAll name
  have hothers := v.agrees_deleteAll name
  have hconsults := hafter.consults
  generalize v.apply (v.deleteAll name).writes = w at hafter hothers hconsults
  have hforgot (a : Address) (ha : a.name = name) : (m.forget name).session a = none := if_pos ha
  refine {
    session := fun a ha => by rw [hafter.session, hforgot a ha]
    containsSession := fun a ha => by rw [hconsults.containsSession, hforgot a ha]; rfl
    subDevices := ?_
    loadExisting := fun l hl => ?_
    activeAddresses := fun names active hactive => ?_
    session_others := fun a ha => hothers.session? ha
    containsSession_others := fun a ha => hothers.containsSession ha
    subDevices_others := fun other hother => ?_
    loadExisting_others := fun l hl => hothers.loadExisting hl
    activeAddresses_others := fun names hnames => hothers.activeAddresses fun other hother heq =>
      hnames (heq ▸ hother) }
  · refine List.eq_nil_iff_forall_not_mem.mpr fun d hd => ?_
    have hstored := ((hconsults.mem_subDevices name d).mp hd).2
    rw [hforgot ⟨name, d⟩ rfl] at hstored
    cases hstored
  · obtain ⟨a, ha, hname⟩ := hl
    refine ⟨_, List.countP_mono_left fun c _ hc => ?_,
      hconsults.loadExisting_missing l ⟨a, ha, hforgot a hname⟩⟩
    rw [hforgot c (of_decide_eq_true hc)]
    rfl
  · obtain ⟨_, hbefore, hsorted, hmem⟩ := h.consults.activeAddresses names
    cases hbefore.symm.trans hactive
    obtain ⟨active', hactive', hsorted', hmem'⟩ := hconsults.activeAddresses names
    rw [hactive']
    refine congrArg Except.ok (SortedMap.eq_of_mem_iff hsorted' (hsorted.filter _) fun a => ?_)
    rw [hmem', List.mem_filter, hmem, decide_eq_true_iff]
    by_cases hname : a.name = name
    · simp [hforgot a hname, hname]
    · have hkept : (m.forget name).session a = m.session a := if_neg hname
      simp [hkept, hname]
  · rw [Vault.subDevices, Vault.subDevices, hothers.devices hother]

end Vault

/-! ### Calls on a storage -/

/-- A call of an account that can change what it has stored. -/
inductive GuardCall
  | store (a : Address) (r : SessionRecord)
  | delete (a : Address)
  | deleteAll (name : String)
  | archive (a : Address)
  | archiveSiblings (a : Address)
  | archiveAll
  /-- Apply a batch that some writes put together. -/
  | commit (l : List Write)

namespace GuardCall

/-- What a call writes. -/
def plan : GuardCall → Vault → Except SessionError (Plan Unit)
  | .store a r, _ => .ok (Vault.store a r)
  | .delete a, _ => .ok (Vault.delete a)
  | .deleteAll name, v => .ok ((v.deleteAll name).map fun _ => ())
  | .archive a, v => (v.archive a).map (·.map fun _ => ())
  | .archiveSiblings a, v => (v.archiveSiblings a).map (·.map fun _ => ())
  | .archiveAll, v => v.archiveAll.map (·.map fun _ => ())
  | .commit l, _ => .ok ⟨.ofWrites l, ()⟩

/-- Whether the records that a call is given are built by operations on records. -/
def IsBuilt : GuardCall → Prop
  | .store _ r => r.IsBuilt
  | .commit l => ∀ a r, .put a r ∈ l → r.IsBuilt
  | .delete _ | .deleteAll _ | .archive _ | .archiveSiblings _ | .archiveAll => True

theorem isBounded_archiveAt {v : Vault} {l : List Address} {p : Plan Nat}
    (h : v.archiveAt l = .ok p) : p.writes.IsBounded := by
  obtain ⟨⟨b, n⟩, hfold, h⟩ := bind_eq_ok.mp h
  cases h
  exact (Vault.leads_of_foldlM Batch.isBounded_empty hfold).bounded

theorem isBounded_plan {c : GuardCall} (hc : c.IsBuilt) {v : Vault} {p : Plan Unit}
    (h : c.plan v = .ok p) : p.writes.IsBounded := by
  cases c with
  | store a r =>
    cases h
    exact Batch.isBounded_empty.put hc.isBounded a
  | delete a =>
    cases h
    exact Batch.isBounded_deletes [a]
  | deleteAll name =>
    cases h
    exact Batch.isBounded_deletes _
  | archive a =>
    obtain ⟨made, hmade, rfl⟩ := map_eq_ok.mp h
    obtain ⟨made', hmade', h⟩ := bind_eq_ok.mp hmade
    cases h
    exact isBounded_archiveAt hmade'
  | archiveSiblings a =>
    obtain ⟨made, hmade, rfl⟩ := map_eq_ok.mp h
    exact isBounded_archiveAt hmade
  | archiveAll =>
    obtain ⟨made, hmade, rfl⟩ := map_eq_ok.mp h
    exact isBounded_archiveAt hmade
  | commit l =>
    cases h
    exact (Batch.stages_ofWrites .empty hc).2

end GuardCall

namespace Storage

/-- The storage after calls of some accounts. -/
def afterCalls (s : Storage) (history : List (String × GuardCall)) : Storage :=
  history.foldl (fun s e => (s.run e.1 e.2.plan).2) s

/-- A storage that never fails and can be read all over. -/
structure IsSound (s : Storage) : Prop where
  faults : s.faults = .never
  readable : ∀ account, (s.vault account).Readable

theorem isSound_empty : (empty .never).IsSound := ⟨rfl, fun _ => Vault.readable_empty⟩

variable {s : Storage} {account : String}

/-- Without failures a plan is carried out. -/
theorem IsSound.run_eq {α : Type} (hs : s.IsSound) {plan : Vault → Except SessionError (Plan α)}
    {p : Plan α} (hp : plan (s.vault account) = .ok p) :
    (s.run account plan).1 = .ok p.answer ∧ (s.run account plan).2.faults = .never ∧
      (s.run account plan).2.vault account = (s.vault account).apply p.writes := by
  have hnever : s.faults.strike = (false, .never) := by rw [hs.faults]; rfl
  have hcarries := s.carriesOut account (plan (s.vault account))
  rw [run]
  generalize (s.carryOut account (plan (s.vault account))).1 = result at hcarries ⊢
  generalize (s.carryOut account (plan (s.vault account))).2 = s' at hcarries ⊢
  rw [hp] at hcarries
  cases hcarries with
  | idle hempty => exact ⟨rfl, hs.faults, (Vault.apply_of_isEmpty _ hempty).symm⟩
  | struck _ hstrike => cases hnever.symm.trans hstrike
  | done _ hcommit =>
    obtain ⟨hstrike, hvault⟩ := commit_eq_ok hcommit
    rw [hnever] at hstrike
    exact ⟨rfl, (congrArg Prod.snd hstrike).symm, hvault⟩

/-- One call, whether or not it has a plan, leaves a storage that can be read. -/
theorem IsSound.call (hs : s.IsSound) (account : String) {c : GuardCall} (hc : c.IsBuilt) :
    (s.run account c.plan).2.IsSound := by
  cases hp : c.plan (s.vault account) with
  | error e =>
    rw [run, hp]
    exact hs
  | ok p =>
    obtain ⟨-, hfaults, hvault⟩ := hs.run_eq hp
    refine ⟨hfaults, fun other => ?_⟩
    by_cases hother : other = account
    · subst hother
      rw [hvault]
      exact (hs.readable other).apply (GuardCall.isBounded_plan hc hp)
    · rw [run, vault_carryOut_of_ne s hother]
      exact hs.readable other

theorem IsSound.afterCalls {history : List (String × GuardCall)}
    (hbuilt : ∀ e ∈ history, e.2.IsBuilt) :
    ∀ {s : Storage}, s.IsSound → (s.afterCalls history).IsSound := by
  induction history with
  | nil => exact fun hs => hs
  | cons e history ih =>
    intro s hs
    exact ih (fun e' he' => hbuilt e' (List.mem_cons_of_mem _ he'))
      (hs.call e.1 (hbuilt e List.mem_cons_self))

end Storage

theorem Vault.Readable.exists_holds {v : Vault} (hread : v.Readable) : ∃ m, v.Holds m := by
  choose session hsession using hread.session
  choose identity hidentity using hread.identity
  exact ⟨⟨session, identity⟩, hsession, hidentity⟩

theorem Vault.Holds.length_devices {v : Vault} {m : Values} (h : v.Holds m) (name : String) :
    (v.devices name).length = {a : Address | a.name = name ∧ (m.session a).isSome}.ncard := by
  have hset : {a : Address | a.name = name ∧ (m.session a).isSome} =
      ((v.addressesOf name).toFinset : Set Address) := by
    ext a
    simp [mem_addressesOf, h.mem_addresses]
  rw [hset, Set.ncard_coe_finset, List.toFinset_card_of_nodup (v.nodup_addressesOf name)]
  exact (List.length_map _).symm

namespace Storage

/-- Whatever calls accounts have made, all that can be asked about the records of one of them is
answered as one map of values says. To delete the records of a peer counts them, and from then on
nothing is found for the peer, while all other answers stay. -/
theorem queries_agree {history : List (String × GuardCall)} (hbuilt : ∀ e ∈ history, e.2.IsBuilt)
    (account : String) :
    let s := (empty .never).afterCalls history
    ∃ m : Values, (s.vault account).Holds m ∧ (s.vault account).Consults m ∧
      ∀ name, ∃ s', s.run account (fun v => .ok (v.deleteAll name)) =
          (.ok {a : Address | a.name = name ∧ (m.session a).isSome}.ncard, s') ∧
        (s.vault account).Forgets name (s'.vault account) ∧
        (s'.vault account).Consults (m.forget name) := by
  intro s
  have hs : s.IsSound := isSound_empty.afterCalls hbuilt
  obtain ⟨m, hm⟩ := (hs.readable account).exists_holds
  refine ⟨m, hm, hm.consults, fun name => ?_⟩
  let plan : Vault → Except SessionError (Plan Nat) := fun v => .ok (v.deleteAll name)
  have hmade : plan (s.vault account) = .ok ((s.vault account).deleteAll name) := rfl
  obtain ⟨hanswer, -, hvault⟩ := hs.run_eq hmade
  refine ⟨_, Prod.ext (hanswer.trans (congrArg Except.ok (hm.length_devices name))) rfl, ?_, ?_⟩
  · rw [hvault]
    exact hm.forgets name
  · rw [hvault]
    exact (hm.deleteAll name).consults

/-- Calls about Bob and Bobby: of Bob's devices one has a session, one has only an exchange under
way and one is archived, and Bobby's second device can only be received from. -/
def sampleCalls : List (String × GuardCall) :=
  let ratchet : RatchetState := ⟨default, default, default, some ⟨default, 3⟩, some ⟨default, 7⟩⟩
  let live := SessionRecord.empty.promote (.fresh default default ratchet)
  let receiving :=
    SessionRecord.empty.promote (.fresh default default { ratchet with sendingChain := none })
  let opened := SessionRecord.empty.setPending ⟨1, default, default, default⟩
  [("alice", .store ⟨"bob", 3⟩ live), ("alice", .store ⟨"bobby", 1⟩ live),
    ("carol", .store ⟨"bob", 4⟩ live),
    ("alice", .commit [.put ⟨"bob", 1⟩ live, .put ⟨"bob", 2⟩ opened, .put ⟨"bobby", 2⟩ receiving]),
    ("alice", .archive ⟨"bob", 3⟩)]

theorem isBuilt_sampleCalls : ∀ e ∈ sampleCalls, e.2.IsBuilt := by
  have hlive (s : SessionState) : (SessionRecord.empty.promote s).IsBuilt := .promote s .empty
  intro e he
  simp only [sampleCalls, List.mem_cons, List.not_mem_nil, or_false] at he
  rcases he with rfl | rfl | rfl | rfl | rfl
  · exact hlive _
  · exact hlive _
  · exact hlive _
  · intro a r hr
    simp only [List.mem_cons, List.not_mem_nil, or_false, Write.put.injEq] at hr
    rcases hr with ⟨-, rfl⟩ | ⟨-, rfl⟩ | ⟨-, rfl⟩
    · exact hlive _
    · exact .setPending _ .empty
    · exact hlive _
  · trivial

/-- Bob's three records are deleted, and Bobby's session is still there. -/
theorem queries_agree_bob_bobby :
    let s := (empty .never).afterCalls sampleCalls
    let v := s.vault "alice"
    (∀ e ∈ sampleCalls, e.2.IsBuilt) ∧
    v.loadExisting [⟨"bob", 2⟩, ⟨"bob", 4⟩, ⟨"bob", 2⟩] = .error (.noSession 3 1) ∧
    v.subDevices "bob" = [2, 3] ∧
    v.activeAddresses ["bobby", "bob", "bob"] = .ok [⟨"bob", 1⟩, ⟨"bobby", 1⟩] ∧
    ∃ s', s.run "alice" (fun v => .ok (v.deleteAll "bob")) = (.ok 3, s') ∧
      v.Forgets "bob" (s'.vault "alice") ∧
      (s'.vault "alice").activeAddresses ["bobby", "bob", "bob"] = .ok [⟨"bobby", 1⟩] := by
  intro s v
  have hactive : v.activeAddresses ["bobby", "bob", "bob"] = .ok [⟨"bob", 1⟩, ⟨"bobby", 1⟩] := by
    decide +kernel
  have hthree : (s.run "alice" (fun v => .ok (v.deleteAll "bob"))).1 = .ok 3 := by decide +kernel
  obtain ⟨m, -, -, hdeletes⟩ := queries_agree isBuilt_sampleCalls "alice"
  obtain ⟨s', hrun, hforgets, -⟩ := hdeletes "bob"
  exact ⟨isBuilt_sampleCalls, by decide +kernel, by decide +kernel, hactive, s',
    Prod.ext hthree (congrArg Prod.snd hrun :), hforgets, hforgets.activeAddresses _ _ hactive⟩

end Storage

end SecureSession
