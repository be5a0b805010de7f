import Mathlib.Data.Set.Card
import SecureSession.Proofs.Storage.Commits
import SecureSession.Proofs.Storage.Contents

/-! # Storage as a map of values

Storage keeps bytes and takes its writes in batches. Whatever was committed before, it answers as a
plain map of values does: what was written last at an address or under a name is there as it was
written, what was deleted is not, and the writes of one account show in no other. -/

namespace SecureSession

/-! ### Records that can be built -/

/-- The records that operations on records build, out of any sessions and exchanges. -/
inductive SessionRecord.IsBuilt : SessionRecord → Prop
  | empty : IsBuilt .empty
  | decoded {bytes : Bytes} {r : SessionRecord} : decode bytes = .ok r → IsBuilt r
  | archive {r : SessionRecord} : IsBuilt r → IsBuilt r.archive
  | promote {r : SessionRecord} (s : SessionState) : IsBuilt r → IsBuilt (r.promote s)
  | purgeLegacy {r : SessionRecord} : IsBuilt r → IsBuilt r.purgeLegacy
  | modifyCurrent {r : SessionRecord} (f : SessionState → SessionState) :
    IsBuilt r → IsBuilt (r.modifyCurrent f)
  | acknowledge {r : SessionRecord} : IsBuilt r → IsBuilt r.acknowledge
  | setPending {r : SessionRecord} (p : PendingExchange) : IsBuilt r → IsBuilt (r.setPending p)
  | clearPending {r : SessionRecord} : IsBuilt r → IsBuilt r.clearPending

/-- No operation lets an archive grow out of bounds. -/
theorem SessionRecord.IsBuilt.isBounded {r : SessionRecord} (h : r.IsBuilt) : r.IsBounded := by
  induction h with
  | empty => exact isBounded_empty
  | decoded h => exact isBounded_of_decode h
  | archive _ ih => exact ih.archive
  | promote s _ ih => exact ih.promote s
  | purgeLegacy _ ih => exact ih.purgeLegacy
  | modifyCurrent | acknowledge | setPending | clearPending => assumption

/-! ### Writes -/

/-- A call on a batch that is being put together. -/
inductive Write
  | put (a : Address) (r : SessionRecord)
  | delete (a : Address)
  /-- Takes back what is to be written at an address. -/
  | withdraw (a : Address)
  | file (name : String) (r : IdentityRecord)

namespace Batch

/-- The batch after one more call. -/
def write (b : Batch) : Write → Batch
  | .put a r => b.put a r
  | .delete a => b.delete a
  | .withdraw a => b.withdraw a
  | .file name r => b.putIdentity name r

/-- The batch that some calls put together. -/
def ofWrites (l : List Write) : Batch := l.foldl write .empty

end Batch

/-! ### Values -/

/-- A map of values: the session record at every address and the identity under every name. -/
structure Values where
  session : Address → Option SessionRecord
  identity : String → Option IdentityRecord

namespace Values

/-- No values. -/
def empty : Values := ⟨fun _ => none, fun _ => none⟩

/-- The values after one more write of a batch that started from `before`. -/
def write (before now : Values) : Write → Values
  | .put a r => { now with session := Function.update now.session a (some r) }
  | .delete a => { now with session := Function.update now.session a none }
  | .withdraw a => { now with session := Function.update now.session a (before.session a) }
  | .file name r => { now with identity := Function.update now.identity name (some r) }

/-- The values after the writes of a batch. -/
def commit (before : Values) (l : List Write) : Values := l.foldl before.write before

end Values

/-- The values of every account after some commits. -/
def valuesAfter (history : List (String × List Write)) : String → Values :=
  history.foldl (fun m e => Function.update m e.1 ((m e.1).commit e.2)) fun _ => .empty

/-- The storage after some commits. -/
def Storage.commitAll (s : Storage) (history : List (String × List Write)) : Storage :=
  history.foldl (fun s e => (s.commit e.1 (.ofWrites e.2)).2) s

/-! ### Batches -/

/-- A batch that takes the values `before` to the values `now`. -/
structure Batch.Stages (b : Batch) (before now : Values) : Prop where
  session : ∀ a, now.session a = (b.staged? a).getD (before.session a)
  identity : ∀ name, now.identity name = (b.identities.get? name).or (before.identity name)

namespace Batch

theorem stages_empty (m : Values) : empty.Stages m m := ⟨fun _ => rfl, fun _ => rfl⟩

theorem Stages.write {b : Batch} {before now : Values} (h : b.Stages before now) (w : Write) :
    (b.write w).Stages before (before.write now w) := by
  obtain ⟨hsession, hidentity⟩ := h
  cases w with
  | put a r =>
    refine ⟨fun a' => ?_, hidentity⟩
    simp only [Values.write, Batch.write, staged?_put, Function.update_apply, hsession]
    split <;> rfl
  | delete a =>
    refine ⟨fun a' => ?_, hidentity⟩
    simp only [Values.write, Batch.write, staged?_delete, Function.update_apply, hsession]
    split <;> rfl
  | withdraw a =>
    refine ⟨fun a' => ?_, hidentity⟩
    simp only [Values.write, Batch.write, staged?_withdraw, Function.update_apply, hsession]
    split
    · subst a'; rfl
    · rfl
  | file name r =>
    refine ⟨hsession, fun n => ?_⟩
    simp only [Values.write, Batch.write, putIdentity, SortedMap.get?_insert, Function.update_apply,
      hidentity]
    split <;> rfl

theorem IsBounded.write {b : Batch} (h : b.IsBounded) {w : Write}
    (hw : ∀ a r, w = .put a r → r.IsBuilt) : (b.write w).IsBounded := by
  intro a' r' hr
  cases w with
  | put a r => exact h.put (hw a r rfl).isBounded a a' r' hr
  | delete a =>
    rw [Batch.write, stagedRecord?, staged?_delete] at hr
    split at hr
    · cases hr
    · exact h a' r' hr
  | withdraw a =>
    rw [Batch.write, stagedRecord?, staged?_withdraw] at hr
    split at hr
    · cases hr
    · exact h a' r' hr
  | file name r => exact h a' r' hr

theorem stages_foldl (before : Values) : ∀ (l : List Write) {b : Batch} {now : Values},
    (∀ a r, .put a r ∈ l → r.IsBuilt) → b.Stages before now → b.IsBounded →
      (l.foldl write b).Stages before (l.foldl before.write now) ∧ (l.foldl write b).IsBounded
  | [], _, _, _, hb, hbounded => ⟨hb, hbounded⟩
  | w :: l, b, now, hl, hb, hbounded => by
    have hw : ∀ a r, w = .put a r → r.IsBuilt := by
      rintro a r rfl
      exact hl a r List.mem_cons_self
    exact stages_foldl before l (fun a r hr => hl a r (List.mem_cons_of_mem _ hr)) (hb.write w)
      (hbounded.write hw)

/-- A batch put together of writes takes the values to those after the writes. -/
theorem stages_ofWrites (before : Values) {l : List Write} (hl : ∀ a r, .put a r ∈ l → r.IsBuilt) :
    (ofWrites l).Stages before (before.commit l) ∧ (ofWrites l).IsBounded :=
  stages_foldl before l hl (stages_empty before) isBounded_empty

end Batch

/-! ### Vaults -/

/-- Everything that can be read of a vault is as in a map of values. -/
structure Vault.Holds (v : Vault) (m : Values) : Prop where
  session : ∀ a, v.session? a = .ok (m.session a)
  identity : ∀ name, v.identity? name = .ok (m.identity name)

/-- Whatever is asked of a vault, it answers as a map of values does: records and identities as they
are, the addresses and the devices of a peer in order and each once, and their number. -/
structure Vault.AnswersAs (v : Vault) (m : Values) : Prop extends v.Holds m where
  sessions : ∀ l, v.sessions? l = .ok (l.map m.session)
  addresses_sorted : v.addresses.Pairwise fun a b => compare a b = .lt
  mem_addresses : ∀ a, a ∈ v.addresses ↔ (m.session a).isSome
  devices_sorted : ∀ name, (v.devices name).Pairwise (· < ·)
  mem_devices : ∀ name d, d ∈ v.devices name ↔ (m.session ⟨name, d⟩).isSome
  sessionCount : v.sessionCount = {a | (m.session a).isSome}.ncard

namespace Vault

theorem holds_empty : empty.Holds .empty := ⟨fun _ => rfl, fun _ => rfl⟩

theorem Holds.apply {v : Vault} {m now : Values} (h : v.Holds m) {b : Batch} (hb : b.IsBounded)
    (hstages : b.Stages m now) : (v.apply b).Holds now where
  session a := by
    rw [session?_apply v hb, hstages.session]
    cases b.staged? a with
    | none => exact h.session a
    | some staged => rfl
  identity name := by
    rw [identity?_apply, hstages.identity]
    cases b.identities.get? name with
    | none => exact h.identity name
    | some r => rfl

theorem Holds.mem_addresses {v : Vault} {m : Values} (h : v.Holds m) (a : Address) :
    a ∈ v.addresses ↔ (m.session a).isSome := by
  have hread := h.session a
  unfold session? read? at hread
  rw [addresses, SortedMap.mem_keys_iff]
  cases hget : v.sessions.get? a with
  | none =>
    rw [hget] at hread
    have hnone : m.session a = none := (Except.ok.inj hread).symm
    simp [hnone]
  | some bytes =>
    rw [hget] at hread
    dsimp only at hread
    cases hd : SessionRecord.decode bytes with
    | error e => rw [hd] at hread; cases hread
    | ok r =>
      rw [hd] at hread
      have hsome : m.session a = some r := (Except.ok.inj hread).symm
      simp [hsome]

theorem Holds.sessions {v : Vault} {m : Values} (h : v.Holds m) :
    ∀ l, v.sessions? l = .ok (l.map m.session)
  | [] => rfl
  | a :: l => by
    rw [sessions?, List.mapM_cons, h.session a]
    change (v.sessions? l >>= fun more => _) = _
    rw [h.sessions l]
    rfl

theorem Holds.sessionCount {v : Vault} {m : Values} (h : v.Holds m) :
    v.sessionCount = {a | (m.session a).isSome}.ncard := by
  have hset : {a | (m.session a).isSome} = (v.addresses.toFinset : Set Address) := by
    ext a
    simp [h.mem_addresses]
  have hnodup : v.addresses.Nodup := v.sessions.nodup_keys
  rw [hset, Set.ncard_coe_finset, List.toFinset_card_of_nodup hnodup]
  exact (List.length_map _).symm

theorem Holds.answersAs {v : Vault} {m : Values} (h : v.Holds m) : v.AnswersAs m where
  toHolds := h
  sessions := h.sessions
  addresses_sorted := v.sessions.pairwise_keys
  mem_addresses := h.mem_addresses
  devices_sorted := v.pairwise_devices
  mem_devices name d := (v.mem_devices name d).trans (h.mem_addresses _)
  sessionCount := h.sessionCount

end Vault

/-! ### Commits -/

namespace Storage

/-- A storage without faults whose vaults hold the values of their accounts. -/
structure Refines (s : Storage) (m : String → Values) : Prop where
  faults : s.faults = .never
  holds : ∀ account, (s.vault account).Holds (m account)

theorem refines_empty : (empty .never).Refines fun _ => .empty :=
  ⟨rfl, fun _ => Vault.holds_empty⟩

theorem Refines.commit_eq {s : Storage} {m : String → Values} (h : s.Refines m) (account : String)
    (b : Batch) :
    s.commit account b = (.ok (), s.setVault account ((s.vault account).apply b)) := by
  obtain ⟨vaults, faults⟩ := s
  obtain rfl : faults = .never := h.faults
  rfl

/-- One commit keeps a storage in step with the values. -/
theorem Refines.commit {s : Storage} {m : String → Values} (h : s.Refines m) (account : String)
    {l : List Write} (hl : ∀ a r, .put a r ∈ l → r.IsBuilt) :
    (s.commit account (.ofWrites l)).2.Refines
      (Function.update m account ((m account).commit l)) := by
  obtain ⟨hstages, hbounded⟩ := Batch.stages_ofWrites (m account) hl
  rw [h.commit_eq]
  refine ⟨h.faults, fun other => ?_⟩
  by_cases hother : other = account
  · subst hother
    rw [vault_setVault_self, Function.update_self]
    exact (h.holds other).apply hbounded hstages
  · rw [vault_setVault_of_ne s hother, Function.update_of_ne hother]
    exact h.holds other

/-- So do any number of commits. -/
theorem Refines.commitAll {history : List (String × List Write)}
    (hbuilt : ∀ e ∈ history, ∀ a r, .put a r ∈ e.2 → r.IsBuilt) :
    ∀ {s : Storage} {m : String → Values}, s.Refines m → (s.commitAll history).Refines
      (history.foldl (fun m e => Function.update m e.1 ((m e.1).commit e.2)) m) := by
  induction history with
  | nil => exact fun h => h
  | cons e history ih =>
    intro s m h
    exact ih (fun e' he' => hbuilt e' (List.mem_cons_of_mem _ he'))
      (h.commit e.1 (hbuilt e List.mem_cons_self))

/-- After any commits of any accounts, every commit succeeds and every account is answered as by the
map of the values it wrote. -/
theorem answers_as_values {history : List (String × List Write)}
    (hbuilt : ∀ e ∈ history, ∀ a r, .put a r ∈ e.2 → r.IsBuilt) (account : String) :
    (∀ b, (((empty .never).commitAll history).commit account b).1 = .ok ()) ∧
      (((empty .never).commitAll history).vault account).AnswersAs
        (valuesAfter history account) := by
  have h := Refines.commitAll hbuilt refines_empty
  exact ⟨fun b => by rw [h.commit_eq], (h.holds account).answersAs⟩

/-- Two accounts that write about the same peer, once over and once twice in one batch. -/
theorem answers_as_values_of_two :
    let state : SessionState :=
      .fresh default default ⟨default, default, default, none, some ⟨default, 7⟩⟩
    let record : SessionRecord :=
      (SessionRecord.empty.promote state).archive.setPending ⟨1, default, default, default⟩
    let history : List (String × List Write) := [
      ("alice", [.put ⟨"bob", 2⟩ .empty, .put ⟨"bob", 1⟩ record]),
      ("carol", [.put ⟨"bob", 1⟩ .empty, .delete ⟨"bob", 1⟩]),
      ("alice", [.put ⟨"bob", 1⟩ .empty, .withdraw ⟨"bob", 1⟩, .delete ⟨"bob", 2⟩])]
    (((empty .never).commitAll history).vault "alice").session? ⟨"bob", 1⟩ = .ok (some record) ∧
      (((empty .never).commitAll history).vault "alice").session? ⟨"bob", 2⟩ = .ok none ∧
      (((empty .never).commitAll history).vault "carol").session? ⟨"bob", 1⟩ = .ok none := by
  intro state record history
  have hrecord : record.IsBuilt :=
    (SessionRecord.IsBuilt.empty.promote state).archive.setPending ⟨1, default, default, default⟩
  have hbuilt : ∀ e ∈ history, ∀ a r, .put a r ∈ e.2 → r.IsBuilt := by
    intro e he a r hr
    have hcases : r = .empty ∨ r = record := by
      simp only [history, List.mem_cons, List.not_mem_nil, or_false] at he
      rcases he with rfl | rfl | rfl <;> simp at hr <;> tauto
    rcases hcases with rfl | rfl
    · exact .empty
    · exact hrecord
  exact ⟨(answers_as_values hbuilt "alice").2.session ⟨"bob", 1⟩,
    (answers_as_values hbuilt "alice").2.session ⟨"bob", 2⟩,
    (answers_as_values hbuilt "carol").2.session ⟨"bob", 1⟩⟩

end Storage

end SecureSession
