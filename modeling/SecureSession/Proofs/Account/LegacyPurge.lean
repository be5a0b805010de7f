import SecureSession.Proofs.Account.Requests

/-! # Legacy sessions at the end of an exchange

A leg that completes an exchange drops the archived sessions in versions no longer read and
archives the live one, in this order. So a live session in such a version is archived after the
others were dropped, and it is the only one that stays; what can be read stays in its order, up to
the limit of the archive. -/

namespace SecureSession

namespace SessionRecord

/-! ### Archives in order -/

/-- The sessions of a record that can be read, newest first. -/
def readable (r : SessionRecord) : List SessionState :=
  (r.current.toList ++ r.previous).filter fun s => !s.isLegacy

/-- The archive of a record once the legacy sessions of its archive were dropped and then its live
session was archived. -/
def purgedArchive (r : SessionRecord) : List SessionState :=
  (r.current.toList ++ r.previous.filter fun s => !s.isLegacy).take archiveLimit

/-- Nothing legacy is left in the archive unless the live session was. -/
theorem purgedArchive_readable_iff (r : SessionRecord) :
    (∀ s ∈ r.purgedArchive, s.isLegacy = false) ↔ ∀ s, r.current = some s → s.isLegacy = false := by
  unfold purgedArchive
  constructor
  · intro h s hs
    refine h s ?_
    rw [hs]
    exact List.mem_cons_self
  · intro h s hs
    rcases List.mem_append.mp (List.mem_of_mem_take hs) with hs | hs
    · exact h s (Option.mem_toList.mp hs)
    · simpa using (List.mem_filter.mp hs).2

/-- What can be read stays in order, and only what is beyond the limit is cut. -/
theorem readable_eq_append (r : SessionRecord) : ∃ cut,
    r.readable = (r.purgedArchive.filter fun s => !s.isLegacy) ++ cut ∧
      (cut = [] ∨ r.purgedArchive.length = archiveLimit) := by
  unfold readable purgedArchive
  generalize hall : (r.current.toList ++ r.previous.filter fun s => !s.isLegacy) = all
  have hreadable : (r.current.toList ++ r.previous).filter (fun s => !s.isLegacy) =
      all.filter fun s => !s.isLegacy := by
    rw [← hall, List.filter_append, List.filter_append, List.filter_filter]
    simp
  refine ⟨(all.drop archiveLimit).filter fun s => !s.isLegacy, ?_, ?_⟩
  · rw [hreadable, ← List.filter_append, List.take_append_drop]
  · by_cases hlength : all.length ≤ archiveLimit
    · rw [List.drop_eq_nil_of_le hlength]
      exact .inl rfl
    · rw [List.length_take]
      exact .inr (by omega)

/-- A leg of an exchange leaves the archive that comes of dropping first. -/
theorem previous_archive_base {r : SessionRecord} (hr : r.IsBounded) {m : HandshakeMessage}
    {leg : KeyExchangeMessage} (hleg : m.leg? = some leg) :
    (m.base r).archive.previous = r.purgedArchive := by
  have hbase : m.base r = r.clearPending.purgeLegacy := by cases m <;> first | rfl | cases hleg
  have hbounded : r.clearPending.purgeLegacy.IsBounded := SessionRecord.IsBounded.purgeLegacy hr
  rw [hbase, previous_archive hbounded]
  rfl

end SessionRecord

namespace Account

/-- What a leg that establishes a session leaves of the archive. -/
theorem previous_of_completion {suite : Suite} {A A' : Account} {a : Address} {thread : UInt64}
    {m : HandshakeMessage} {leg : KeyExchangeMessage} {o : HandshakeOutcome}
    (hleg : m.leg? = some leg)
    (hserve : A.serve suite (.receive a thread m) = (.ok (.outcome o), A'))
    (ho : o.isEstablished = true) :
    ∃ r r', A.vault.load a = .ok r ∧ A'.vault.load a = .ok r' ∧ r'.previous = r.purgedArchive := by
  have hcomes := comes_serve suite A (.receive a thread m)
  rw [hserve] at hcomes
  obtain ⟨a', r, s, now, plan, environment, storage, hsite, hload, hplan, hcommit, rfl⟩ :=
    hcomes.of_established ho
  obtain rfl : a = a' := Option.some.inj hsite
  have hr := Vault.record_of_load hload
  have hbounded : r.IsBounded := hr ▸ A.vault.isBounded_record a
  have hbase : (Request.base (.receive a thread m) r).IsBounded := Request.isBounded_base _ hbounded
  have hstored := Party.session?_of_install hbase hplan
  have hafter : (A.vault.apply plan.writes).load a =
      .ok ((A.vault.contents.install now a (m.base r) s).record a) := by
    rw [Vault.load, hstored]
    rfl
  refine ⟨r, (A.vault.contents.install now a (m.base r) s).record a, hload, ?_, ?_⟩
  · rw [vault_of_commit hcommit]
    exact hafter
  · rw [Contents.previous_install_self]
    exact SessionRecord.previous_archive_base hbounded hleg

/-! ### The result -/

/-- A leg that establishes a session leaves an archive of the live session, if there was one,
and the archived ones that were not legacy: no legacy session is in it if and only if the live
one was not legacy, and all that could be read before still is in it, in the same order, but
for what the limit cuts. -/
theorem completion_purges_archived (suite : Suite) {A A' : Account} {a : Address} {thread : UInt64}
    {m : HandshakeMessage} {leg : KeyExchangeMessage} {o : HandshakeOutcome}
    (hleg : m.leg? = some leg)
    (hserve : A.serve suite (.receive a thread m) = (.ok (.outcome o), A'))
    (ho : o.isEstablished = true) :
    ∃ r r', A.vault.load a = .ok r ∧ A'.vault.load a = .ok r' ∧ r'.previous = r.purgedArchive ∧
      ((∀ s ∈ r'.previous, s.isLegacy = false) ↔ ∀ s, r.current = some s → s.isLegacy = false) ∧
      ∃ cut, r.readable = (r'.previous.filter fun s => !s.isLegacy) ++ cut ∧
        (cut = [] ∨ r'.previous.length = SessionRecord.archiveLimit) := by
  obtain ⟨r, r', hload, hload', hprevious⟩ := previous_of_completion hleg hserve ho
  refine ⟨r, r', hload, hload', hprevious, ?_, ?_⟩
  · rw [hprevious]
    exact r.purgedArchive_readable_iff
  · rw [hprevious]
    exact r.readable_eq_append

/-- The session of a sample peer in some version. -/
def agedState (version tag : UInt8) : SessionState := { SessionState.plain 2 tag with version }

/-- An account with a legacy session and one that can be read in the archive of
Bob's, below a live one. -/
def aged (live : SessionState) : Account :=
  sample .rejectChanged <| Vault.empty.apply <| Batch.empty
  |>.put ⟨"bob", 1⟩ (.ofHistory [agedState 1 10, agedState 2 20, live] false none)
  |>.putIdentity "bob" (Trust.firstRecord 0 ⟨.replicate 2⟩)

theorem load_aged (live : SessionState) : (aged live).vault.load ⟨"bob", 1⟩ =
    .ok (.ofHistory [agedState 1 10, agedState 2 20, live] false none) := by
  have hbounded :
      (SessionRecord.ofHistory [agedState 1 10, agedState 2 20, live] false none).IsBounded :=
    show 2 ≤ SessionRecord.archiveLimit by decide
  rw [aged, vault_sample]
  generalize SessionRecord.ofHistory [agedState 1 10, agedState 2 20, live] false none =
    r at hbounded ⊢
  have hwrites := (Batch.isBounded_empty.put hbounded ⟨"bob", 1⟩).putIdentity "bob"
    (Trust.firstRecord 0 ⟨.replicate 2⟩)
  have hstaged : ((Batch.empty.put ⟨"bob", 1⟩ r).putIdentity "bob"
      (Trust.firstRecord 0 ⟨.replicate 2⟩)).staged? ⟨"bob", 1⟩ = some (some r) :=
    (Batch.staged?_put ..).trans (if_pos rfl)
  rw [Vault.load, Vault.session?_apply _ hwrites, hstaged]
  rfl

/-- Bob's initiate. -/
def openingOfBob : HandshakeMessage :=
  .initiate ((PendingExchange.mk 3 (.plain 8) (.plain 9) (.plain 2)).leg .initiate)

/-- What comes of it. -/
def answerToBob : HandshakeOutcome := ⟨.established,
  [.sendHandshake ⟨"bob", 1⟩ 7
    (.response ((PendingExchange.mk 3 (.plain 40) (.plain 41) (.plain 1)).leg .response)),
    .drainPending ⟨"bob", 1⟩, .securityUpdate 7]⟩

/-- With a live session that can be read, no legacy session stays. -/
theorem completion_purges_archived_bob :
    ∃ A' r', (aged (agedState 3 30)).serve .plain (.receive ⟨"bob", 1⟩ 7 openingOfBob) =
        (.ok (.outcome answerToBob), A') ∧ A'.vault.load ⟨"bob", 1⟩ = .ok r' ∧
      r'.previous = [agedState 3 30, agedState 2 20] ∧ ∀ s ∈ r'.previous, s.isLegacy = false := by
  have hanswer : ((aged (agedState 3 30)).serve .plain (.receive ⟨"bob", 1⟩ 7 openingOfBob)).1 =
      .ok (.outcome answerToBob) := by decide +kernel
  rcases hserve : (aged (agedState 3 30)).serve .plain (.receive ⟨"bob", 1⟩ 7 openingOfBob) with
    ⟨result, A'⟩
  rw [hserve] at hanswer
  obtain rfl : result = .ok (.outcome answerToBob) := hanswer
  obtain ⟨r, r', hload, hload', hprevious, hreadable, -⟩ :=
    completion_purges_archived .plain rfl hserve rfl
  rw [load_aged] at hload
  obtain rfl := Except.ok.inj hload
  have hkept : r'.previous = [agedState 3 30, agedState 2 20] := by
    rw [hprevious]
    decide +kernel
  refine ⟨A', r', rfl, hload', hkept, hreadable.mpr fun s hs => ?_⟩
  obtain rfl := Option.some.inj hs
  decide

/-- A live session in a version no longer read is archived where the archive was just cleared of
such sessions. -/
theorem completion_archives_legacy :
    ∃ A' r', (aged (agedState 1 30)).serve .plain (.receive ⟨"bob", 1⟩ 7 openingOfBob) =
        (.ok (.outcome answerToBob), A') ∧ A'.vault.load ⟨"bob", 1⟩ = .ok r' ∧
      ∃ s ∈ r'.previous, s.version < Version.oldest := by
  have hanswer : ((aged (agedState 1 30)).serve .plain (.receive ⟨"bob", 1⟩ 7 openingOfBob)).1 =
      .ok (.outcome answerToBob) := by decide +kernel
  rcases hserve : (aged (agedState 1 30)).serve .plain (.receive ⟨"bob", 1⟩ 7 openingOfBob) with
    ⟨result, A'⟩
  rw [hserve] at hanswer
  obtain rfl : result = .ok (.outcome answerToBob) := hanswer
  obtain ⟨r, r', hload, hload', hprevious⟩ := previous_of_completion rfl hserve rfl
  rw [load_aged] at hload
  obtain rfl := Except.ok.inj hload
  have hkept : r'.previous = [agedState 1 30, agedState 2 20] := by
    rw [hprevious]
    decide +kernel
  exact ⟨A', r', rfl, hload', agedState 1 30, by rw [hkept]; exact List.mem_cons_self, by decide⟩

end Account

end SecureSession
