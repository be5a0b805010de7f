import SecureSession.Proofs.Account.Failure

/-! # Pinned identities

Under the policy that rejects changed keys, the key once on file for a peer stays, and every session
that is installed with a device of the peer is with that key. `Contents.Pins` says what one request
keeps, and is transitive, so it holds over a run. Requests that bypass the check of keys, to file a
key or to store a record as it is, are left out. -/

namespace SecureSession

/-! ### States of a record -/

namespace SessionRecord

/-- All sessions of a record, live and archived. -/
def states (r : SessionRecord) : List SessionState := r.current.toList ++ r.previous

variable {r : SessionRecord} {s s' : SessionState}

theorem mem_states_of_archive (h : s ∈ r.archive.states) : s ∈ r.states := by
  unfold archive at h
  split at h
  · exact h
  · rename_i t ht
    have hs : s ∈ t :: r.previous := List.mem_of_mem_take h
    simpa [states, ht] using hs

theorem mem_states_of_promote (h : s ∈ (r.promote s').states) : s = s' ∨ s ∈ r.states := by
  rcases List.mem_cons.mp h with h | h
  · exact .inl h
  · refine .inr (mem_states_of_archive ?_)
    exact List.mem_append_right _ h

theorem mem_states_of_purgeLegacy (h : s ∈ r.purgeLegacy.states) : s ∈ r.states := by
  rcases List.mem_append.mp h with h | h
  · exact List.mem_append_left _ h
  · exact List.mem_append_right _ (List.mem_filter.mp h).1

end SessionRecord

theorem HandshakeMessage.mem_states_of_base {m : HandshakeMessage} {r : SessionRecord}
    {s : SessionState} (h : s ∈ (m.base r).states) : s ∈ r.states := by
  cases m with
  | initiate | response =>
    have hpurged : s ∈ r.purgeLegacy.states := h
    exact SessionRecord.mem_states_of_purgeLegacy hpurged
  | bundle | legacy => exact h

theorem Request.mem_states_of_base {q : Request} {r : SessionRecord} {s : SessionState}
    (h : s ∈ (q.base r).states) : s ∈ r.states := by
  cases q with
  | receive => exact HandshakeMessage.mem_states_of_base h
  | _ => exact h

/-! ### Pinning -/

namespace Contents

/-- Whether a session at an address is with the identity on file for the peer. -/
def Vouches (c : Contents) (a : Address) (s : SessionState) : Prop :=
  ∃ i, c.filed a.name = some i ∧ i.identityKey = s.remoteIdentity

/-- Whether later contents keep every key on file, and have only sessions that were there before or
are with the key on file. -/
structure Pins (c c' : Contents) : Prop where
  filed : ∀ name i, c.filed name = some i → ∃ i', c'.filed name = some i' ∧
    i'.identityKey = i.identityKey
  states : ∀ a s, s ∈ (c'.record a).states → s ∈ (c.record a).states ∨ c'.Vouches a s

theorem Pins.trans {c c' c'' : Contents} (h : c.Pins c') (h' : c'.Pins c'') : c.Pins c'' where
  filed name i hi := by
    obtain ⟨i', hi', hkey⟩ := h.filed name i hi
    obtain ⟨i'', hi'', hkey'⟩ := h'.filed name i' hi'
    exact ⟨i'', hi'', hkey'.trans hkey⟩
  states a s hs := by
    rcases h'.states a s hs with hs | hs
    · rcases h.states a s hs with hs | ⟨i, hi, hkey⟩
      · exact .inl hs
      · obtain ⟨i', hi', hkey'⟩ := h'.filed a.name i hi
        exact .inr ⟨i', hi', hkey'.trans hkey⟩
    · exact .inr hs

/-- Where identities are left alone and no session is new, everything is pinned. -/
theorem pins_of_filed_eq {c c' : Contents} (hfiled : c'.filed = c.filed)
    (hstates : ∀ a s, s ∈ (c'.record a).states → s ∈ (c.record a).states) : c.Pins c' :=
  ⟨fun name i hi => ⟨i, by rw [hfiled]; exact hi, rfl⟩, fun a s hs => .inl (hstates a s hs)⟩

theorem Pins.refl (c : Contents) : c.Pins c := pins_of_filed_eq rfl fun _ _ h => h

variable {c : Contents}

theorem pins_put {a : Address} {r : SessionRecord} (hr : ∀ s ∈ r.states, s ∈ (c.record a).states) :
    c.Pins (c.put a r) := by
  refine pins_of_filed_eq rfl fun b s hs => ?_
  by_cases hb : b = a
  · subst hb
    rw [record_put_self] at hs
    exact hr s hs
  · rwa [record_put_of_ne _ hb] at hs

theorem pins_archiveAt (l : List Address) : c.Pins (c.archiveAt l) := by
  refine pins_of_filed_eq rfl fun a s hs => ?_
  simp only [archiveAt] at hs
  split at hs
  · exact SessionRecord.mem_states_of_archive hs
  · exact hs

/-- Another record of the same key may be filed. -/
theorem pins_file {name : String} {r r' : IdentityRecord} (hr : c.filed name = some r)
    (hkey : r'.identityKey = r.identityKey) : c.Pins (c.file name r') := by
  refine ⟨fun n i hi => ?_, fun a s hs => .inl hs⟩
  by_cases hn : n = name
  · subst hn
    rw [hr] at hi
    cases hi
    exact ⟨r', filed_file_self .., hkey⟩
  · exact ⟨i, by rw [filed_file_of_ne _ hn]; exact hi, rfl⟩

section Install
variable {a : Address} {r : SessionRecord} {s : SessionState} (now : UInt64)

theorem vouches_install : (c.install now a r s).Vouches a s := c.filed_install_self now a r s

/-- A session under the key on file, or under the first key of a peer, may be installed. -/
theorem pins_install (hr : ∀ s ∈ r.states, s ∈ (c.record a).states)
    (htrust : ∀ i, c.filed a.name = some i → i.identityKey = s.remoteIdentity) :
    c.Pins (c.install now a r s) := by
  refine ⟨fun name i hi => ?_, fun b s' hs' => ?_⟩
  · by_cases hname : name = a.name
    · subst hname
      obtain ⟨i', hi', hkey⟩ := c.filed_install_self now a r s
      exact ⟨i', hi', hkey.trans (htrust i hi).symm⟩
    · exact ⟨i, by rw [filed_install_of_ne _ _ _ _ _ hname]; exact hi, rfl⟩
  · by_cases hb : b = a
    · subst hb
      rw [install, record_put_self] at hs'
      rcases SessionRecord.mem_states_of_promote hs' with rfl | hs'
      · exact .inr (vouches_install now)
      · refine .inl (hr s' ?_)
        rcases (c.put b r).record_save_cases now b.name s.remoteIdentity b with h | ⟨-, h⟩ <;>
          rw [h, record_put_self] at hs'
        · exact hs'
        · exact SessionRecord.mem_states_of_archive hs'
    · rcases c.record_install_of_ne now a r s hb with h | ⟨-, h⟩ <;> rw [h] at hs'
      · exact .inl hs'
      · exact .inl (SessionRecord.mem_states_of_archive hs')

end Install

end Contents

/-! ### Trust -/

/-- Where changed keys are rejected, a key that may be used is the one on file, if there is one. -/
theorem Trust.eq_of_require {t : Trust} (ht : t.policy = .rejectChanged) {v : Vault} {a : Address}
    {key : PublicKey} (h : t.require v a key = .ok ()) {i : IdentityRecord}
    (hi : v.contents.filed a.name = some i) : i.identityKey = key := by
  obtain ⟨trusted, hvalid, h⟩ := bind_eq_ok.mp h
  obtain ⟨o, hload, hvalid⟩ := bind_eq_ok.mp hvalid
  rw [Vault.filed_of_loadIdentity hload] at hi
  subst hi
  cases hvalid
  by_cases hkey : i.identityKey = key
  · exact hkey
  · simp only [ht, hkey] at h
    cases h

/-! ### Requests -/

/-- Whether the keys and sessions that a request brings in pass the check of keys. -/
def Request.isChecked : Request → Bool
  | save .. | store .. => false
  | _ => true

theorem Request.Writes.pins {p : Party} {v : Vault} {q : Request} {b : Batch} {reply : Reply}
    {consumed : Option UInt32} (h : q.Writes p v b reply consumed)
    (hpolicy : p.trust.policy = .rejectChanged) (hq : q.isChecked = true) :
    v.contents.Pins (v.apply b).contents := by
  cases h with
  | @opened _ a r x actions hload =>
    obtain rfl := Vault.record_of_load hload
    have hbounded : ((v.contents.record a).setPending x).IsBounded := v.isBounded_record a
    rw [v.contents_apply_put Batch.isBounded_empty hbounded]
    exact Contents.pins_put fun _ hs => hs
  | @installed _ a r s now plan actions hsite hload htrust hplan =>
    obtain rfl := Vault.record_of_load hload
    have hbounded := q.isBounded_base (v.isBounded_record a)
    rw [(Party.writes_of_install hbounded hplan).1.contents]
    exact Contents.pins_install now (fun _ hs => Request.mem_states_of_base hs)
      fun i hi => Trust.eq_of_require hpolicy htrust hi
  | saved | stored => cases hq
  | @confirmed _ name r verification now u hload =>
    rw [v.contents_apply_putIdentity Batch.isBounded_empty]
    exact Contents.pins_file (Vault.filed_of_loadIdentity hload) rfl
  | deleted l hreply =>
    rw [v.contents_apply_deletes]
    refine Contents.pins_of_filed_eq rfl fun a s hs => ?_
    dsimp only at hs
    split at hs
    · cases hs
    · exact hs
  | archived hstage hreply =>
    rw [(Vault.leads_of_foldlM Batch.isBounded_empty hstage).contents]
    exact Contents.pins_archiveAt _

namespace Account

variable {A A' : Account} {q : Request}

theorem Comes.pins {result : Except SessionError Reply} (h : A.Comes q result A')
    (hpolicy : A.party.trust.policy = .rejectChanged) (hq : q.isChecked = true) :
    A.contents.Pins A'.contents := by
  cases h with
  | failed | idle | published => exact .refl _
  | @committed _ b reply consumed s environment hwrites hcommit =>
    rw [contents, contents, vault_of_commit hcommit]
    exact hwrites.pins hpolicy hq

/-! ### Turns -/

variable {suite : Suite}

/-- What one turn keeps, a run keeps. -/
theorem pins_after : ∀ (l : List Turn) {A : Account}, A.party.trust.policy = .rejectChanged →
    (∀ t ∈ l, t.request.isChecked = true) → A.contents.Pins (A.after suite l).contents
  | [], A, _, _ => .refl _
  | t :: l, A, hpolicy, hl => by
    have hturn : A.contents.Pins (A.take suite t).2.contents :=
      (comes_take suite A t).pins hpolicy (hl t List.mem_cons_self)
    have hpolicy' : (A.take suite t).2.party.trust.policy = .rejectChanged := by
      rw [(keeps_take suite A t).trust, hpolicy]
    exact hturn.trans (pins_after l hpolicy' fun t' ht' => hl t' (List.mem_cons_of_mem _ ht'))

/-- A step that establishes a session leaves it live, with the identity then on file. -/
theorem Comes.vouches_of_established {o : HandshakeOutcome} {a : Address}
    (h : A.Comes q (.ok (.outcome o)) A') (ho : o.isEstablished = true) (hsite : q.site? = some a) :
    ∃ s, (A'.contents.record a).current = some s ∧ A'.contents.Vouches a s := by
  obtain ⟨a', r, s, now, plan, environment, storage, hsite', hload, hplan, hcommit, rfl⟩ :=
    h.of_established ho
  obtain rfl : a' = a := Option.some.inj (hsite'.symm.trans hsite)
  obtain rfl := Vault.record_of_load hload
  have hbounded := q.isBounded_base (A.vault.isBounded_record a')
  rw [contents, vault_of_commit hcommit, (Party.writes_of_install hbounded hplan).1.contents]
  exact ⟨s, Contents.current_install_self .., Contents.vouches_install now⟩

/-- Under the policy that rejects changed keys, a key on file stays on file over any run of checked
requests; every session found after a run was there before it, or is with the key on file; and a
session that a turn establishes is live, and with the key on file, after the turn. -/
theorem identity_pinned (suite : Suite) {A : Account}
    (hpolicy : A.party.trust.policy = .rejectChanged) (l l' : List Turn)
    (hl : ∀ t ∈ l ++ l', t.request.isChecked = true) :
    (∀ name i, (A.after suite l).contents.filed name = some i →
      ∃ i', (A.after suite (l ++ l')).contents.filed name = some i' ∧
        i'.identityKey = i.identityKey) ∧
    (∀ a s, s ∈ ((A.after suite l).contents.record a).states →
      s ∈ (A.contents.record a).states ∨ (A.after suite l).contents.Vouches a s) ∧
    ∀ t o a, ((A.after suite l).take suite t).1 = .ok (.outcome o) → o.isEstablished = true →
      t.request.site? = some a →
      ∃ s, (((A.after suite l).take suite t).2.contents.record a).current = some s ∧
        ((A.after suite l).take suite t).2.contents.Vouches a s := by
  have hbefore : ∀ t ∈ l, t.request.isChecked = true := fun t ht => hl t (List.mem_append_left _ ht)
  have hrest : ∀ t ∈ l', t.request.isChecked = true := fun t ht => hl t (List.mem_append_right _ ht)
  refine ⟨?_, (pins_after l hpolicy hbefore).states, fun t o a hanswer ho hsite => ?_⟩
  · rw [after_append]
    exact (pins_after l' (by rw [(keeps_after suite l A).trust, hpolicy]) hrest).filed
  · have hcomes := comes_take suite (A.after suite l) t
    rw [hanswer] at hcomes
    exact hcomes.vouches_of_established ho hsite

/-- Dave is met at the second attempt, since the first commit fails. -/
def meetingDave : List Turn :=
  [⟨.receive ⟨"dave", 1⟩ 7 (sampleMessage 4), ⟨.counter 60, 5⟩, Faults.never.arm⟩,
    ⟨.receive ⟨"dave", 1⟩ 7 (sampleMessage 4), ⟨.counter 60, 6⟩, .never⟩]

/-- Another key is refused, and all records of Dave's are deleted. -/
def losingDave : List Turn :=
  [⟨.receive ⟨"dave", 2⟩ 7 (.initiate ((PendingExchange.mk 3 (.plain 8) (.plain 9) (.plain 10)).leg
      .initiate)), ⟨.counter 60, 7⟩, .never⟩,
    ⟨.archiveAll, ⟨.counter 60, 8⟩, .never⟩, ⟨.deleteAll "dave", ⟨.counter 60, 9⟩, .never⟩]

/-- The key that Dave was met with outlives the sessions with him. -/
theorem identity_pinned_dave :
    let A := sample .rejectChanged sampleVault
    (∀ t ∈ meetingDave ++ losingDave, t.request.isChecked = true) ∧
    (A.after .plain meetingDave).contents.filed "dave" = some (Trust.firstRecord 6 ⟨.replicate 4⟩) ∧
    ∃ i, (A.after .plain (meetingDave ++ losingDave)).contents.filed "dave" = some i ∧
      i.identityKey = ⟨.replicate 4⟩ := by
  intro A
  have hchecked : ∀ t ∈ meetingDave ++ losingDave, t.request.isChecked = true := by decide
  have hmet : (A.after .plain meetingDave).contents.filed "dave" =
      some (Trust.firstRecord 6 ⟨.replicate 4⟩) := by decide +kernel
  exact ⟨hchecked, hmet, (identity_pinned .plain rfl meetingDave losingDave hchecked).1 _ _ hmet⟩

end Account

end SecureSession
