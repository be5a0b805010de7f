import SecureSession.Proofs.Account.Failure

/-! # Use of prekeys

A prekey, unless it is the one of last resort, makes at most one session over any run, whoever asks
for it. Until then it is held with the same key pair; from then on a first message that names it is
a duplicate where there is an active session with its sender, and otherwise fails, without a change
to what is stored. -/

namespace SecureSession

/-! ### Requests that name a prekey -/

namespace Request

/-- Whether a request is to take in a first message that names a prekey. -/
def names (k : UInt32) : Request → Bool
  | receive _ _ (.bundle m) => m.prekeyId == k
  | _ => false

/-- Whether a request puts a new key pair under the number of a prekey. -/
def renews (k : UInt32) : Request → Bool
  | publish _ prekeyId => prekeyId == k
  | _ => false

end Request

/-- Whether there is a new live session. -/
def Reply.isEstablished : Reply → Bool
  | outcome o => o.isEstablished
  | _ => false

/-- Whether a request made a session from a prekey. -/
def Request.usesUp (q : Request) (k : UInt32) (result : Except SessionError Reply) : Bool :=
  q.names k && result.toOption.any Reply.isEstablished

theorem Request.usesUp_iff {q : Request} {k : UInt32} {result : Except SessionError Reply} :
    q.usesUp k result = true ↔
      q.names k = true ∧ ∃ o, result = .ok (.outcome o) ∧ o.isEstablished = true := by
  rw [usesUp, Bool.and_eq_true_iff]
  refine and_congr Iff.rfl ⟨fun h => ?_, ?_⟩
  · cases result with
    | error e => cases h
    | ok reply =>
      cases reply with
      | outcome o => exact ⟨o, rfl, h⟩
      | _ => cases h
  · rintro ⟨o, rfl, ho⟩
    exact ho

/-- A request that names a prekey is to take in a first message for it. -/
theorem Request.eq_of_names {q : Request} {k : UInt32} (h : q.names k = true) :
    ∃ a thread m, q = .receive a thread (.bundle m) ∧ m.prekeyId = k := by
  cases q with
  | receive a thread m =>
    cases m with
    | bundle m => exact ⟨a, thread, m, rfl, by simpa [names] using h⟩
    | _ => cases h
  | _ => cases h

/-! ### Steps -/

namespace Account

variable {suite : Suite} {A A' : Account} {q : Request} {k : UInt32}

/-- The key pair that an account holds under a number. -/
def held (A : Account) (k : UInt32) : Option KeyPair := A.party.prekeys.held.get? k

/-- A prekey stays as it is held unless a session is made from it. -/
theorem Comes.held_eq {result : Except SessionError Reply} (h : A.Comes q result A')
    (hrenews : q.renews k = false) (huses : q.usesUp k result = false) : A'.held k = A.held k := by
  cases h with
  | failed | idle => rfl
  | @published device prekeyId b pair environment =>
    have hne : k ≠ prekeyId := fun heq => by simp [Request.renews, heq] at hrenews
    exact SortedMap.get?_insert_of_ne _ hne pair
  | @committed _ b reply consumed s environment hwrites hcommit =>
    cases hwrites with
    | @installed _ a r s now plan actions hsite hload htrust hplan =>
      have hunnamed : q.names k ≠ true := fun hnames => by
        rw [Request.usesUp_iff.mpr ⟨hnames, _, rfl, rfl⟩] at huses
        cases huses
      cases q with
      | receive a thread m =>
        cases m with
        | bundle m =>
          have hne : k ≠ m.prekeyId := fun heq => hunnamed (by simp [Request.names, heq])
          simp only [Request.usedBy, Party.usedBy, Party.usedUp]
          split
          · rfl
          · exact PreKeys.get?_discard_of_ne hne
        | initiate | response | legacy => rfl
      | _ => rfl
    | _ => rfl

/-- The prekey that a session is made from is gone, unless it is the one of last resort. -/
theorem Comes.held_eq_none {result : Except SessionError Reply} (h : A.Comes q result A')
    (hfault : A.party.prekeys.fault = none) (hlast : k ≠ A.party.lastResort)
    (huses : q.usesUp k result = true) : A'.held k = none := by
  obtain ⟨hnames, o, rfl, ho⟩ := Request.usesUp_iff.mp huses
  obtain ⟨a, thread, m, rfl, rfl⟩ := Request.eq_of_names hnames
  obtain ⟨_, _, _, _, _, environment, storage, -, -, -, -, rfl⟩ := h.of_established ho
  simp only [Request.usedBy, Party.usedBy, Party.usedUp, if_neg hlast]
  exact PreKeys.get?_discard_self (by simp [hfault])

/-! ### A prekey that is gone -/

theorem serve_of_gone {a : Address} {thread : UInt64} {m : PreKeyMessage}
    (hfault : A.party.prekeys.fault = none) (hgone : A.held m.prekeyId = none) :
    (A.serve suite (.receive a thread (.bundle m))).1 =
      (A.vault.containsSession a).bind fun active =>
        if active then .ok (.outcome (.dropped .duplicate))
        else .error (.invalidKeyId m.prekeyId) := by
  have hdraw :
      (A.party.planReceive suite a thread (.bundle m) A.vault).perform A.party.environment =
      (A.party.planFromMessage suite a thread m A.party.environment.now A.vault,
        A.party.environment) := by
    simp only [Party.planReceive, Draw.perform_bind, Draw.perform_get, Draw.perform_lift]
  rw [A.party.planFromMessage_of_gone hfault a thread A.party.environment.now hgone] at hdraw
  rw [vault] at hdraw ⊢
  simp only [serve, step, Party.receive, Party.perform, hdraw]
  cases (A.storage.vault A.party.account).containsSession a with
  | error e => rfl
  | ok active => cases active <;> rfl

/-- How an account comes out of a first message for a prekey that is gone. -/
structure Misses (suite : Suite) (A : Account) (q : Request) (k : UInt32) : Prop where
  unchanged : A.Unchanged (A.serve suite q).2
  /-- The record stored for the sender has an active session. -/
  duplicate : ∀ a r, q.site? = some a → A.vault.session? a = .ok (some r) → r.isActive = true →
    (A.serve suite q).1 = .ok (.outcome (.dropped .duplicate))
  /-- No record is stored for the sender, or one without an active session. -/
  unknown : ∀ a o, q.site? = some a → A.vault.session? a = .ok o →
    o.any SessionRecord.isActive = false → (A.serve suite q).1 = .error (.invalidKeyId k)
  /-- What is stored for the sender cannot be read. -/
  unreadable : ∀ a e, q.site? = some a → A.vault.session? a = .error e →
    (A.serve suite q).1 = .error (.storage e)

theorem misses_of_gone (hfault : A.party.prekeys.fault = none) (hgone : A.held k = none)
    (hnames : q.names k = true) : A.Misses suite q k := by
  obtain ⟨a, thread, m, rfl, rfl⟩ := Request.eq_of_names hnames
  have hanswer : (A.serve suite (.receive a thread (.bundle m))).1 = _ := serve_of_gone hfault hgone
  have hcomes := comes_serve suite A (.receive a thread (.bundle m))
  refine ⟨?_, fun a' r ha hr hactive => ?_, fun a' o ha ho hactive => ?_, fun a' e ha he => ?_⟩
  · cases hcontains : A.vault.containsSession a with
    | error e =>
      rw [hanswer, hcontains] at hcomes
      exact hcomes.unchanged_of_error
    | ok active =>
      rw [hanswer, hcontains] at hcomes
      cases active with
      | false => exact hcomes.unchanged_of_error
      | true => exact (hcomes.unchanged_of_dropped rfl).1
  · cases ha
    rw [hanswer, Vault.containsSession_of_ok hr, Option.any_some, hactive]
    rfl
  · cases ha
    rw [hanswer, Vault.containsSession_of_ok ho, hactive]
    rfl
  · cases ha
    rw [hanswer, Vault.containsSession_of_error he]
    rfl

/-! ### Runs -/

/-- How many turns make a session from a prekey. -/
def useCount (suite : Suite) (k : UInt32) : Account → List Turn → Nat
  | _, [] => 0
  | A, t :: l =>
    (if t.request.usesUp k (A.take suite t).1 then 1 else 0) + useCount suite k (A.take suite t).2 l

theorem Misses.usesUp_eq (h : A.Misses suite q k) : q.usesUp k (A.serve suite q).1 = false := by
  rw [← Bool.not_eq_true, Request.usesUp_iff]
  rintro ⟨hnames, o, ho, hestablished⟩
  obtain ⟨a, thread, m, rfl, rfl⟩ := Request.eq_of_names hnames
  cases hread : A.vault.session? a with
  | error e => rw [h.unreadable a e rfl hread] at ho; cases ho
  | ok r =>
    cases hactive : r.any SessionRecord.isActive with
    | false => rw [h.unknown a r rfl hread hactive] at ho; cases ho
    | true =>
      cases r with
      | none => cases hactive
      | some r =>
        rw [h.duplicate a r rfl hread hactive] at ho
        cases ho
        cases hestablished

/-- What is gone stays gone and makes no more sessions. -/
theorem useCount_of_gone : ∀ (l : List Turn) {A : Account}, A.party.prekeys.fault = none →
    (∀ t ∈ l, t.request.renews k = false) → A.held k = none →
      useCount suite k A l = 0 ∧ (A.after suite l).held k = none
  | [], A, _, _, hgone => ⟨rfl, hgone⟩
  | t :: l, A, hfault, hl, hgone => by
    have huses : t.request.usesUp k (A.take suite t).1 = false := by
      cases hnames : t.request.names k with
      | false => rw [Request.usesUp, hnames, Bool.false_and]
      | true =>
        have hmisses : (A.facing t).Misses suite t.request k := misses_of_gone hfault hgone hnames
        exact hmisses.usesUp_eq
    have hgone' : (A.take suite t).2.held k = none :=
      ((comes_take suite A t).held_eq (hl t List.mem_cons_self) huses).trans hgone
    obtain ⟨hcount, hrest⟩ := useCount_of_gone l ((keeps_take suite A t).fault.trans hfault)
      (fun t' ht' => hl t' (List.mem_cons_of_mem _ ht')) hgone'
    rw [useCount, huses, hcount]
    exact ⟨rfl, hrest⟩

/-- Over a run, a prekey has made no session and is held as it was, or has made one and is gone. -/
theorem useCount_cases : ∀ (l : List Turn) {A : Account}, A.party.prekeys.fault = none →
    k ≠ A.party.lastResort → (∀ t ∈ l, t.request.renews k = false) →
      useCount suite k A l = 0 ∧ (A.after suite l).held k = A.held k ∨
        useCount suite k A l = 1 ∧ (A.after suite l).held k = none
  | [], A, _, _, _ => .inl ⟨rfl, rfl⟩
  | t :: l, A, hfault, hlast, hl => by
    have hkeeps := keeps_take suite A t
    have hfault' : (A.take suite t).2.party.prekeys.fault = none := hkeeps.fault.trans hfault
    have hrest : ∀ t' ∈ l, t'.request.renews k = false :=
      fun t' ht' => hl t' (List.mem_cons_of_mem _ ht')
    cases huses : t.request.usesUp k (A.take suite t).1 with
    | true =>
      have hgone : (A.take suite t).2.held k = none :=
        (comes_take suite A t).held_eq_none hfault hlast huses
      obtain ⟨hcount, hgone'⟩ := useCount_of_gone l hfault' hrest hgone
      rw [useCount, huses, hcount]
      exact .inr ⟨rfl, hgone'⟩
    | false =>
      have hheld : (A.take suite t).2.held k = A.held k :=
        (comes_take suite A t).held_eq (hl t List.mem_cons_self) huses
      have hcases := useCount_cases l hfault' (by rw [hkeeps.lastResort]; exact hlast) hrest
      rw [hheld] at hcases
      rw [useCount, huses, after_cons]
      simpa using hcases

/-- Over any run of an account, a prekey that is not the one of last resort makes at most
one session. As long as it has made none it is held with the same key pair; once it has made
one, a first message that names it is a duplicate or fails, by what is stored for its
sender, and changes nothing. -/
theorem prekey_used_once (suite : Suite) {A : Account} {k : UInt32}
    (hfault : A.party.prekeys.fault = none) (hlast : k ≠ A.party.lastResort) (l : List Turn)
    (hl : ∀ t ∈ l, t.request.renews k = false) :
    useCount suite k A l ≤ 1 ∧
    (useCount suite k A l = 0 → (A.after suite l).held k = A.held k) ∧
    (useCount suite k A l = 1 → ∀ t, t.request.names k = true →
      ((A.after suite l).facing t).Misses suite t.request k) := by
  have hfault' : (A.after suite l).party.prekeys.fault = none :=
    (keeps_after suite l A).fault.trans hfault
  rcases useCount_cases l hfault hlast hl with ⟨hcount, hheld⟩ | ⟨hcount, hgone⟩ <;> rw [hcount]
  · exact ⟨by decide, fun _ => hheld, fun h => absurd h (by decide)⟩
  · exact ⟨le_rfl, fun h => absurd h (by decide),
      fun _ t hnames => misses_of_gone hfault' hgone hnames⟩

/-- Bob's first message fails to be committed once, then makes a session; another with Carol's
second device is refused for its key. -/
def meetingBob : List Turn :=
  [⟨.receive ⟨"bob", 3⟩ 7 (sampleMessage 2), ⟨.counter 60, 5⟩, Faults.never.arm⟩,
    ⟨.receive ⟨"carol", 2⟩ 7 (sampleMessage 4), ⟨.counter 60, 6⟩, .never⟩,
    ⟨.receive ⟨"bob", 3⟩ 7 (sampleMessage 2), ⟨.counter 60, 7⟩, .never⟩]

/-- After this a message of Carol's that names the same prekey makes nothing. -/
theorem prekey_used_once_by_bob :
    let A := sample .rejectChanged sampleVault
    let t : Turn := ⟨.receive ⟨"carol", 2⟩ 7 (sampleMessage 3), ⟨.counter 60, 9⟩, .never⟩
    A.party.prekeys.fault = none ∧ 5 ≠ A.party.lastResort ∧
    (∀ t ∈ meetingBob, t.request.renews 5 = false) ∧ useCount .plain 5 A meetingBob = 1 ∧
    t.request.names 5 = true ∧
    ((A.after .plain meetingBob).facing t).Misses .plain t.request 5 := by
  intro A t
  have hlast : 5 ≠ A.party.lastResort := by decide
  have hrenews : ∀ t ∈ meetingBob, t.request.renews 5 = false := by decide
  have hcount : useCount .plain 5 A meetingBob = 1 := by decide +kernel
  exact ⟨rfl, hlast, hrenews, hcount, rfl,
    (prekey_used_once .plain rfl hlast meetingBob hrenews).2.2 hcount t rfl⟩

/-- Where what is stored for the sender cannot be read, there is no active session with the sender,
and still the failure is not that the prekey is unknown. -/
theorem unreadable_sender_after_use :
    let A := sample .rejectChanged (sampleVault.putRaw ⟨"carol", 2⟩ [])
    let t : Turn := ⟨.receive ⟨"carol", 2⟩ 7 (sampleMessage 3), ⟨.counter 60, 9⟩, .never⟩
    A.party.prekeys.fault = none ∧ 5 ≠ A.party.lastResort ∧
    (∀ t ∈ meetingBob, t.request.renews 5 = false) ∧ useCount .plain 5 A meetingBob = 1 ∧
    t.request.names 5 = true ∧
    (∀ r, (A.after .plain meetingBob).vault.session? ⟨"carol", 2⟩ ≠ .ok (some r)) ∧
    ((A.after .plain meetingBob).take .plain t).1 ≠ .error (.invalidKeyId 5) := by
  intro A t
  have hread : (A.after .plain meetingBob).vault.session? ⟨"carol", 2⟩ =
      .error (.corrupted .emptyRecord) := by decide +kernel
  refine ⟨rfl, by decide, by decide, by decide +kernel, rfl, fun r h => ?_, by decide +kernel⟩
  rw [hread] at h
  cases h

end Account

end SecureSession
