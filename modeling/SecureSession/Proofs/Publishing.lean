import Mathlib.Data.List.Induction
import SecureSession.Proofs.Account.PreKeyUse
import SecureSession.Simulation.Device

/-! # Publishing

A device numbers the prekeys it publishes from one on, whatever number the prekey of last resort
has. So the next number is free, unless it is that of a prekey of last resort that has been
published; and what is published stays until a session is made from it, unless the prekey of last
resort is published in its place (`Device.publishing_replaces_last_resort_only`). -/

namespace SecureSession

/-- The prekey of last resort is kept by the sessions that are made from it. -/
theorem Account.Comes.held_lastResort {A A' : Account} {q : Request}
    {result : Except SessionError Reply} (h : A.Comes q result A')
    (hrenews : q.renews A.party.lastResort = false) :
    A'.held A.party.lastResort = A.held A.party.lastResort := by
  cases huses : q.usesUp A.party.lastResort result with
  | false => exact h.held_eq hrenews huses
  | true =>
    obtain ⟨hnames, o, rfl, ho⟩ := Request.usesUp_iff.mp huses
    obtain ⟨a, thread, m, rfl, hm⟩ := Request.eq_of_names hnames
    obtain ⟨_, _, _, _, _, environment, storage, -, -, -, -, rfl⟩ := h.of_established ho
    simp only [Request.usedBy, Party.usedBy, Party.usedUp, hm, if_pos]
    rfl

namespace Device

/-! ### Jobs -/

/-- What a device is asked to do. -/
inductive Job
  | publishNext
  | publishLastResort
  | receive (e : Envelope)
  | useBundle (peer : Address) (thread : UInt64) (b : PreKeyBundle)
  | initiate (peer : Address) (thread : UInt64)
  | acknowledge (peer : Address)
  | rotateIdentity (identity : KeyPair)
  | failNextCommit
deriving DecidableEq

/-- The key pair that a device holds under a number. -/
def held (d : Device) (k : UInt32) : Option KeyPair := d.party.prekeys.held.get? k

/-- A device as an account. -/
def toAccount (d : Device) : Account := ⟨d.party, d.storage⟩

variable (suite : Suite)

namespace Job

/-- The device after a job. -/
def run : Job → Device → Device
  | publishNext, d => (d.publishNext suite).2
  | publishLastResort, d => (d.publishLastResort suite).2
  | receive e, d => (d.receive suite e).2
  | useBundle peer thread b, d => (d.useBundle suite peer thread b).2
  | initiate peer thread, d => (d.initiate suite peer thread).2
  | acknowledge peer, d => (d.runPlan (·.acknowledge peer)).2
  | rotateIdentity identity, d => d.rotateIdentity identity
  | failNextCommit, d => d.failNextCommit

/-- The number under which a job publishes a prekey. -/
def publishes (d : Device) : Job → Option UInt32
  | publishNext => some d.nextPreKey
  | publishLastResort => some d.party.lastResort
  | _ => none

/-- Whether a job makes a session from a prekey. -/
def usesUp (d : Device) (k : UInt32) : Job → Bool
  | receive e =>
    match HandshakeMessage.decode e.kind e.payload with
    | .ok (.bundle m) =>
      m.prekeyId == k && (d.receive suite e).1.toOption.any HandshakeOutcome.isEstablished
    | _ => false
  | _ => false

end Job

/-- The device after some jobs. -/
def afterJobs (d : Device) (l : List Job) : Device := l.foldl (fun d j => j.run suite d) d

/-- Whether some jobs make a session from a prekey. -/
def usesUp (k : UInt32) : Device → List Job → Bool
  | _, [] => false
  | d, j :: l => j.usesUp suite d k || usesUp k (j.run suite d) l

/-! ### What a job does to the prekeys -/

variable {suite} {d : Device} {j : Job} {k : UInt32}

/-- What a job that does not publish leaves of the prekeys. -/
structure Retains (suite : Suite) (d : Device) (j : Job) (d' : Device) : Prop where
  nextPreKey : d'.nextPreKey = d.nextPreKey
  lastResort : d'.party.lastResort = d.party.lastResort
  fault : d'.party.prekeys.fault = d.party.prekeys.fault
  held : d.party.prekeys.fault = none → ∀ k, d'.held k =
    if k ≠ d.party.lastResort ∧ j.usesUp suite d k = true then none else d.held k

/-- A job that does not touch the prekeys and makes no session from one. -/
theorem Retains.of_prekeys {d' : Device} (hnext : d'.nextPreKey = d.nextPreKey)
    (hlast : d'.party.lastResort = d.party.lastResort)
    (hprekeys : d'.party.prekeys = d.party.prekeys) (huses : ∀ k, j.usesUp suite d k = false) :
    d.Retains suite j d' := by
  refine ⟨hnext, hlast, by rw [hprekeys], fun _ k => ?_⟩
  rw [Device.held, Device.held, hprekeys, huses k]
  simp

/-- A job that is a request of the account, one that does not publish. -/
theorem Retains.of_serve {d' : Device} {q : Request} (hnext : d'.nextPreKey = d.nextPreKey)
    (hserve : (d.toAccount.serve suite q).2 = d'.toAccount) (hrenews : ∀ k, q.renews k = false)
    (huses : ∀ k, q.usesUp k (d.toAccount.serve suite q).1 = j.usesUp suite d k) :
    d.Retains suite j d' := by
  have hcomes := Account.comes_serve suite d.toAccount q
  rw [hserve] at hcomes
  refine ⟨hnext, hcomes.keeps.lastResort, hcomes.keeps.fault, fun hfault k => ?_⟩
  rw [← huses k]
  split_ifs with h
  · exact hcomes.held_eq_none hfault h.1 h.2
  · by_cases hlast : k = d.party.lastResort
    · subst k
      exact hcomes.held_lastResort (hrenews _)
    · exact hcomes.held_eq (hrenews k) (by simpa [hlast] using h)

theorem retains_run (hpublishes : j.publishes d = none) : d.Retains suite j (j.run suite d) := by
  cases j with
  | publishNext | publishLastResort => cases hpublishes
  | receive e =>
    cases hread : HandshakeMessage.decode e.kind e.payload with
    | error error =>
      -- what cannot be read never gets as far as the party
      have hrun : Job.run suite (.receive e) d = d := by
        simp only [Job.run, Device.receive, Party.receivePayload, hread]
        rfl
      rw [hrun]
      exact .of_prekeys rfl rfl rfl fun k => by simp only [Job.usesUp, hread]
    | ok m =>
      have hreceive : d.receive suite e =
          d.settle (d.party.receive suite d.storage e.link.source e.thread m) := by
        simp only [Device.receive, Party.receivePayload, hread]
      refine .of_serve (q := .receive e.link.source e.thread m) rfl ?_ (fun _ => rfl) fun k => ?_
      · rw [Job.run, hreceive]
        rfl
      · cases m with
        | bundle m =>
          have hanswer : (d.toAccount.serve suite (.receive e.link.source e.thread (.bundle m))).1 =
              (d.receive suite e).1.map Reply.outcome := by rw [hreceive]; rfl
          rw [hanswer]
          simp only [Job.usesUp, hread]
          cases (d.receive suite e).1 <;> rfl
        | initiate | response | legacy => simp only [Job.usesUp, hread]; rfl
  | useBundle peer thread b =>
    exact .of_serve (q := .useBundle peer thread b) rfl rfl (fun _ => rfl) fun _ => rfl
  | initiate peer thread =>
    exact .of_serve (q := .initiate peer thread) rfl rfl (fun _ => rfl) fun _ => rfl
  | acknowledge | rotateIdentity | failNextCommit => exact .of_prekeys rfl rfl rfl fun _ => rfl

/-- What is published is held, in place of any other of that number. -/
theorem held_publishAs (prekeyId k : UInt32) : ((d.publishAs suite prekeyId).2).held k =
    if k = prekeyId then some (d.party.environment.keyPair suite).1 else d.held k :=
  SortedMap.get?_insert ..

theorem held_run_of_publishes {prekeyId : UInt32} (h : j.publishes d = some prekeyId) (k : UInt32) :
    (j.run suite d).held k =
      if k = prekeyId then some (d.party.environment.keyPair suite).1 else d.held k := by
  cases j with
  | publishNext | publishLastResort => cases h; exact held_publishAs ..
  | _ => cases h

/-- What is held under a number stays, unless it is published anew or makes a session; and a prekey
of last resort stays even then. -/
theorem held_run (hfault : d.party.prekeys.fault = none) (hk : j.publishes d ≠ some k) :
    (j.run suite d).held k =
      if k ≠ d.party.lastResort ∧ j.usesUp suite d k = true then none else d.held k := by
  cases hpublishes : j.publishes d with
  | none => exact (retains_run hpublishes).held hfault k
  | some prekeyId =>
    have hne : k ≠ prekeyId := fun heq => hk (heq ▸ hpublishes)
    have huses : j.usesUp suite d k = false := by
      cases j with
      | publishNext | publishLastResort => rfl
      | _ => cases hpublishes
    rw [held_run_of_publishes hpublishes, if_neg hne, huses]
    simp

theorem lastResort_run (j : Job) (d : Device) :
    (j.run suite d).party.lastResort = d.party.lastResort := by
  cases hpublishes : j.publishes d with
  | none => exact (retains_run hpublishes).lastResort
  | some prekeyId =>
    cases j with
    | publishNext | publishLastResort => rfl
    | _ => cases hpublishes

theorem fault_run (j : Job) (d : Device) :
    (j.run suite d).party.prekeys.fault = d.party.prekeys.fault := by
  cases hpublishes : j.publishes d with
  | none => exact (retains_run hpublishes).fault
  | some prekeyId =>
    cases j with
    | publishNext | publishLastResort => rfl
    | _ => cases hpublishes

/-- Numbers are given out in turn, one at each publishing that asks for the next. -/
theorem toNat_nextPreKey_run (hfits : d.nextPreKey.toNat + [j].count .publishNext < 2 ^ 32) :
    (j.run suite d).nextPreKey.toNat = d.nextPreKey.toNat + [j].count .publishNext := by
  cases hpublishes : j.publishes d with
  | none =>
    have hnone : [j].count .publishNext = 0 := by
      cases j with
      | publishNext => cases hpublishes
      | _ => rfl
    rw [(retains_run hpublishes).nextPreKey, hnone, Nat.add_zero]
  | some prekeyId =>
    cases j with
    | publishNext =>
      have hone : [Job.publishNext].count .publishNext = 1 := rfl
      have hrun : (Job.publishNext.run suite d).nextPreKey = d.nextPreKey + 1 := rfl
      rw [hone] at hfits ⊢
      rw [hrun, UInt32.toNat_add]
      exact Nat.mod_eq_of_lt hfits
    | publishLastResort => rfl
    | _ => cases hpublishes

/-! ### Runs -/

theorem afterJobs_append (d : Device) (l l' : List Job) :
    d.afterJobs suite (l ++ l') = (d.afterJobs suite l).afterJobs suite l' := List.foldl_append

/-- What can be told of a device from the jobs that it has done since it was new: its next number,
and under which numbers it may hold a prekey. -/
structure HasDone (last : UInt32) (l : List Job) (d : Device) : Prop where
  nextPreKey : d.nextPreKey.toNat = l.count .publishNext + 1
  lastResort : d.party.lastResort = last
  fault : d.party.prekeys.fault = none
  held : ∀ k, d.held k ≠ none → k.toNat ≤ l.count .publishNext ∨ k = last ∧ .publishLastResort ∈ l
  spare : .publishLastResort ∈ l → d.held last ≠ none

theorem hasDone_create (address : Address) (environment : Environment) (config : SessionConfig)
    (identity : KeyPair) :
    HasDone config.lastResort [] (create address environment config identity) :=
  ⟨rfl, rfl, rfl, fun _ h => absurd rfl h, nofun⟩

/-- A job is added to those done. A number held is that of a prekey published just
now, or was held before. -/
theorem HasDone.run {last : UInt32} {l : List Job} (h : d.HasDone last l) (suite : Suite)
    (hcount : (l ++ [j]).count .publishNext < 2 ^ 32 - 1) :
    HasDone last (l ++ [j]) (j.run suite d) where
  nextPreKey := by
    have hnext := h.nextPreKey
    rw [List.count_append] at hcount ⊢
    rw [toNat_nextPreKey_run (by omega)]
    omega
  lastResort := (lastResort_run j d).trans h.lastResort
  fault := (fault_run j d).trans h.fault
  held k hk := by
    by_cases hpublishes : j.publishes d = some k
    · cases j with
      | publishNext =>
        cases hpublishes
        left
        rw [List.count_append, h.nextPreKey]
        rfl
      | publishLastResort =>
        cases hpublishes
        exact .inr ⟨h.lastResort, List.mem_append_right _ (List.mem_singleton_self _)⟩
      | _ => cases hpublishes
    · rw [held_run h.fault hpublishes] at hk
      have hbefore : d.held k ≠ none := by
        split_ifs at hk with hused
        · exact absurd rfl hk
        · exact hk
      rcases h.held k hbefore with hle | ⟨hlast, hmem⟩
      · left
        rw [List.count_append]
        omega
      · exact .inr ⟨hlast, List.mem_append_left _ hmem⟩
  spare hmem := by
    have hlast := h.lastResort
    by_cases hpublishes : j.publishes d = some last
    · rw [held_run_of_publishes hpublishes, if_pos rfl]
      exact Option.some_ne_none _
    · rw [held_run h.fault hpublishes, if_neg fun hused => hused.1 hlast.symm]
      refine h.spare ?_
      rcases List.mem_append.mp hmem with hmem | hmem
      · exact hmem
      · rw [← List.mem_singleton.mp hmem] at hpublishes
        exact absurd (congrArg some hlast) hpublishes

theorem HasDone.afterJobs {last : UInt32} {l : List Job} (h : d.HasDone last l) (suite : Suite)
    (l' : List Job) (hcount : (l ++ l').count .publishNext < 2 ^ 32 - 1) :
    HasDone last (l ++ l') (d.afterJobs suite l') := by
  induction l' using List.reverseRecOn with
  | nil => rwa [List.append_nil]
  | append_singleton l' j ih =>
    rw [← List.append_assoc] at hcount ⊢
    have hbefore : (l ++ l').count .publishNext < 2 ^ 32 - 1 := by
      rw [List.count_append] at hcount
      omega
    rw [afterJobs_append]
    exact (ih hbefore).run suite hcount

/-- Under a number that has been given out, what is held stays until a session is made from it, as
long as the prekey of last resort is not published in its place. -/
theorem held_afterJobs (suite : Suite) :
    ∀ (l : List Job) {d : Device}, d.party.prekeys.fault = none →
    k.toNat < d.nextPreKey.toNat → d.nextPreKey.toNat + l.count .publishNext < 2 ^ 32 →
    (k = d.party.lastResort → .publishLastResort ∉ l) →
      (d.afterJobs suite l).held k =
        if k ≠ d.party.lastResort ∧ usesUp suite k d l = true then none else d.held k
  | [], d, _, _, _, _ => by simp [afterJobs, usesUp]
  | j :: l, d, hfault, hk, hcount, hlast => by
    -- the number is behind the counter, so only the prekey of last resort can be published under it
    have hpublishes : j.publishes d ≠ some k := by
      intro heq
      cases j with
      | publishNext => cases heq; omega
      | publishLastResort => cases heq; exact hlast rfl List.mem_cons_self
      | _ => cases heq
    rw [← List.singleton_append, List.count_append] at hcount
    have hnext : (j.run suite d).nextPreKey.toNat = _ := toNat_nextPreKey_run (by omega)
    have hsame : (j.run suite d).party.lastResort = _ := lastResort_run j d
    have hrest : ((j.run suite d).afterJobs suite l).held k = _ :=
      held_afterJobs suite l ((fault_run j d).trans hfault) (by omega) (by omega)
        fun heq hmem => hlast (heq.trans hsame) (List.mem_cons_of_mem _ hmem)
    rw [held_run hfault hpublishes, hsame] at hrest
    refine hrest.trans ?_
    rw [usesUp]
    by_cases hk : k = d.party.lastResort
    · simp [hk]
    · cases j.usesUp suite d k <;> simp [hk]

theorem HasDone.held_afterJobs {last : UInt32} {l : List Job} (h : d.HasDone last l) (suite : Suite)
    (l' : List Job) (hk : k.toNat ≤ l.count .publishNext)
    (hcount : (l ++ l').count .publishNext < 2 ^ 32 - 1)
    (hlast : k = last → .publishLastResort ∉ l') : (d.afterJobs suite l').held k =
      if k ≠ last ∧ usesUp suite k d l' = true then none else d.held k := by
  have hnext := h.nextPreKey
  have hl := h.lastResort
  rw [List.count_append] at hcount
  have hheld := Device.held_afterJobs (k := k) suite l' h.fault (by omega) (by omega)
    (by rw [hl]; exact hlast)
  rwa [hl] at hheld

/-- The prekey of last resort is the one that was published last, if its number has
been given out by then. -/
theorem HasDone.held_lastResort {last : UInt32} {l : List Job} (h : d.HasDone last l)
    (suite : Suite) (l₁ : List Job) {l₂ : List Job} (hk : last.toNat ≤ l.count .publishNext)
    (hcount : (l ++ (l₁ ++ .publishLastResort :: l₂)).count .publishNext < 2 ^ 32 - 1)
    (hl₂ : .publishLastResort ∉ l₂) :
    (d.afterJobs suite (l₁ ++ .publishLastResort :: l₂)).held last =
      some ((d.afterJobs suite l₁).party.environment.keyPair suite).1 := by
  have hspare : [Job.publishLastResort].count .publishNext = 0 := rfl
  rw [← List.singleton_append, ← List.append_assoc, ← List.append_assoc, List.count_append,
    List.count_append, List.count_append, hspare] at hcount
  have hdone₁ := h.afterJobs suite l₁ (by rw [List.count_append]; omega)
  have hdone₂ := hdone₁.run suite (j := .publishLastResort) (by
    rw [List.count_append, List.count_append, hspare]
    omega)
  have hpublished : (Job.publishLastResort.run suite (d.afterJobs suite l₁)).held last =
      some ((d.afterJobs suite l₁).party.environment.keyPair suite).1 :=
    (held_run_of_publishes (j := .publishLastResort) (congrArg some hdone₁.lastResort) last).trans
      (if_pos rfl)
  have hrest := hdone₂.held_afterJobs (k := last) suite l₂
    (by rw [List.count_append, List.count_append]; omega)
    (by rw [List.count_append, List.count_append, List.count_append, hspare]; omega) fun _ => hl₂
  rw [if_neg fun hused => hused.1 rfl, hpublished] at hrest
  rw [afterJobs_append]
  exact hrest

/-! ### The result -/

/-- As long as fewer than 2³² - 1 prekeys are published under the next number, that number is free,
unless it is that of last resort and the prekey of last resort has been published before. What is
published then stays until a session is made from it, unless it has the number of last resort. There
it stays in any case, but for the prekey of last resort that is published in its place. -/
theorem publishing_replaces_last_resort_only (suite : Suite) (address : Address)
    (environment : Environment) (config : SessionConfig) (identity : KeyPair) (l l' : List Job)
    (hcount : (l ++ .publishNext :: l').count .publishNext < 2 ^ 32 - 1) :
    let d := (create address environment config identity).afterJobs suite l
    let k := d.nextPreKey
    let b := (d.publishNext suite).1
    let d' := (d.publishNext suite).2
    (d.held k ≠ none ↔ k = config.lastResort ∧ .publishLastResort ∈ l) ∧
    b.prekeyId = k ∧ ∃ pair, b.prekey = pair.publicKey ∧ d'.held k = some pair ∧
      ((k = config.lastResort → .publishLastResort ∉ l') → (d'.afterJobs suite l').held k =
        if k ≠ config.lastResort ∧ usesUp suite k d' l' = true then none else some pair) ∧
      (k = config.lastResort → ∀ l₁ l₂, l' = l₁ ++ .publishLastResort :: l₂ →
        .publishLastResort ∉ l₂ → (d'.afterJobs suite l').held k =
          some ((d'.afterJobs suite l₁).party.environment.keyPair suite).1) := by
  intro d k b d'
  have hall : (l ++ .publishNext :: l').count .publishNext =
      l.count .publishNext + (l'.count .publishNext + 1) := by
    rw [List.count_append, List.count_cons_self]
  have hdone : d.HasDone config.lastResort l :=
    (hasDone_create address environment config identity).afterJobs suite l
      (by rw [List.nil_append]; omega)
  have hcount₁ : (l ++ [Job.publishNext]).count .publishNext = l.count .publishNext + 1 := by
    rw [List.count_append, List.count_cons_self, List.count_nil]
  have hdone' : HasDone config.lastResort (l ++ [.publishNext]) d' := hdone.run suite (by omega)
  have hk : k.toNat = l.count .publishNext + 1 := hdone.nextPreKey
  have hheld : d'.held k = some (d.party.environment.keyPair suite).1 :=
    (held_run_of_publishes (j := .publishNext) rfl k).trans (if_pos rfl)
  refine ⟨⟨fun h => ?_, fun ⟨hlast, hmem⟩ => ?_⟩, rfl, _, rfl, hheld, fun hlast => ?_,
    fun hlast l₁ l₂ hl' hl₂ => ?_⟩
  · rcases hdone.held k h with hle | hspare
    · omega
    · exact hspare
  · rw [hlast]
    exact hdone.spare hmem
  · have hrun := hdone'.held_afterJobs (k := k) suite l' (by omega)
      (by rw [List.count_append]; omega) hlast
    rwa [hheld] at hrun
  · subst hl'
    have hsame : (d'.afterJobs suite (l₁ ++ .publishLastResort :: l₂)).held config.lastResort = _ :=
      hdone'.held_lastResort suite l₁ (by rw [← hlast]; omega)
        (by rw [List.count_append]; omega) hl₂
    rw [hlast]
    exact hsame

section Bob

/-- Carol's first message to Bob, for the prekey of number 5. -/
def fromCarol : Envelope where
  link := ⟨⟨"carol", 2⟩, ⟨"bob", 1⟩⟩
  thread := 7
  kind := .prekey
  payload := (Account.sampleMessage 2).encode.toOption.getD []

/-- Bob's device, with keys that count up and a number for his prekey of last resort. -/
def bob (lastResort : UInt32) : Device :=
  create ⟨"bob", 1⟩ ⟨.counter 80, 0⟩ ⟨.rejectChanged, lastResort⟩ (.plain 2)

/-- With a prekey of last resort under number nine, Bob's fifth prekey is free, and is gone once
Carol has made a session from it. -/
theorem publishing_replaces_last_resort_only_bob :
    let l := Job.publishLastResort :: List.replicate 4 .publishNext
    let l' := [Job.publishLastResort, .receive fromCarol]
    let d := (bob 9).afterJobs .plain l
    let d' := (d.publishNext .plain).2
    (l ++ .publishNext :: l').count .publishNext < 2 ^ 32 - 1 ∧ d.nextPreKey = 5 ∧
      d.held 5 = none ∧ d'.held 5 ≠ none ∧ (d'.afterJobs .plain l').held 5 = none := by
  intro l l' d d'
  have hcount : (l ++ .publishNext :: l').count .publishNext < 2 ^ 32 - 1 := by decide
  have hnext : d.nextPreKey = 5 := by decide +kernel
  have hused : usesUp .plain 5 d' l' = true := by decide +kernel
  have hresult := publishing_replaces_last_resort_only .plain ⟨"bob", 1⟩ ⟨.counter 80, 0⟩
    ⟨.rejectChanged, 9⟩ (.plain 2) l l' hcount
  change (d.held d.nextPreKey ≠ none ↔ d.nextPreKey = 9 ∧ _) ∧ _ ∧ ∃ pair, _ ∧
    d'.held d.nextPreKey = some pair ∧
    (_ → (d'.afterJobs .plain l').held d.nextPreKey =
      if d.nextPreKey ≠ 9 ∧ usesUp .plain d.nextPreKey d' l' = true then none else some pair) ∧
    _ at hresult
  rw [hnext, hused] at hresult
  obtain ⟨hfree, -, pair, -, hheld, hgone, -⟩ := hresult
  refine ⟨hcount, hnext, ?_, ?_, hgone (by decide)⟩
  · by_contra h
    exact absurd (hfree.mp h).1 (by decide)
  · rw [hheld]
    exact Option.some_ne_none pair

/-- With the prekey of last resort under number one, Bob's first prekey is published in its place,
and goes when it is published again, though no message came in. -/
theorem publishing_replaces_first_prekey :
    let d := (bob 1).afterJobs .plain [.publishLastResort]
    let b := (d.publishNext .plain).1
    let d' := (d.publishNext .plain).2
    d.held b.prekeyId ≠ none ∧ (d'.held b.prekeyId).map KeyPair.publicKey = some b.prekey ∧
      usesUp .plain b.prekeyId d' [.publishLastResort] = false ∧
      ((d'.afterJobs .plain [.publishLastResort]).held b.prekeyId).map KeyPair.publicKey ≠
        some b.prekey := by
  decide +kernel

end Bob

end Device

end SecureSession
