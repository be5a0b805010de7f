import SecureSession.Proofs.Account.Confirmations
import SecureSession.Proofs.Simulation.Changes
import SecureSession.Proofs.Simulation.IntroductionRuns
import SecureSession.Proofs.Simulation.Moves
import SecureSession.Proofs.Storage.Bounds

/-! # Clocks

A device of a world has a clock of its own: it starts at the time at which every world starts, and
nothing that is done in the world moves it. What a device files about identities bears the time of
that clock. The clock of the world is moved by itself alone, so it and the clocks of the devices
part with the first advance, and no identity on file tells of the time that has passed. -/

namespace SecureSession

/-! ### Drawing -/

/-- Whether a drawing step, failed or not, leaves the clock alone. -/
def Draw.TakesNoTime {α : Type} (d : Draw α) : Prop := ∀ e, (d.perform e).2.now = e.now

namespace Draw.TakesNoTime

variable {α β : Type}

theorem pure (a : α) : TakesNoTime (Pure.pure a : Draw α) := fun _ => rfl

theorem get : TakesNoTime (MonadState.get : Draw Environment) := fun _ => rfl

theorem uint32 : TakesNoTime Draw.uint32 := fun _ => rfl

theorem keyPair (suite : Suite) : TakesNoTime (Draw.keyPair suite) := fun _ => rfl

theorem lift (x : Except SessionError α) : TakesNoTime (Draw.lift x) := fun e => by
  rw [Draw.perform_lift]

theorem bind {d : Draw α} {f : α → Draw β} (hd : TakesNoTime d) (hf : ∀ a, TakesNoTime (f a)) :
    TakesNoTime (d >>= f) := by
  intro e
  have hfirst := hd e
  rw [Draw.perform_bind]
  rcases hr : d.perform e with ⟨error | a, e'⟩
  · rw [hr] at hfirst
    exact hfirst
  · rw [hr] at hfirst
    exact (hf a e').trans hfirst

/-! ### Plans -/

section Plans
variable (suite : Suite) (p : Party) (a : Address) (thread : UInt64) (v : Vault)

theorem drawExchange (sequence : UInt32) : TakesNoTime (p.drawExchange suite sequence) :=
  bind (keyPair suite) fun _ => bind (keyPair suite) fun _ => pure _

theorem planInitiate : TakesNoTime (p.planInitiate suite a thread v) :=
  bind (lift _) fun _ => bind uint32 fun _ => bind (drawExchange suite p _) fun _ => pure _

theorem planFromBundle (b : PreKeyBundle) : TakesNoTime (p.planFromBundle suite a thread b v) := by
  unfold Party.planFromBundle
  split
  · -- the bundle of another device is refused before anything is drawn
    exact fun _ => rfl
  · exact bind (lift _) fun _ => bind (keyPair suite) fun _ => bind (keyPair suite) fun _ =>
      bind get fun _ => lift _

theorem planExchange (m : KeyExchangeMessage) :
    TakesNoTime (p.planExchange suite a thread m v) := by
  refine bind (lift _) fun r => ?_
  split
  · have hanswer : TakesNoTime (p.drawAnswer suite r m.sequence) := by
      unfold Party.drawAnswer
      split
      · exact bind (drawExchange suite p _) fun _ => pure _
      · exact pure _
    exact bind (lift _) fun _ => bind hanswer fun _ => bind get fun _ => lift _
  · exact bind get fun _ => lift _

theorem planReceive (m : HandshakeMessage) : TakesNoTime (p.planReceive suite a thread m v) := by
  cases m with
  | bundle m => exact bind get fun _ => lift _
  | initiate m | response m => exact planExchange suite p a thread v m
  | legacy kind used => exact pure _

end Plans

end Draw.TakesNoTime

/-! ### Dates -/

/-- What can become of the identity on file for a peer at some time, as far as dates go. -/
inductive Dated (now : UInt64) : Option IdentityRecord → Option IdentityRecord → Prop
  | kept {o : Option IdentityRecord} : Dated now o o
  /-- A record keeps the date of first contact. -/
  | filed {o : Option IdentityRecord} {r : IdentityRecord}
    (hcreated : r.createdAt = o.elim now IdentityRecord.createdAt) (hupdated : r.updatedAt = now) :
    Dated now o (some r)

theorem Revises.dated {now : UInt64} {given : Option Verification} {o o' : Option IdentityRecord}
    (h : Revises now given o o') : Dated now o o' := by
  cases h with
  | kept => exact .kept
  | met | replaced | confirmed => exact .filed rfl rfl

namespace Device

/-- Whether a device has its clock where it was, and bears its time on what is new on file. -/
structure Stamps (d d' : Device) : Prop where
  clock : d'.party.environment.now = d.party.environment.now
  filed : ∀ name, Dated d.party.environment.now (d.contents.filed name) (d'.contents.filed name)

/-- Whether the clock of a device shows a time, and all identities on file bear that time. -/
structure IsAt (d : Device) (now : UInt64) : Prop where
  clock : d.party.environment.now = now
  filed : ∀ name r, d.contents.filed name = some r → r.createdAt = now ∧ r.updatedAt = now

variable {suite : Suite} {d d' : Device}

theorem Stamps.isAt (h : d.Stamps d') {now : UInt64} (hd : d.IsAt now) : d'.IsAt now := by
  refine ⟨h.clock.trans hd.clock, fun name r' hr' => ?_⟩
  have hdated := h.filed name
  rw [hr'] at hdated
  generalize ho : d.contents.filed name = o at hdated
  cases hdated with
  | kept => exact hd.filed name r' ho
  | filed hcreated hupdated =>
    rw [hd.clock] at hcreated hupdated
    cases o with
    | none => exact ⟨hcreated, hupdated⟩
    | some r => exact ⟨hcreated.trans (hd.filed name r ho).1, hupdated⟩

/-! ### What a device does -/

/-- A step of a handshake is a turn of the account at the time that the device has. -/
theorem stamps_settle_perform (suite : Suite) (q : Request) {plan : Vault → Draw (Plan Step)}
    (hplan : (plan d.vault).TakesNoTime)
    (hserve : (⟨d.party, d.storage⟩ : Account).serve suite q =
      (⟨d.party, d.storage⟩ : Account).step fun s => d.party.perform s plan) :
    d.Stamps (d.settle (d.party.perform d.storage plan)).2 where
  clock := by
    rw [environment_settle_perform]
    exact hplan _
  filed name := by
    have hrevises := Account.revises_take suite ⟨d.party, d.storage⟩
      ⟨q, d.party.environment, d.storage.faults⟩ name
    have htake : (⟨d.party, d.storage⟩ : Account).take suite
        ⟨q, d.party.environment, d.storage.faults⟩ = _ := hserve
    rw [htake] at hrevises
    exact hrevises.dated

theorem stamps_initiate (peer : Address) (thread : UInt64) :
    d.Stamps (d.initiate suite peer thread).2 :=
  stamps_settle_perform suite (.initiate peer thread)
    (.planInitiate suite d.party peer thread d.vault) rfl

theorem stamps_useBundle (peer : Address) (thread : UInt64) (b : PreKeyBundle) :
    d.Stamps (d.useBundle suite peer thread b).2 :=
  stamps_settle_perform suite (.useBundle peer thread b)
    (.planFromBundle suite d.party peer thread d.vault b) rfl

theorem stamps_receive (e : Envelope) : d.Stamps (d.receive suite e).2 := by
  unfold receive Party.receivePayload
  cases HandshakeMessage.decode e.kind e.payload with
  | ok m =>
    exact stamps_settle_perform suite (.receive e.link.source e.thread m)
      (.planReceive suite d.party e.link.source e.thread d.vault m) rfl
  | error error => exact ⟨rfl, fun _ => .kept⟩

/-- A plan that files no identity leaves those on file. -/
theorem stamps_runPlan {α : Type} {plan : Vault → Except SessionError (Plan α)}
    (hplan : ∀ planned, plan d.vault = .ok planned → planned.writes.identities = .empty) :
    d.Stamps (d.runPlan plan).2 := by
  refine ⟨rfl, fun name => ?_⟩
  obtain hsame | ⟨planned, hmade, happlied⟩ :=
    d.storage.vault_carryOut d.party.account (plan d.vault)
  · have hvault : (d.runPlan plan).2.vault = d.vault := hsame
    rw [contents, contents, hvault]
    exact .kept
  · have hvault : (d.runPlan plan).2.vault = d.vault.apply planned.writes := happlied
    rw [contents, contents, hvault, Vault.filed_apply, hplan planned hmade]
    exact .kept

theorem stamps_acknowledge (peer : Address) : d.Stamps (d.runPlan (·.acknowledge peer)).2 := by
  refine stamps_runPlan fun planned h => ?_
  obtain ⟨r, -, h⟩ := bind_eq_ok.mp h
  split at h <;> cases h <;> rfl

/-- Whatever a call does with a device, the clock stays and what is filed bears its time. -/
theorem Acts.stamps (h : d.Acts suite d') : d.Stamps d' := by
  cases h with
  | useBundle peer thread b => exact stamps_useBundle peer thread b
  | initiate peer thread => exact stamps_initiate peer thread
  | receive e => exact stamps_receive e
  | acknowledge peer => exact stamps_acknowledge peer
  | read | publish | rotateIdentity | failNextCommit => exact ⟨rfl, fun _ => .kept⟩

theorem isAt_create (address : Address) (seed : UInt64) (config : SessionConfig)
    (identity : KeyPair) :
    (create address (.ofSeed seed) config identity).IsAt Environment.epoch := ⟨rfl, nofun⟩

end Device

/-! ### Worlds -/

namespace World

/-- Whether the clock of a world shows a time, while its devices are where they started. -/
structure IsAt (w : World) (now : UInt64) : Prop where
  clock : w.environment.now = now
  devices : ∀ a d, w.devices.get? a = some d → d.IsAt Environment.epoch

variable {suite : Suite} {w : World} {now : UInt64}

theorem isAt_ofSeed (seed : UInt64) (config : SessionConfig) :
    (ofSeed seed config).IsAt Environment.epoch := ⟨rfl, nofun⟩

theorem IsAt.insert (h : w.IsAt now) {w' : World} {a : Address} {d : Device}
    (hd : d.IsAt Environment.epoch) (hclock : w'.environment.now = w.environment.now)
    (hdevices : w'.devices = w.devices.insert a d) : w'.IsAt now := by
  refine ⟨hclock.trans h.clock, fun b d' hd' => ?_⟩
  rw [hdevices, SortedMap.get?_insert] at hd'
  split at hd'
  · cases hd'
    exact hd
  · exact h.devices b d' hd'

theorem lasts_isAt : Lasts suite (IsAt · now) := by
  intro w w' hchanges h
  cases hchanges with
  | draw | settle | number | post | pop => exact ⟨h.clock, h.devices⟩
  | register identity a => exact h.insert (Device.isAt_create a _ w.config identity) rfl rfl
  | act hd hacts => exact h.insert (hacts.stamps.isAt (h.devices _ _ hd)) rfl rfl

theorem IsAt.advance (h : w.IsAt now) (ms : UInt64) :
    (ending (World.advance ms w)).IsAt (now + ms) :=
  ⟨congrArg (· + ms) h.clock, h.devices⟩

/-! ### Moves -/

/-- The time by which a move advances the clock. Without devices an operation does nothing. -/
def Move.time (w : World) : Move → UInt64
  | call (.advance ms) => ms
  | operation (.advanceTime ms) => if w.addresses = [] then 0 else UInt64.ofNat ms.toNat
  | call _ | operation _ => 0

/-- The time by which some moves advance the clock. -/
def elapsed (suite : Suite) : World → List Move → UInt64
  | _, [] => 0
  | w, m :: l => m.time w + elapsed suite (ending (m.run suite w)) l

theorem elapsed_append : ∀ (l l' : List Move) (w : World), elapsed suite w (l ++ l') =
    elapsed suite w l + elapsed suite (w.through suite l) l'
  | [], _, _ => (UInt64.zero_add _).symm
  | m :: l, l', w => by
    rw [List.cons_append, elapsed, elapsed, elapsed_append l l', UInt64.add_assoc]
    rfl

/-- A move takes the clock of the world on, and that clock only. -/
theorem IsAt.move (h : w.IsAt now) (m : Move) : (ending (m.run suite w)).IsAt (now + m.time w) := by
  -- all moves but two are made of changes that take no time
  have hstill : WorldStep.Keeps (IsAt · now) (m.run suite) → m.time w = 0 →
      (ending (m.run suite w)).IsAt (now + m.time w) := by
    intro hkeeps htime
    rw [htime, UInt64.add_zero]
    exact hkeeps w h
  cases m with
  | call c =>
    cases c with
    | advance ms => exact h.advance ms
    | _ => exact hstill (.map (.call lasts_isAt _ fun _ hc => by cases hc) _) rfl
  | operation o =>
    cases o with
    | advanceTime ms =>
      show (ending (Operation.apply suite (.advanceTime ms) w)).IsAt
        (now + if w.addresses = [] then 0 else UInt64.ofNat ms.toNat)
      rw [Operation.apply_eq]
      split
      · rw [UInt64.add_zero]
        exact h
      · exact h.advance _
    | _ => exact hstill (.operation lasts_isAt _ fun _ ho => by cases ho) rfl

/-- So do moves in turn. -/
theorem IsAt.through : ∀ (l : List Move) {w : World} {now : UInt64}, w.IsAt now →
    (w.through suite l).IsAt (now + elapsed suite w l)
  | [], _, now, h => by
    rw [elapsed, UInt64.add_zero]
    exact h
  | m :: l, w, now, h => by
    rw [elapsed, ← UInt64.add_assoc]
    exact IsAt.through l (h.move m)

/-- From any seed and through any moves, the clock of the world shows the time that has passed since
the start, and the clock of every device the start itself. So they agree just as long as the clock
has not been moved, and every identity on file was filed, and last updated, at the start. -/
theorem only_clock_moves (suite : Suite) (seed : UInt64) (config : SessionConfig)
    (moves : List Move) :
    ((ofSeed seed config).through suite moves).environment.now =
      Environment.epoch + elapsed suite (ofSeed seed config) moves ∧
    ∀ a d, ((ofSeed seed config).through suite moves).devices.get? a = some d →
      d.party.environment.now = Environment.epoch ∧
      (d.party.environment.now = ((ofSeed seed config).through suite moves).environment.now ↔
        elapsed suite (ofSeed seed config) moves = 0) ∧
      ∀ name r, d.vault.loadIdentity name = .ok (some r) →
        r.createdAt = Environment.epoch ∧ r.updatedAt = Environment.epoch := by
  have hat : ((ofSeed seed config).through suite moves).IsAt
      (Environment.epoch + elapsed suite (ofSeed seed config) moves) :=
    IsAt.through moves (isAt_ofSeed seed config)
  refine ⟨hat.clock, fun a d hd => ?_⟩
  have hdevice := hat.devices a d hd
  refine ⟨hdevice.clock, ?_, fun name r hr => hdevice.filed name r (Vault.filed_of_loadIdentity hr)⟩
  rw [hdevice.clock, hat.clock, eq_comm, UInt64.add_eq_left]

/-! ### Alice meets Bob -/

/-- Alice and Bob join, and then some time passes. -/
def meeting : List Move :=
  [.call (.addAccount "alice" 1), .call (.addAccount "bob" 1), .operation (.advanceTime 500)]

/-- Then Alice introduces herself. -/
def introducing : List Move := meeting ++ [.operation (.sendFirstMessage 0 1)]

theorem addresses_sample_ne : sample.addresses ≠ [] := addresses_sample ▸ nofun

theorem through_meeting :
    (ofSeed 1 default).through .modular meeting = sample.after .modular (.advance 500) := by
  have hoperation : ending ((Move.operation (.advanceTime 500)).run .modular sample) = _ :=
    ending_run_operation addresses_sample_ne _
  simp only [through, meeting, List.foldl_cons, List.foldl_nil, ending_run_call]
  exact hoperation

theorem elapsed_meeting : elapsed .modular (ofSeed 1 default) meeting = 500 := by
  have htime : (Move.operation (.advanceTime 500)).time sample = 500 := by
    rw [Move.time, if_neg addresses_sample_ne]
    rfl
  simp only [elapsed, meeting, ending_run_call]
  show 0 + (0 + ((Move.operation (.advanceTime 500)).time sample + 0)) = 500
  rw [htime]
  rfl

theorem elapsed_introducing : elapsed .modular (ofSeed 1 default) introducing = 500 := by
  rw [introducing, elapsed_append, elapsed_meeting]
  rfl

/-- As she introduces herself, Alice files Bob's identity. -/
theorem files_of_introduction : ∃ d r,
    ((ofSeed 1 default).through .modular introducing).devices.get? alice = some d ∧
    d.vault.loadIdentity "bob" = .ok (some r) := by
  have hs := Suite.completes_modular
  have hne : alice ≠ bob := by decide
  have hw : (sample.after .modular (.advance 500)).addresses = [alice, bob] := addresses_sample
  -- both devices are as they were before time passed
  have hset : (sample.after .modular (.advance 500)).Introduces .modular
      alice (firstDevice .modular 1 default "alice")
      bob (secondDevice .modular 1 default "alice" "bob") .start := by
    have happart : ∀ c ∈ [Call.advance 500], c.IsIntroductionOrApart alice bob :=
      List.forall_mem_singleton.mpr (.inr ⟨id, id⟩)
    exact ((mayIntroduce_sample.introduces hs.keepsKeys).run hs hne happart (by decide)).1
  obtain ⟨-, w', hrun, -⟩ := hset.establish hs hne (by decide)
  have hcalls : (Operation.sendFirstMessage 0 1).calls .modular
      (sample.after .modular (.advance 500)) =
      [.establishFromBundle alice bob, .sendFirstMessage alice bob] := by
    have hsource : Operation.pick [alice, bob] 0 = alice := rfl
    have htarget : Operation.pick [alice, bob] 1 = bob := rfl
    rw [Operation.calls, hw, hsource, htarget, hrun]
    rfl
  have hintroduction : ∀ c ∈ [Call.establishFromBundle alice bob, .sendFirstMessage alice bob],
      c.IsIntroductionOrApart alice bob := fun c hc => .inl (by revert c; decide)
  obtain ⟨hend, -, -⟩ := hset.run hs hne hintroduction (by decide)
  obtain ⟨d, hd, hmakes⟩ := hend.source
  obtain ⟨ratchet, -, hcurrent⟩ := hmakes.session 0 rfl
  have hsound := (hend.sound.devices alice d hd).2
  obtain ⟨r, hr, -⟩ := hsound.contents.filed bob _ hcurrent
  refine ⟨d, r, ?_, (hsound.readable.loadIdentity_eq "bob").trans (congrArg Except.ok hr)⟩
  have hsome : (sample.after .modular (.advance 500)).addresses ≠ [] := addresses_sample_ne
  rw [introducing, through_append, through_meeting, through_singleton,
    ending_run_operation hsome, hcalls]
  exact hd

/-- Alice files Bob's identity when half a second has passed, but not by the clock of her device. -/
theorem only_clock_moves_meeting : ∃ d r,
    ((ofSeed 1 default).through .modular introducing).devices.get? alice = some d ∧
    d.vault.loadIdentity "bob" = .ok (some r) ∧
    ((ofSeed 1 default).through .modular introducing).environment.now = Environment.epoch + 500 ∧
    d.party.environment.now = Environment.epoch ∧
    r.createdAt = Environment.epoch ∧ r.updatedAt = Environment.epoch := by
  obtain ⟨d, r, hd, hr⟩ := files_of_introduction
  obtain ⟨hclock, hdevices⟩ := only_clock_moves .modular 1 default introducing
  obtain ⟨hdevice, -, hfiled⟩ := hdevices alice d hd
  exact ⟨d, r, hd, hr, hclock.trans (congrArg _ elapsed_introducing), hdevice, hfiled "bob" r hr⟩

/-- The clock of a device need not be that of the world, and an identity that is filed need
not bear the time that has passed: before Alice introduces herself, half a second has passed
and nothing is on file. -/
theorem clocks_part_meeting : ∃ d d' r,
    elapsed .modular (ofSeed 1 default) meeting = 500 ∧
    ((ofSeed 1 default).through .modular meeting).devices.get? alice = some d ∧
    d.party.environment.now ≠ ((ofSeed 1 default).through .modular meeting).environment.now ∧
    d.vault.loadIdentity "bob" = .ok none ∧
    ((ofSeed 1 default).through .modular introducing).devices.get? alice = some d' ∧
    d'.vault.loadIdentity "bob" = .ok (some r) ∧
    r.createdAt ≠ Environment.epoch + 500 ∧ r.updatedAt ≠ Environment.epoch + 500 := by
  have hparts : Environment.epoch ≠ Environment.epoch + 500 := by decide
  have hat : ∀ moves, ((ofSeed 1 default).through .modular moves).IsAt
      (Environment.epoch + elapsed .modular (ofSeed 1 default) moves) :=
    fun moves => IsAt.through moves (isAt_ofSeed 1 default)
  have hd : ((ofSeed 1 default).through .modular meeting).devices.get? alice =
      some (firstDevice .modular 1 default "alice") := by
    rw [through_meeting]
    exact mayIntroduce_sample.source
  obtain ⟨d', r, hd', hr⟩ := files_of_introduction
  obtain ⟨hcreated, hupdated⟩ :=
    ((hat introducing).devices alice d' hd').filed "bob" r (Vault.filed_of_loadIdentity hr)
  refine ⟨_, d', r, elapsed_meeting, hd, ?_, rfl, hd', hr, hcreated ▸ hparts, hupdated ▸ hparts⟩
  rw [((hat meeting).devices alice _ hd).clock, (hat meeting).clock, elapsed_meeting]
  exact hparts

end World

end SecureSession
