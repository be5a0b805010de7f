import Mathlib.Data.List.Nodup
import SecureSession.Proofs.Simulation.Growth
import SecureSession.Proofs.Simulation.Operations
import SecureSession.Proofs.Simulation.Ready

/-! # Responses tell of sessions

A device that completes an exchange by a response holds the session that the responder committed at
an earlier step, from the other end (`World.agreed_of_established`). Between any other calls, every
response on the way comes from such a step, and every exchange under way was opened
(`World.History`). -/

namespace SecureSession

namespace World

/-! ### The history of a link -/

/-- What the moments before a world tell of the exchanges that a device opens with another: those
under way, the initiates for them on the way there, and the responses on the way back. -/
structure History (suite : Suite) (x y : Address) (t : List Moment) (w : World) : Prop where
  sound : w.IsSound suite
  opened : ∀ q ∈ openings suite x y t, q.IsSound suite
  pending : ∀ q, w.pending? x y = some q → q ∈ openings suite x y t
  initiates : ∀ i, .initiate i ∈ w.network.messages ⟨x, y⟩ →
    ∃ q ∈ openings suite x y t, i = q.leg .initiate
  responses : ∀ r, .response r ∈ w.network.messages ⟨y, x⟩ →
    ∃ earlier ∈ t, ∃ q ∈ openings suite x y t, ∃ k flags,
      earlier.Answers suite y x (q.leg .initiate) k ∧ r = k.leg flags

section History
variable {suite : Suite} {x y : Address} {t : List Moment} {w : World}

theorem history_ofSeed (seed : UInt64) (config : SessionConfig) :
    History suite x y [] (ofSeed seed config) where
  sound := isSound_ofSeed seed config
  opened := nofun
  pending := nofun
  initiates := nofun
  responses := nofun

theorem isSound_opening {c : Call} (h : w.IsSound suite) {q : PendingExchange}
    (hq : (⟨w, c⟩ : Moment).opening suite x y = some q) : q.IsSound suite := by
  rw [Moment.opening] at hq
  split at hq
  · obtain ⟨d, hd, rfl⟩ := Option.map_eq_some_iff.mp hq
    exact Party.isSound_opening (h.devices x d hd).2.identity
  · cases hq

/-- An initiate taken in was on its link. -/
theorem mem_messages_of_initiate? {m : Moment} {i : KeyExchangeMessage}
    (h : m.initiate? x y = some i) : .initiate i ∈ m.world.network.messages ⟨y, x⟩ := by
  rw [Moment.initiate?] at h
  split at h
  · split at h
    · rename_i k ms hms
      cases h
      rw [hms]
      exact List.mem_cons_self
    · cases h
  · cases h

/-- Every call extends the history. -/
theorem History.after (hs : suite.KeepsKeys) (h : History suite x y t w) (c : Call) :
    History suite x y (t ++ [⟨w, c⟩]) (w.after suite c) := by
  have hgrows := c.grows hs h.sound
  have hopened : ∀ q, q ∈ openings suite x y t ∨ (⟨w, c⟩ : Moment).opening suite x y = some q →
      q ∈ openings suite x y (t ++ [⟨w, c⟩]) := by
    intro q hq
    rw [openings_snoc, List.mem_append, Option.mem_toList]
    exact hq
  refine ⟨h.sound.after hs c, fun q hq => ?_, fun q hq => ?_, fun i hi => ?_, fun r hr => ?_⟩
  · rw [openings_snoc, List.mem_append, Option.mem_toList] at hq
    rcases hq with hq | hq
    · exact h.opened q hq
    · exact isSound_opening h.sound hq
  · exact hopened q ((hgrows.pending x y q hq).imp_left (h.pending q))
  · rcases hgrows.messages _ _ hi with hi | hsends
    · obtain ⟨q, hq, hleg⟩ := h.initiates i hi
      exact ⟨q, hopened q (.inl hq), hleg⟩
    · cases hsends with
      | initiate hopening => exact ⟨_, hopened _ (.inr hopening), rfl⟩
  · rcases hgrows.messages _ _ hr with hr | hsends
    · obtain ⟨earlier, hmem, q, hq, k, flags, hanswers, hleg⟩ := h.responses r hr
      exact ⟨earlier, List.mem_append_left _ hmem, q, hopened q (.inl hq), k, flags, hanswers, hleg⟩
    · cases hsends with
      | @response i k flags hanswers =>
        -- the initiate answered is one of those on the way before
        obtain ⟨q, hq, rfl⟩ := h.initiates i (mem_messages_of_initiate? hanswers.taken)
        exact ⟨_, List.mem_append_right _ (List.mem_singleton_self _), q,
          hopened q (.inl hq), k, flags, hanswers, rfl⟩

theorem History.afterAll (hs : suite.KeepsKeys) :
    ∀ (calls : List Call) {t : List Moment} {w : World}, History suite x y t w →
      History suite x y (t ++ timeline suite w calls) (w.afterAll suite calls)
  | [], t, _, h => by
    rw [timeline, List.append_nil]
    exact h
  | c :: calls, t, w, h => by
    have hrest := History.afterAll hs calls (h.after hs c)
    rwa [List.append_assoc] at hrest

/-- Before the first operation there is nothing to tell. -/
theorem history_setUp (hs : suite.KeepsKeys) {accounts : List (String × Nat)} {seed : UInt64}
    {config : SessionConfig} (h : setUp suite accounts (ofSeed seed config) = .ok () w) :
    History suite x y [] w := by
  obtain ⟨w', hset, hsound, -, hw⟩ := setUp_spec hs accounts (isSound_ofSeed seed config)
    (isClosed_ofSeed seed config)
  have hsame : w' = w := by
    rw [h] at hset
    cases hset
    rfl
  subst hsame
  have hcalls : ∀ (accounts : List (String × Nat)) (v : World),
      ∀ m ∈ timeline suite v (accounts.map fun a => .addAccount a.1 a.2),
        ∃ name devices, m.call = .addAccount name devices := by
    intro accounts
    induction accounts with
    | nil => exact fun _ _ hm => absurd hm List.not_mem_nil
    | cons a accounts ih => exact fun v => List.forall_mem_cons.mpr ⟨⟨_, _, rfl⟩, ih _⟩
  have hhistory := (history_ofSeed (x := x) (y := y) seed config).afterAll hs
    (accounts.map fun a => .addAccount a.1 a.2)
  rw [← hw, List.nil_append] at hhistory
  have hnone : openings suite x y (timeline suite (ofSeed seed config)
      (accounts.map fun a => .addAccount a.1 a.2)) = [] := by
    refine List.filterMap_eq_nil_iff.mpr fun m hm => ?_
    obtain ⟨name, devices, hcall⟩ := hcalls _ _ m hm
    exact if_neg (by simp [hcall])
  obtain ⟨-, -, hpending, hinitiates, hresponses⟩ := hhistory
  rw [hnone] at hpending hinitiates hresponses
  refine ⟨hsound, nofun, fun q hq => ?_, fun i hi => ?_, fun r hr => ?_⟩
  · exact absurd (hpending q hq) List.not_mem_nil
  · obtain ⟨q, hq, -⟩ := hinitiates i hi
    exact absurd hq List.not_mem_nil
  · obtain ⟨-, -, q, hq, -⟩ := hresponses r hr
    exact absurd hq List.not_mem_nil

/-! ### Taking in a response -/

/-- A response with which a device says that it has established a session answers the exchange under
way, and the session is that of the two. -/
theorem established_spec (hs : suite.KeepsKeys) {m : Moment} (h : m.world.IsSound suite)
    (hcall : m.call = .deliver ⟨y, x⟩) {r : KeyExchangeMessage} {rest : List HandshakeMessage}
    (hmessages : m.world.network.messages ⟨y, x⟩ = .response r :: rest)
    (hstatus : m.answer suite = some .established) :
    ∃ q ratchet, m.world.pending? x y = some q ∧ q.sequence = r.sequence ∧
      suite.initialState (Party.exchangeParameters q r) = .ok ratchet ∧
      (m.after suite).Holds x y (.fresh q.identity.publicKey r.identityKey ratchet) := by
  obtain ⟨w, c⟩ := m
  subst hcall
  cases hd : w.devices.get? x with
  | none =>
    obtain ⟨e, es, hq, -⟩ := h.network.queue_of_messages hmessages
    have hrun : Call.run suite (.deliver ⟨y, x⟩) w = .error (.unknownDevice x) (w.pop ⟨y, x⟩) :=
      deliver_unknown hq hd
    rw [Moment.answer, hrun] at hstatus
    cases hstatus
  | some d =>
    obtain ⟨f, result, d', w', htakes, hcomes, hrun, hacted⟩ := takes_spec hs h hmessages hd
    have hrun' : Call.run suite (.deliver ⟨y, x⟩) w =
      finish x ((result.map HandshakeOutcome.status).map some) w' := hrun
    rw [Moment.answer, hrun'] at hstatus
    rw [Moment.after, World.after, hrun', ending_finish]
    cases hcomes with
    | refused | struck => cases hstatus
    | @done f o d' keeps contents status sent =>
      cases htakes with
      | @completed _ q ratchet now hpending hsequence hratchet =>
        refine ⟨q, ratchet, (pending?_eq hd y).trans hpending, hsequence, hratchet, ?_⟩
        refine holds_of_current hacted.sound hacted.device ?_
        rw [contents, Contents.complete, Contents.current_install_self]
      | stale =>
        have hstale : o.status = .stale := status
        have hsame : some o.status = some .established := hstatus
        rw [hstale] at hsame
        cases hsame

end History

/-! ### The result -/

/-- Where a device has drawn no number twice toward another, a response of which it says that it has
established a session was sent at an earlier step, in which the other device committed the session
from the other end: with the same root key, with ratchet keys and chains crosswise equal, and
between the same identities. -/
theorem agreed_of_established {dh : DiffieHellman} (hcommutative : dh.Commutative) {seed : UInt64}
    {config : SessionConfig} {accounts : List (String × Nat)} {operations : List Operation}
    {w : World} (hset : setUp (.tripleAgreement dh) accounts (ofSeed seed config) = .ok () w)
    {x y : Address} {before after : List Moment} {m : Moment}
    (hrun : timeline (.tripleAgreement dh) w (Operation.trace (.tripleAgreement dh) w operations) =
      before ++ m :: after)
    (hnumbers : ((openings (.tripleAgreement dh) x y before).map PendingExchange.sequence).Nodup)
    (hcall : m.call = .deliver ⟨y, x⟩) {r : KeyExchangeMessage} {rest : List HandshakeMessage}
    (hmessages : m.world.network.messages ⟨y, x⟩ = .response r :: rest)
    (hstatus : m.answer (.tripleAgreement dh) = some .established)
    (hbase : ∀ q, m.world.pending? x y = some q → q.base.publicKey ≠ r.baseKey) :
    ∃ earlier ∈ before, earlier.call = .deliver ⟨x, y⟩ ∧
      earlier.answer (.tripleAgreement dh) = some .established ∧
      ∃ ours theirs, (m.after (.tripleAgreement dh)).Holds x y ours ∧
        (earlier.after (.tripleAgreement dh)).Holds y x theirs ∧
        ours.ratchet.mirrors theirs.ratchet = true ∧
        ours.localIdentity = theirs.remoteIdentity ∧
        ours.remoteIdentity = theirs.localIdentity := by
  have hs := Suite.keepsKeys_tripleAgreement dh
  obtain ⟨calls, -, -, rfl, hworld⟩ := timeline_split hrun
  have hhistory : History (.tripleAgreement dh) x y _ m.world :=
    hworld ▸ (history_setUp hs hset).afterAll hs calls
  rw [List.nil_append] at hhistory
  obtain ⟨q, ratchet, hpending, hsequence, hratchet, hours⟩ :=
    established_spec hs hhistory.sound hcall hmessages hstatus
  obtain ⟨earlier, hmem, q', hq', k, flags, hanswers, rfl⟩ :=
    hhistory.responses r (by rw [hmessages]; exact List.mem_cons_self)
  obtain ⟨htaken, hestablished, hk, hnumber, ratchet', hratchet', htheirs⟩ := hanswers
  -- the response names the exchange under way, which is the one that was answered
  have hsame : q = q' := List.inj_on_of_nodup_map hnumbers (hhistory.pending q hpending) hq'
    (hsequence.trans hnumber)
  subst hsame
  have hne : q.base.publicKey ≠ k.base.publicKey := hbase q hpending
  refine ⟨earlier, hmem, ?_, hestablished, _, _, hours, htheirs, ?_, rfl, rfl⟩
  · rw [Moment.initiate?] at htaken
    split at htaken
    · assumption
    · cases htaken
  · exact mirrors_of_exchanges (Suite.agrees_tripleAgreement hcommutative)
      (hhistory.opened q hq') hk hne hratchet hratchet'

/-- What two sides come to when one opens an exchange and the other answers. -/
theorem playAll_answered {suite : Suite} {x y : Address} (hne : x ≠ y) (d e : Device) : ∃ n,
    (Player.playAll suite x y [.initiate x y, .deliver ⟨x, y⟩] (d.player, e.player)).1.side.inbox =
      [.response n (e.player.environment.exchange suite e.player.identity n)] ∧
    (Player.playAll suite x y [.initiate x y, .deliver ⟨x, y⟩]
      (d.player, e.player)).1.side.pending = some (n, d.player.opening suite) := by
  refine ⟨(d.player.opening suite).sequence, ?_⟩
  simp [Player.playAll, Player.play, hne, hne.symm, Player.opens, Player.takes, Player.answers,
    Device.player, Crossing.Side.start, Crossing.Side.opening, Player.push, Crossing.Side.push]

/-- Alice opens an exchange, and Bob answers. -/
def answered : List Call := [.initiate alice bob, .deliver ⟨alice, bob⟩]

theorem setUp_sample :
    setUp .modular [("alice", 1), ("bob", 1)] (ofSeed 1 default) = .ok () sample := by
  obtain ⟨w, hset, -, -, hw⟩ := setUp_spec Suite.completes_modular.keepsKeys
    [("alice", 1), ("bob", 1)] (isSound_ofSeed 1 default) (isClosed_ofSeed 1 default)
  have hsample : w = sample := hw.trans (by
    rw [List.map_cons, List.map_cons, List.map_nil, afterAll_cons, afterAll_cons]
    rfl)
  rw [hset, hsample]

theorem trace_answered :
    Operation.trace .modular sample [.initiate 0 1, .deliver 0 1, .deliver 1 0] =
    answered ++ [.deliver ⟨bob, alice⟩] := by
  have hs := Suite.completes_modular.keepsKeys
  have haddresses : sample.addresses = [alice, bob] := addresses_ofAccounts (by decide +kernel)
  have hall : ∀ calls : List Call, (∀ c ∈ calls, c.IsBetween alice bob) →
      (sample.afterAll .modular calls).addresses = [alice, bob] := by
    intro calls hcalls
    refine (addresses_afterAll hs (isReady_sample.reachable.isSound hs)
      fun c hc a ha => ?_).trans haddresses
    rw [haddresses]
    rcases hcalls c hc with rfl | rfl | rfl | rfl <;> rw [show a = _ from ha] <;> decide
  have hfirst := hall [.initiate alice bob] (by decide)
  have hsecond := hall answered (by decide)
  have hcalls : (Operation.initiate 0 1).calls .modular sample = [.initiate alice bob] := by
    rw [Operation.calls, haddresses]
    rfl
  have hcalls' : (Operation.deliver 0 1).calls .modular
      (sample.afterAll .modular [.initiate alice bob]) = [.deliver ⟨alice, bob⟩] := by
    rw [Operation.calls, hfirst]
    rfl
  have hlast : (Operation.deliver 1 0).calls .modular (sample.afterAll .modular answered) =
      [.deliver ⟨bob, alice⟩] := by
    rw [Operation.calls, hsecond]
    rfl
  have hboth : (sample.afterAll .modular [.initiate alice bob]).afterAll .modular
      [.deliver ⟨alice, bob⟩] =
      sample.afterAll .modular answered := (afterAll_append sample [.initiate alice bob] _).symm
  rw [Operation.trace_cons (by simp [haddresses]), hcalls, Operation.trace_cons (by simp [hfirst]),
    hcalls', hboth, Operation.trace_cons (by simp [hsecond]), hlast]
  rfl

theorem agreed_answered : ∃ earlier ∈ timeline .modular sample answered,
    earlier.call = .deliver ⟨alice, bob⟩ ∧ earlier.answer .modular = some .established ∧
      ∃ ours theirs,
        ((sample.afterAll .modular answered).after .modular
          (.deliver ⟨bob, alice⟩)).Holds alice bob ours ∧
        (earlier.after .modular).Holds bob alice theirs ∧
        ours.ratchet.mirrors theirs.ratchet = true ∧
        ours.localIdentity = theirs.remoteIdentity ∧
        ours.remoteIdentity = theirs.localIdentity := by
  have hs := Suite.completes_modular
  have hbetween : ∀ c ∈ answered, c.IsBetweenOrApart alice bob :=
    fun c hc => .inl (by revert c; decide)
  have hpair : (sample.afterAll .modular answered).Pair .modular alice bob
      (samplePlayers answered) := isReady_sample.pair_afterAll hs hbetween
  obtain ⟨n, hinbox, hpending⟩ := playAll_answered isReady_sample.ne
    (firstDevice .modular 1 default "alice") (secondDevice .modular 1 default "alice" "bob")
  obtain ⟨m, ms, hm, -, hmessages⟩ := List.forall₂_cons_left_iff.mp (hinbox ▸ hpair.first.inbox)
  cases hm
  have hrun : timeline .modular sample (Operation.trace .modular sample
      [.initiate 0 1, .deliver 0 1, .deliver 1 0]) = timeline .modular sample answered ++
        [⟨sample.afterAll .modular answered, .deliver ⟨bob, alice⟩⟩] := by
    rw [trace_answered, timeline_snoc]
  refine agreed_of_established DiffieHellman.commutative_modular setUp_sample hrun ?_ rfl hmessages
    (hpair.established hs hinbox hpending) fun q hq => ?_
  · have hlength : (openings .modular alice bob (timeline .modular sample answered)).length = 1 :=
      length_openings hs.keepsKeys answered (isReady_sample.reachable.isSound hs.keepsKeys)
        (Option.isSome_iff_exists.mpr ⟨_, isReady_sample.first.device⟩)
    obtain ⟨q, hq⟩ := List.length_eq_one_iff.mp hlength
    rw [hq]
    exact List.nodup_singleton _
  · obtain ⟨d, hd, hshows⟩ := hpair.first.device
    have hown := (hshows.pending.trans (congrArg _ hpending)).symm.trans
      ((pending?_eq hd bob).symm.trans hq)
    cases hown
    refine KeyPair.publicKey_ne_of_residue (Suite.owns_keyPair ..) (Suite.owns_keyPair ..) ?_
    -- the keys are drawn before the number is known
    show DiffieHellman.residue
      ((firstDevice .modular 1 default "alice").player.opening .modular).base.secretKey ≠
      DiffieHellman.residue
        ((secondDevice .modular 1 default "alice" "bob").player.environment.exchange
        .modular default 0).base.secretKey
    rw [Device.player, Device.player, environment_firstDevice, environment_secondDevice]
    decide +kernel

end World

end SecureSession
