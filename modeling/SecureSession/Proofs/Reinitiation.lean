import SecureSession.Proofs.Crossing.OneSided
import SecureSession.Proofs.Simulation.Growth
import SecureSession.Proofs.Simulation.PairSessions

/-! # A device that opens exchanges again and again

One of two devices opens exchanges with the other, any number of them and in any order with
deliveries, and the other opens none. Every initiate is answered; a response counts if its exchange
is the one opened last, and is dropped otherwise; and once nothing is on the way both hold the
session of the exchange opened last (`World.converged_of_one_sided_initiates`). -/

namespace SecureSession

open Crossing

variable {suite : Suite} {x y : Address}

/-! ### Players -/

namespace Player

/-- Taking in a leg opens no exchange. -/
theorem opened_takes (a b : Player) : (a.takes suite b).1.side.opened = a.side.opened := by
  rcases hinbox : a.side.inbox with _ | ⟨⟨n, k⟩ | ⟨n, k⟩, rest⟩
  · rw [takes, hinbox]
  · rw [takes_initiate hinbox, answers]
    split <;> rfl
  · rw [takes_response hinbox]
    exact (a.completes_eq n k rest).2.2.1

section Alone
variable {p : Player × Player} {rounds : List (Round PendingExchange)}
  {coming : List (UInt32 × PendingExchange)}

/-- A call at which the second player opens no exchange. -/
theorem alone_play {c : World.Call} (hc : c ≠ .initiate y x)
    (h : Alone rounds coming p.1.side p.2.side)
    (hnodup : ((play suite x y c p).1.side.opened.map Prod.fst).Nodup) :
    ∃ rounds' coming',
      Alone rounds' coming' (play suite x y c p).1.side (play suite x y c p).2.side := by
  rw [play] at hnodup ⊢
  split_ifs at hnodup ⊢
  · exact ⟨rounds, h.step (step_opens ..) hnodup⟩
  · rcases step_takes suite p.1 p.2 with heq | hstep
    · rw [heq]
      exact ⟨rounds, coming, h⟩
    · exact ⟨rounds, h.step hstep hnodup⟩
  · rcases step_takes suite p.2 p.1 with heq | hstep
    · rw [heq]
      exact ⟨rounds, coming, h⟩
    · exact h.step' hstep ((opened_takes p.2 p.1).trans h.opened')
  · exact ⟨rounds, coming, h⟩

/-- Players of whom the second opens no exchange stay so. -/
theorem alone_playAll :
    ∀ (l : List World.Call) {p : Player × Player} {rounds : List (Round PendingExchange)}
    {coming : List (UInt32 × PendingExchange)}, .initiate y x ∉ l →
    Alone rounds coming p.1.side p.2.side →
    ((playAll suite x y l p).1.side.opened.map Prod.fst).Nodup → ∃ rounds' coming',
      Alone rounds' coming' (playAll suite x y l p).1.side (playAll suite x y l p).2.side
  | [], _, rounds, coming, _, h, _ => ⟨rounds, coming, h⟩
  | c :: l, p, _, _, hone, h, hnodup => by
    rw [List.mem_cons, not_or] at hone
    obtain ⟨hc, hrest⟩ := hone
    obtain ⟨hextends, -⟩ := opened_playAll suite x y l (play suite x y c p)
    obtain ⟨rounds', coming', h'⟩ := alone_play (Ne.symm hc) h
      ((hextends.map Prod.fst).sublist.nodup hnodup)
    exact alone_playAll l hrest h' hnodup

end Alone

end Player

namespace World

variable {w : World} {d e : Device} {p : Player × Player}

/-! ### Sessions of an exchange -/

/-- Whether a device holds the session with another that starts from its own keys
and the keys of the other. -/
def HoldsMadeOf (suite : Suite) (w : World) (x y : Address)
    (ours theirs : PendingExchange) : Prop :=
  ∃ ratchet, suite.initialState (Party.exchangeParameters ours (theirs.leg .initiate)) =
    .ok ratchet ∧ w.Holds x y (.fresh ours.identity.publicKey theirs.identity.publicKey ratchet)

theorem Pair.holdsMadeOf (h : w.Pair suite x y p) {k k' : PendingExchange}
    (hs : p.1.side.session = some (k, k')) : w.HoldsMadeOf suite x y k k' := by
  obtain ⟨d, hd, hshows⟩ := h.first.device
  obtain ⟨ratchet, hratchet, hcurrent⟩ := hshows.session k k' hs
  exact ⟨ratchet, hratchet, holds_of_current h.sound hd hcurrent⟩

theorem Pair.pending?_eq_none (h : w.Pair suite x y p) (hp : p.1.side.pending = none) :
    w.pending? x y = none := by
  obtain ⟨d, hd, hshows⟩ := h.first.device
  rw [pending?_eq hd, hshows.pending, hp]
  rfl

/-! ### Between two calls -/

section Runs
variable (h : w.IsReady suite x d y e) (hs : suite.Completes) {calls : List Call}
  (hcalls : ∀ c ∈ calls, c.IsBetweenOrApart x y) (hone : .initiate y x ∉ calls)
  (hnumbers : ((openings suite x y (timeline suite w calls)).map PendingExchange.sequence).Nodup)
include h hs hcalls hone hnumbers

theorem IsReady.alone : ∃ rounds coming,
    Alone rounds coming (Player.playAll suite x y calls (d.player, e.player)).1.side
      (Player.playAll suite x y calls (d.player, e.player)).2.side := by
  refine Player.alone_playAll calls hone alone_start ?_
  rwa [← h.numbers_eq hs hcalls]

/-- Whatever is delivered to the device that opens no exchange establishes a session. -/
theorem IsReady.established_of_queue (hqueue : (w.afterAll suite calls).network.queue ⟨x, y⟩ ≠ []) :
    (⟨w.afterAll suite calls, .deliver ⟨x, y⟩⟩ : Moment).answer suite = some .established := by
  have hpair := h.pair_afterAll hs hcalls
  obtain ⟨rounds, coming, halone⟩ := h.alone hs hcalls hone hnumbers
  obtain ⟨leg, rest, hinbox⟩ := List.exists_cons_of_ne_nil fun hnil =>
    hqueue (hpair.second.queue_eq_nil hpair.sound hnil)
  obtain ⟨n, k, rfl⟩ := halone.initiate_of_inbox hinbox
  exact hpair.swap.established_of_initiate hs hinbox

/-- Whatever is delivered to the device that opens exchanges is a response to one of
them. It establishes a session if that is the exchange opened last, and is dropped if
another has been opened since. -/
theorem IsReady.response_of_queue (hqueue : (w.afterAll suite calls).network.queue ⟨y, x⟩ ≠ []) :
    ∃ r rest, (w.afterAll suite calls).network.messages ⟨y, x⟩ = .response r :: rest ∧
      ∃ q ∈ openings suite x y (timeline suite w calls), q.sequence = r.sequence ∧
        ((openings suite x y (timeline suite w calls)).getLast? = some q →
          (⟨w.afterAll suite calls, .deliver ⟨y, x⟩⟩ : Moment).answer suite = some .established) ∧
        ((openings suite x y (timeline suite w calls)).getLast? ≠ some q →
          (⟨w.afterAll suite calls, .deliver ⟨y, x⟩⟩ : Moment).answer suite = some .stale ∧
          ((w.afterAll suite calls).after suite (.deliver ⟨y, x⟩)).session x y =
            (w.afterAll suite calls).session x y) := by
  have hpair := h.pair_afterAll hs hcalls
  obtain ⟨rounds, coming, halone⟩ := h.alone hs hcalls hone hnumbers
  obtain ⟨leg, rest, hinbox⟩ := List.exists_cons_of_ne_nil fun hnil =>
    hqueue (hpair.first.queue_eq_nil hpair.sound hnil)
  obtain ⟨n, k', rfl⟩ := halone.response_of_inbox hinbox
  obtain ⟨m, ms, hm, -, hmessages⟩ := List.forall₂_cons_left_iff.mp (hinbox ▸ hpair.first.inbox)
  cases hm
  obtain ⟨q, hmem⟩ := halone.exists_opened hinbox
  have hopened := h.opened_eq hs hcalls
  obtain ⟨q', hq, heq⟩ := List.mem_map.mp (hopened ▸ hmem)
  cases heq
  have hlast : (openings suite x y (timeline suite w calls)).getLast? = some q ↔
      (Player.playAll suite x y calls (d.player, e.player)).1.side.opened.getLast? =
        some (q.sequence, q) := by
    rw [hopened, List.getLast?_map, Option.map_eq_some_iff]
    simp
  refine ⟨_, ms, hmessages, q, hq, rfl, fun hq => ?_, fun hq => ?_⟩
  · exact hpair.established hs hinbox ((halone.pending_eq hinbox).trans (hlast.mp hq))
  · rw [h.numbers_eq hs hcalls] at hnumbers
    exact hpair.stale hs hinbox
      (halone.pending_ne_of_superseded hinbox hnumbers hmem fun heq => hq (hlast.mpr heq))

/-- Once nothing is on the way, both devices hold the session of the exchange opened last, and no
exchange is under way. -/
theorem IsReady.converged_of_quiet (ha : suite.Agrees) (hsome : .initiate x y ∈ calls)
    (hquiet : (w.afterAll suite calls).network.queue ⟨x, y⟩ = [])
    (hquiet' : (w.afterAll suite calls).network.queue ⟨y, x⟩ = [])
    (hbase : ∀ q ∈ drawn suite x y (timeline suite w calls),
      ∀ q' ∈ drawn suite y x (timeline suite w calls), q.base.publicKey ≠ q'.base.publicKey) :
    (w.afterAll suite calls).pending? x y = none ∧
      ∃ q k, (openings suite x y (timeline suite w calls)).getLast? = some q ∧
        (drawn suite y x (timeline suite w calls)).getLast? = some k ∧
        (w.afterAll suite calls).HoldsMadeOf suite x y q k ∧
        (w.afterAll suite calls).HoldsMadeOf suite y x k q ∧
        (w.afterAll suite calls).converged x y = .ok true := by
  have hpair := h.pair_afterAll hs hcalls
  obtain ⟨rounds, coming, halone⟩ := h.alone hs hcalls hone hnumbers
  have hopened := h.opened_eq hs hcalls
  have hne := openings_ne_nil hs.keepsKeys (h.reachable.isSound hs.keepsKeys) h.first.device hsome
  obtain ⟨n, q, k, hlast, hdrawn, hpending, hsession, hsession'⟩ := halone.session_of_quiet
    (hpair.first.inbox_eq_nil hquiet') (hpair.second.inbox_eq_nil hquiet) (by simp [hopened, hne])
  rw [hopened, List.getLast?_map] at hlast
  obtain ⟨q', hlast', heq⟩ := Option.map_eq_some_iff.mp hlast
  cases heq
  rw [← h.drawn_eq' hs hcalls] at hdrawn
  refine ⟨hpair.pending?_eq_none hpending, q, k, hlast', hdrawn, hpair.holdsMadeOf hsession,
    hpair.swap.holdsMadeOf hsession', hpair.converged_of_same ha hsession hsession' ?_⟩
  refine hbase q ?_ k (List.mem_of_getLast? hdrawn)
  rw [h.drawn_eq hs hcalls]
  exact (hpair.sourced.session _ _ hsession).1

end Runs

/-! ### The result -/

/-- If one of two devices opens exchanges with the other, any number of them and in any order
with deliveries, and the other opens none, then every delivery to the other establishes a
session; every delivery to the one is a response to an exchange that it opened, which establishes
a session if that exchange is the last so far, and otherwise is stale and leaves the record as it
is; and once nothing is on the way, no exchange is under way and both devices hold the session of
the exchange opened last. -/
theorem converged_of_one_sided_initiates {dh : DiffieHellman} (hcommutative : dh.Commutative)
    (hcontributory : dh.Contributory) (h : w.IsReady (.tripleAgreement dh) x d y e)
    {calls : List Call} (hcalls : ∀ c ∈ calls, c.IsBetweenOrApart x y)
    (hsome : .initiate x y ∈ calls) (hone : .initiate y x ∉ calls) :
    let suite := Suite.tripleAgreement dh
    let run := timeline suite w calls
    let w' := w.afterAll suite calls
    ((openings suite x y run).map PendingExchange.sequence).Nodup →
    (∀ q ∈ drawn suite x y run, ∀ q' ∈ drawn suite y x run,
      q.base.publicKey ≠ q'.base.publicKey) →
    (∀ before m after, run = before ++ m :: after →
      (m.call = .deliver ⟨x, y⟩ → m.world.network.queue ⟨x, y⟩ ≠ [] →
        m.answer suite = some .established) ∧
      (m.call = .deliver ⟨y, x⟩ → m.world.network.queue ⟨y, x⟩ ≠ [] →
        ∃ r rest, m.world.network.messages ⟨y, x⟩ = .response r :: rest ∧
          ∃ q ∈ openings suite x y before, q.sequence = r.sequence ∧
            ((openings suite x y before).getLast? = some q →
              m.answer suite = some .established) ∧
            ((openings suite x y before).getLast? ≠ some q →
              m.answer suite = some .stale ∧
              (m.after suite).session x y = m.world.session x y))) ∧
    (w'.network.queue ⟨x, y⟩ = [] → w'.network.queue ⟨y, x⟩ = [] →
      w'.pending? x y = none ∧
      ∃ q k, (openings suite x y run).getLast? = some q ∧
        (drawn suite y x run).getLast? = some k ∧
        w'.HoldsMadeOf suite x y q k ∧ w'.HoldsMadeOf suite y x k q ∧
        w'.converged x y = .ok true) := by
  intro suite run w' hnumbers hbase
  have hs := Suite.completes_tripleAgreement hcontributory
  refine ⟨fun before m after hrun => ?_, fun hquiet hquiet' => h.converged_of_quiet hs hcalls
    hone hnumbers (Suite.agrees_tripleAgreement hcommutative) hsome hquiet hquiet' hbase⟩
  obtain ⟨earlier, later, hsplit, rfl, hworld⟩ := timeline_split hrun
  obtain ⟨v, c⟩ := m
  obtain rfl : v = w.afterAll suite earlier := hworld
  rw [hsplit] at hcalls hone
  have hcalls' : ∀ c ∈ earlier, c.IsBetweenOrApart x y :=
    fun c hc => hcalls c (List.mem_append_left _ hc)
  have hone' : .initiate y x ∉ earlier := fun hmem => hone (List.mem_append_left _ hmem)
  have hnumbers' : ((openings suite x y (timeline suite w earlier)).map
      PendingExchange.sequence).Nodup := by
    rw [hrun, openings, List.filterMap_append, List.map_append] at hnumbers
    exact (List.nodup_append.mp hnumbers).1
  refine ⟨fun hcall hqueue => ?_, fun hcall hqueue => ?_⟩
  · obtain rfl : c = .deliver ⟨x, y⟩ := hcall
    exact h.established_of_queue hs hcalls' hone' hnumbers' hqueue
  · obtain rfl : c = .deliver ⟨y, x⟩ := hcall
    exact h.response_of_queue hs hcalls' hone' hnumbers' hqueue

/-! ### A response that comes too late -/

section Superseded

/-- Alice opens an exchange, Bob answers, and Alice opens another. -/
def superseding : List Call := [.initiate alice bob, .deliver ⟨alice, bob⟩, .initiate alice bob]

/-- Then both answers of Bob come in. -/
def reinitiating : List Call :=
  superseding ++ [.deliver ⟨bob, alice⟩, .deliver ⟨alice, bob⟩, .deliver ⟨bob, alice⟩]

theorem playAll_superseding : ∃ n m q q' k,
    (samplePlayers superseding).1.side.inbox = [.response n k] ∧
    (samplePlayers superseding).1.side.opened = [(n, q), (m, q')] := by
  simp [samplePlayers, superseding, Player.playAll, Player.play, Player.opens, Player.takes,
    Player.answers, Device.player, Crossing.Side.start, Crossing.Side.opening, Player.push,
    Crossing.Side.push, alice, bob]

theorem between_reinitiating : ∀ c ∈ reinitiating, c.IsBetweenOrApart alice bob :=
  fun c hc => .inl (by revert c; decide)

/-- Alice's numbers differ, and in the end nothing is on the way. -/
theorem playAll_reinitiating : ((samplePlayers reinitiating).1.side.opened.map Prod.fst).Nodup ∧
    (samplePlayers reinitiating).1.side.inbox.isEmpty ∧
    (samplePlayers reinitiating).2.side.inbox.isEmpty := by
  rw [samplePlayers_eq]
  decide +kernel

/-- The first answer is stale, and the second makes the session of the second exchange. -/
theorem converged_reinitiating :
    (⟨sample.afterAll .modular superseding, .deliver ⟨bob, alice⟩⟩ : Moment).answer .modular =
      some .stale ∧
    (sample.afterAll .modular reinitiating).pending? alice bob = none ∧
    (sample.afterAll .modular reinitiating).converged alice bob = .ok true := by
  have hs := Suite.completes_modular
  obtain ⟨hnodup, hempty, hempty'⟩ := playAll_reinitiating
  have hnumbers : ((openings .modular alice bob (timeline .modular sample reinitiating)).map
      PendingExchange.sequence).Nodup := by
    rw [isReady_sample.numbers_eq hs between_reinitiating]
    exact hnodup
  obtain ⟨hrun, hend⟩ := converged_of_one_sided_initiates DiffieHellman.commutative_modular
    DiffieHellman.contributory_modular isReady_sample between_reinitiating (by decide) (by decide)
    hnumbers (base_ne_of_residues between_reinitiating (by rw [samplePlayers_eq]; decide +kernel))
  have hquiet := isReady_sample.queues_eq_nil hs between_reinitiating
    (List.isEmpty_iff.mp hempty) (List.isEmpty_iff.mp hempty')
  obtain ⟨hpending, q, k, -, -, -, -, hconverged⟩ := hend hquiet.1 hquiet.2
  refine ⟨?_, hpending, hconverged⟩
  -- the answer is to the first exchange, and the second one has another number
  have hbetween : ∀ c ∈ superseding, c.IsBetweenOrApart alice bob := fun c hc =>
    between_reinitiating c (List.mem_append_left _ hc)
  obtain ⟨n, m, q₁, q₂, k₁, hinbox, hopened⟩ := playAll_superseding
  have hne : n ≠ m := by
    have hextends := (Player.opened_playAll .modular alice bob
      [.deliver ⟨bob, alice⟩, .deliver ⟨alice, bob⟩, .deliver ⟨bob, alice⟩]
        (samplePlayers superseding)).1
    rw [hopened] at hextends
    simpa using (hextends.map Prod.fst).sublist.nodup hnodup
  have hpair := isReady_sample.pair_afterAll hs hbetween
  obtain ⟨message, rest, hcarries, -, hmessages⟩ :=
    List.forall₂_cons_left_iff.mp (hinbox ▸ hpair.first.inbox)
  cases hcarries
  have hqueue : (sample.afterAll .modular superseding).network.queue ⟨bob, alice⟩ ≠ [] :=
    fun hnil => by
      have hnone := hpair.first.inbox_eq_nil hnil
      cases hinbox.symm.trans hnone
  obtain ⟨r, rest', hresponse, q, hq, hnumber, -, hstale⟩ :=
    (hrun (timeline .modular sample superseding) _ _
      (timeline_append superseding _ sample)).2 rfl hqueue
  cases hresponse.symm.trans hmessages
  refine (hstale fun hlast => hne ?_).1
  have hnumbers := congrArg List.getLast? (isReady_sample.opened_eq hs hbetween)
  rw [List.getLast?_map, hlast] at hnumbers
  cases (congrArg List.getLast? hopened).symm.trans hnumbers
  exact hnumber.symm

end Superseded

end World

end SecureSession
