import SecureSession.Proofs.Simulation.PairSessions

/-! # Two devices that open exchanges with each other

If each side opens one exchange, in any order with deliveries, both come to one session
(`World.converged_of_single_initiates`). If sides open exchanges again and again they need not:
whether they do is told by how many initiates each has taken in since it last opened an exchange
(`World.converged_eq_meets`). -/

namespace SecureSession

open Crossing

namespace World

variable {suite : Suite} {w : World} {x y : Address} {d e : Device} {p : Player × Player}

/-! ### One exchange a side -/

/-- If each of two devices opens one exchange with the other, in any order with deliveries between
them, every delivery succeeds, and both hold one session once nothing is on the way. -/
theorem converged_of_single_initiates {dh : DiffieHellman} (hcommutative : dh.Commutative)
    (hcontributory : dh.Contributory) (h : w.IsReady (.tripleAgreement dh) x d y e)
    {calls : List Call} (hcalls : ∀ c ∈ calls, c.IsBetweenOrApart x y)
    (hx : calls.count (.initiate x y) = 1) (hy : calls.count (.initiate y x) = 1) :
    let suite := Suite.tripleAgreement dh
    let run := timeline suite w calls
    let w' := w.afterAll suite calls
    (∀ q ∈ drawn suite x y run, ∀ q' ∈ drawn suite y x run,
      q.base.publicKey ≠ q'.base.publicKey) →
    (∀ m ∈ run, m.call.IsBetween x y → ∃ status v, m.call.run suite m.world = .ok status v) ∧
    (w'.network.queue ⟨x, y⟩ = [] → w'.network.queue ⟨y, x⟩ = [] →
      w'.converged x y = .ok true) := by
  intro suite run w' hbase
  have hs := Suite.completes_tripleAgreement hcontributory
  have hsound := h.reachable.isSound hs.keepsKeys
  refine ⟨((h.pair hs.keepsKeys).run hs h.ne hcalls).2.2.2, fun hquiet hquiet' => ?_⟩
  have hlength := (length_openings hs.keepsKeys calls hsound
    (Option.isSome_iff_exists.mpr ⟨d, h.first.device⟩)).trans hx
  have hlength' := (length_openings hs.keepsKeys calls hsound
    (Option.isSome_iff_exists.mpr ⟨e, h.second.device⟩)).trans hy
  -- a side that opens one exchange repeats no number, and takes in one initiate at most
  have hone : ∀ l : List PendingExchange, l.length = 1 →
      (l.map PendingExchange.sequence).Nodup := by
    intro l hl
    obtain ⟨q, rfl⟩ := List.length_eq_one_iff.mp hl
    exact List.pairwise_singleton ..
  have hle := h.answers_le hs hcalls (hone _ hlength) (hone _ hlength')
  have hle' := h.swap.answers_le hs (fun c hc => (hcalls c hc).swap) (hone _ hlength')
    (hone _ hlength)
  refine h.converged_of_meets hs hcalls (hone _ hlength) (hone _ hlength')
    (Suite.agrees_tripleAgreement hcommutative) (.inl ?_) hquiet hquiet' hbase ?_
  · exact List.count_pos_iff.mp (by omega)
  · unfold Meets
    omega

/-- Each side opens an exchange before it takes in that of the other. -/
def crossing : List Call :=
  [.initiate alice bob, .initiate bob alice, .deliver ⟨alice, bob⟩, .deliver ⟨bob, alice⟩,
    .deliver ⟨alice, bob⟩, .deliver ⟨bob, alice⟩]

theorem converged_crossing :
    (sample.afterAll .modular crossing).converged alice bob = .ok true := by
  have hcalls : ∀ c ∈ crossing, c.IsBetweenOrApart alice bob :=
    fun c hc => .inl (by revert c; decide)
  have hempty : (samplePlayers crossing).1.side.inbox.isEmpty ∧
      (samplePlayers crossing).2.side.inbox.isEmpty := by
    rw [samplePlayers_eq]
    decide +kernel
  have hquiet := isReady_sample.queues_eq_nil Suite.completes_modular hcalls
    (List.isEmpty_iff.mp hempty.1) (List.isEmpty_iff.mp hempty.2)
  refine (converged_of_single_initiates DiffieHellman.commutative_modular
    DiffieHellman.contributory_modular isReady_sample hcalls (by decide) (by decide)
    (base_ne_of_residues hcalls ?_)).2 hquiet.1 hquiet.2
  rw [samplePlayers_eq]
  decide +kernel

/-! ### Any number of exchanges -/

/-- Two devices that open exchanges with each other, any number of them and in any order with
deliveries, hold one session once nothing is on the way exactly if, since it last opened an
exchange, one of them has taken in no initiate, or each has taken in one. -/
theorem converged_eq_meets {dh : DiffieHellman} (hcommutative : dh.Commutative)
    (hcontributory : dh.Contributory) (h : w.IsReady (.tripleAgreement dh) x d y e)
    {calls : List Call} (hcalls : ∀ c ∈ calls, c.IsBetweenOrApart x y)
    (hsome : .initiate x y ∈ calls ∨ .initiate y x ∈ calls) :
    let suite := Suite.tripleAgreement dh
    let run := timeline suite w calls
    let w' := w.afterAll suite calls
    ((openings suite x y run).map PendingExchange.sequence).Nodup →
    ((openings suite y x run).map PendingExchange.sequence).Nodup →
    ((drawn suite x y run ++ drawn suite y x run).flatMap PendingExchange.publicKeys).Nodup →
    w'.network.queue ⟨x, y⟩ = [] → w'.network.queue ⟨y, x⟩ = [] →
    w'.converged x y = .ok (decide (Meets (answers x y run) (answers y x run))) := by
  intro suite run w' hnumbers hnumbers' hkeys hquiet hquiet'
  have hs := Suite.completes_tripleAgreement hcontributory
  by_cases hmeets : Meets (answers x y run) (answers y x run)
  · rw [decide_eq_true hmeets]
    refine h.converged_of_meets hs hcalls hnumbers hnumbers'
      (Suite.agrees_tripleAgreement hcommutative) hsome hquiet hquiet'
      (fun q hq q' hq' => ?_) hmeets
    have hsub := (List.singleton_sublist.mpr hq).append (List.singleton_sublist.mpr hq')
    exact (publicKeys_ne hkeys hsub).1
  · rw [decide_eq_false hmeets]
    rw [List.flatMap_append] at hkeys
    exact h.converged_of_not_meets hs hcalls hnumbers hnumbers' hsome hquiet hquiet'
      (List.nodup_append.mp hkeys).1 (List.nodup_append.mp hkeys).2.1 hmeets

/-- Alice opens two exchanges, and Bob one in between. -/
def recrossing : List Call :=
  [.initiate alice bob, .initiate bob alice, .initiate alice bob, .deliver ⟨alice, bob⟩,
    .deliver ⟨bob, alice⟩, .deliver ⟨alice, bob⟩, .deliver ⟨bob, alice⟩, .deliver ⟨alice, bob⟩,
    .deliver ⟨bob, alice⟩]

section Recrossing

theorem between_recrossing : ∀ c ∈ recrossing, c.IsBetweenOrApart alice bob :=
  fun c hc => .inl (by revert c; decide)

/-- The numbers differ, in the end nothing is on the way, and what each has taken in since it last
opened an exchange. -/
theorem playAll_recrossing :
    ((samplePlayers recrossing).1.side.opened.map Prod.fst ++
      (samplePlayers recrossing).2.side.opened.map Prod.fst).Nodup ∧
    (samplePlayers recrossing).1.side.inbox.isEmpty ∧
    (samplePlayers recrossing).2.side.inbox.isEmpty ∧
    (samplePlayers recrossing).1.side.answers = 1 ∧
    (samplePlayers recrossing).2.side.answers = 2 := by
  rw [samplePlayers_eq]
  decide +kernel

theorem nodup_numbers_recrossing :
    ((openings .modular alice bob (timeline .modular sample recrossing)).map
        PendingExchange.sequence ++
      (openings .modular bob alice (timeline .modular sample recrossing)).map
        PendingExchange.sequence).Nodup := by
  rw [isReady_sample.numbers_eq Suite.completes_modular between_recrossing,
    isReady_sample.numbers_eq' Suite.completes_modular between_recrossing]
  exact playAll_recrossing.1

theorem nodup_keys_recrossing : ((drawn .modular alice bob (timeline .modular sample recrossing) ++
    drawn .modular bob alice (timeline .modular sample recrossing)).flatMap
      PendingExchange.publicKeys).Nodup := by
  refine nodup_publicKeys (fun q hq => ?_) ?_
  · rcases List.mem_append.mp hq with hq | hq
    · exact isReady_sample.isSound_drawn Suite.completes_modular between_recrossing hq
    · exact isReady_sample.swap.isSound_drawn Suite.completes_modular
        (fun c hc => (between_recrossing c hc).swap) hq
  · rw [isReady_sample.drawn_eq Suite.completes_modular between_recrossing,
      isReady_sample.drawn_eq' Suite.completes_modular between_recrossing]
    show (((samplePlayers recrossing).1.side.keys ++ (samplePlayers recrossing).2.side.keys).flatMap
      residues).Nodup
    rw [samplePlayers_eq]
    decide +kernel

theorem quiet_recrossing : (sample.afterAll .modular recrossing).network.queue ⟨alice, bob⟩ = [] ∧
    (sample.afterAll .modular recrossing).network.queue ⟨bob, alice⟩ = [] :=
  isReady_sample.queues_eq_nil Suite.completes_modular between_recrossing
    (List.isEmpty_iff.mp playAll_recrossing.2.1) (List.isEmpty_iff.mp playAll_recrossing.2.2.1)

theorem answers_recrossing : answers alice bob (timeline .modular sample recrossing) = 1 ∧
    answers bob alice (timeline .modular sample recrossing) = 2 := by
  rw [isReady_sample.answers_eq Suite.completes_modular between_recrossing,
    isReady_sample.answers_eq' Suite.completes_modular between_recrossing]
  exact playAll_recrossing.2.2.2

/-- Here Bob takes in two initiates after he opened his exchange, and Alice one after hers. -/
theorem converged_recrossing : (sample.afterAll .modular recrossing).converged alice bob =
    .ok (decide (Meets 1 2)) := by
  obtain ⟨hnumbers, hnumbers', -⟩ := List.nodup_append.mp nodup_numbers_recrossing
  have h := converged_eq_meets DiffieHellman.commutative_modular DiffieHellman.contributory_modular
    isReady_sample between_recrossing (.inl (by decide)) hnumbers hnumbers' nodup_keys_recrossing
    quiet_recrossing.1 quiet_recrossing.2
  rwa [answers_recrossing.1, answers_recrossing.2] at h

/-- Two devices without records of each other, all of whose numbers and keys are distinct, may end
up with different sessions and nothing on the way. -/
theorem not_converged_recrossing :
    let run := timeline .modular sample recrossing
    let w' := sample.afterAll .modular recrossing
    DiffieHellman.modular.Commutative ∧ DiffieHellman.modular.Contributory ∧
    sample.IsReady .modular alice (firstDevice .modular 1 default "alice") bob
      (secondDevice .modular 1 default "alice" "bob") ∧
    (firstDevice .modular 1 default "alice").contents.record bob = .empty ∧
    (secondDevice .modular 1 default "alice" "bob").contents.record alice = .empty ∧
    (∀ c ∈ recrossing, c.IsBetween alice bob) ∧
    ((openings .modular alice bob run).map PendingExchange.sequence ++
      (openings .modular bob alice run).map PendingExchange.sequence).Nodup ∧
    ((drawn .modular alice bob run ++ drawn .modular bob alice run).flatMap
      PendingExchange.publicKeys).Nodup ∧
    .initiate alice bob ∈ recrossing ∧
    w'.network.queue ⟨alice, bob⟩ = [] ∧ w'.network.queue ⟨bob, alice⟩ = [] ∧
    w'.converged alice bob = .ok false := by
  obtain ⟨hnumbers, hnumbers', -⟩ := List.nodup_append.mp nodup_numbers_recrossing
  have hkeys := nodup_keys_recrossing
  rw [List.flatMap_append] at hkeys
  obtain ⟨hdrawn, hdrawn', -⟩ := List.nodup_append.mp hkeys
  have hmeets : ¬Meets (answers alice bob (timeline .modular sample recrossing))
      (answers bob alice (timeline .modular sample recrossing)) := by
    rw [answers_recrossing.1, answers_recrossing.2]
    decide
  refine ⟨DiffieHellman.commutative_modular, DiffieHellman.contributory_modular, isReady_sample,
    rfl, rfl, by decide, nodup_numbers_recrossing, nodup_keys_recrossing, by decide,
    quiet_recrossing.1, quiet_recrossing.2, ?_⟩
  exact isReady_sample.converged_of_not_meets Suite.completes_modular between_recrossing
    hnumbers hnumbers' (.inl (by decide)) quiet_recrossing.1 quiet_recrossing.2 hdrawn hdrawn'
    hmeets

end Recrossing

end World

end SecureSession
