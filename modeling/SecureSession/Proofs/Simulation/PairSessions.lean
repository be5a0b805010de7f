import Mathlib.Data.List.Nodup
import SecureSession.Proofs.Simulation.Ready

/-! # Sessions of two devices

What two devices do in a run, their players do (`World.IsReady.tells`). Once nothing is on the way,
both hold sessions with keys that the other side drew, and whether it is one session is told by
these keys (`World.IsReady.sessions`). -/

namespace SecureSession

open Crossing

namespace World

variable {suite : Suite} {w : World} {x y : Address} {d e : Device} {p : Player × Player}

/-- Whether the devices of a pair hold one session is whether the ratchets made of their
keys mirror each other. -/
theorem Pair.converged_eq (h : w.Pair suite x y p) {k₁ k₁' k₂ k₂' : PendingExchange}
    (hs : p.1.side.session = some (k₁, k₂')) (ht : p.2.side.session = some (k₂, k₁')) :
    ∃ r r', suite.initialState (Party.exchangeParameters k₁ (k₂'.leg .initiate)) = .ok r ∧
      suite.initialState (Party.exchangeParameters k₂ (k₁'.leg .initiate)) = .ok r' ∧
      w.converged x y = .ok (r.mirrors r') := by
  obtain ⟨d, hd, hshows⟩ := h.first.device
  obtain ⟨e, he, hshows'⟩ := h.second.device
  obtain ⟨r, hr, hcurrent⟩ := hshows.session _ _ hs
  obtain ⟨r', hr', hcurrent'⟩ := hshows'.session _ _ ht
  exact ⟨r, r', hr, hr', by rw [World.converged_eq h.sound hd he, hcurrent, hcurrent']; rfl⟩

theorem Pair.isSound_of_mem (h : w.Pair suite x y p) {k : PendingExchange}
    (hk : k ∈ p.1.side.keys) : k.IsSound suite := by
  obtain ⟨d, -, hshows⟩ := h.first.device
  exact (hshows.keys k hk).1

/-- Sides with the keys of each other hold one session. -/
theorem Pair.converged_of_same (h : w.Pair suite x y p) (ha : suite.Agrees) {k k' : PendingExchange}
    (hs : p.1.side.session = some (k, k')) (ht : p.2.side.session = some (k', k))
    (hne : k.base.publicKey ≠ k'.base.publicKey) : w.converged x y = .ok true := by
  obtain ⟨r, r', hr, hr', hconverged⟩ := h.converged_eq hs ht
  have hk := h.isSound_of_mem (h.sourced.session _ _ hs).1
  have hk' := h.swap.isSound_of_mem (h.sourced'.session _ _ ht).1
  rw [hconverged, mirrors_of_exchanges ha hk hk' hne hr hr']

/-- A side that has gone on to other keys than the other side knows holds another session. -/
theorem Pair.converged_of_ne (h : w.Pair suite x y p) (hc : suite.KeepsKeys)
    {k₁ k₁' k₂ k₂' : PendingExchange} (hs : p.1.side.session = some (k₁, k₂'))
    (ht : p.2.side.session = some (k₂, k₁'))
    (hne : k₁'.ephemeral.publicKey ≠ k₁.ephemeral.publicKey ∨
      k₂'.ephemeral.publicKey ≠ k₂.ephemeral.publicKey) : w.converged x y = .ok false := by
  obtain ⟨r, r', hr, hr', hconverged⟩ := h.converged_eq hs ht
  obtain ⟨hlocal, hremote, -⟩ := hc _ _ hr
  obtain ⟨hlocal', hremote', -⟩ := hc _ _ hr'
  rw [hconverged]
  cases hm : r.mirrors r' with
  | false => rfl
  | true =>
    obtain ⟨-, hours, htheirs⟩ := RatchetState.mirrors_iff.mp hm
    have hfirst : k₁'.ephemeral.publicKey = k₁.ephemeral.publicKey :=
      (hlocal.symm.trans (hours.trans hremote')).symm
    have hsecond : k₂'.ephemeral.publicKey = k₂.ephemeral.publicKey :=
      hremote.symm.trans (htheirs.trans hlocal')
    exact absurd hne (not_or.mpr ⟨fun h => h hfirst, fun h => h hsecond⟩)

/-! ### What a run comes to -/

theorem openings_ne_nil (hs : suite.KeepsKeys) (hsound : w.IsSound suite)
    (hd : w.devices.get? x = some d) {calls : List Call} (hmem : .initiate x y ∈ calls) :
    openings suite x y (timeline suite w calls) ≠ [] := by
  intro hnil
  have hlength : (openings suite x y (timeline suite w calls)).length =
      calls.count (.initiate x y) :=
    length_openings hs calls hsound (Option.isSome_iff_exists.mpr ⟨d, hd⟩)
  have hpos : 0 < calls.count (.initiate x y) := List.count_pos_iff.mpr hmem
  rw [hnil] at hlength
  exact absurd hpos (by rw [← hlength]; exact Nat.lt_irrefl 0)

section Runs
variable (h : w.IsReady suite x d y e) (hs : suite.Completes) {calls : List Call}
  (hcalls : ∀ c ∈ calls, c.IsBetweenOrApart x y)
include h hs hcalls

/-- What the first device does in a run, its player does. -/
theorem IsReady.tells : Tells suite (timeline suite w calls) x y .start
    (Player.playAll suite x y calls (d.player, e.player)).1.side :=
  ((h.pair hs.keepsKeys).run hs h.ne hcalls).2.1

theorem IsReady.tells' : Tells suite (timeline suite w calls) y x .start
    (Player.playAll suite x y calls (d.player, e.player)).2.side :=
  ((h.pair hs.keepsKeys).run hs h.ne hcalls).2.2.1

theorem IsReady.opened_eq : (Player.playAll suite x y calls (d.player, e.player)).1.side.opened =
    (openings suite x y (timeline suite w calls)).map fun q => (q.sequence, q) :=
  (h.tells hs hcalls).opened

theorem IsReady.numbers_eq :
    (openings suite x y (timeline suite w calls)).map PendingExchange.sequence =
    (Player.playAll suite x y calls (d.player, e.player)).1.side.opened.map Prod.fst := by
  rw [h.opened_eq hs hcalls, List.map_map]
  rfl

theorem IsReady.numbers_eq' :
    (openings suite y x (timeline suite w calls)).map PendingExchange.sequence =
    (Player.playAll suite x y calls (d.player, e.player)).2.side.opened.map Prod.fst := by
  rw [(h.tells' hs hcalls).opened]
  simp [Side.start]

theorem IsReady.drawn_eq : drawn suite x y (timeline suite w calls) =
    (Player.playAll suite x y calls (d.player, e.player)).1.side.keys :=
  (h.tells hs hcalls).keys.symm

theorem IsReady.drawn_eq' : drawn suite y x (timeline suite w calls) =
    (Player.playAll suite x y calls (d.player, e.player)).2.side.keys :=
  (h.tells' hs hcalls).keys.symm

theorem IsReady.answers_eq : answers x y (timeline suite w calls) =
    (Player.playAll suite x y calls (d.player, e.player)).1.side.answers :=
  (h.tells hs hcalls).answers.symm

theorem IsReady.answers_eq' : answers y x (timeline suite w calls) =
    (Player.playAll suite x y calls (d.player, e.player)).2.side.answers :=
  (h.tells' hs hcalls).answers.symm

/-- Nothing is on the way in the end if the players have nothing left to take in. -/
theorem IsReady.queues_eq_nil
    (hp : (Player.playAll suite x y calls (d.player, e.player)).1.side.inbox = [])
    (hp' : (Player.playAll suite x y calls (d.player, e.player)).2.side.inbox = []) :
    (w.afterAll suite calls).network.queue ⟨x, y⟩ = [] ∧
      (w.afterAll suite calls).network.queue ⟨y, x⟩ = [] := by
  have hpair := h.pair_afterAll hs hcalls
  exact ⟨hpair.second.queue_eq_nil hpair.sound hp', hpair.first.queue_eq_nil hpair.sound hp⟩

/-- The keys drawn in a run are made of secrets. -/
theorem IsReady.isSound_drawn {q : PendingExchange}
    (hq : q ∈ drawn suite x y (timeline suite w calls)) : q.IsSound suite := by
  have hpair := h.pair_afterAll hs hcalls
  rw [h.drawn_eq hs hcalls] at hq
  exact hpair.isSound_of_mem hq

section Quiet
variable (hnumbers :
  ((openings suite x y (timeline suite w calls)).map PendingExchange.sequence).Nodup)
  (hnumbers' : ((openings suite y x (timeline suite w calls)).map PendingExchange.sequence).Nodup)
include hnumbers hnumbers'

theorem IsReady.ordered : Ordered (Player.playAll suite x y calls (d.player, e.player)).1.side
    (Player.playAll suite x y calls (d.player, e.player)).2.side := by
  refine Player.ordered_playAll calls ordered_start ?_ ?_
  · rwa [← h.numbers_eq hs hcalls]
  · rwa [← h.numbers_eq' hs hcalls]

/-- No more initiates are taken in than the other side opened exchanges. -/
theorem IsReady.answers_le : answers x y (timeline suite w calls) ≤
    (openings suite y x (timeline suite w calls)).length := by
  have hle := (h.ordered hs hcalls hnumbers hnumbers').answers_le
  have hlength := congrArg List.length (h.numbers_eq' hs hcalls)
  rw [List.length_map, List.length_map] at hlength
  rw [h.answers_eq hs hcalls]
  omega

/-- Once nothing is on the way, both sides hold sessions with keys that the other side drew. -/
theorem IsReady.sessions (hsome : .initiate x y ∈ calls ∨ .initiate y x ∈ calls)
    (hquiet : (w.afterAll suite calls).network.queue ⟨x, y⟩ = [])
    (hquiet' : (w.afterAll suite calls).network.queue ⟨y, x⟩ = []) :
    ∃ p k₁ k₁' k₂ k₂', (w.afterAll suite calls).Pair suite x y p ∧
      p.1.side.keys = drawn suite x y (timeline suite w calls) ∧
      p.2.side.keys = drawn suite y x (timeline suite w calls) ∧
      p.1.side.session = some (k₁, k₂') ∧ p.2.side.session = some (k₂, k₁') ∧
      (Meets (answers x y (timeline suite w calls)) (answers y x (timeline suite w calls)) →
        k₁' = k₁ ∧ k₂' = k₂) ∧
      (¬Meets (answers x y (timeline suite w calls)) (answers y x (timeline suite w calls)) →
        [k₁', k₁].Sublist p.1.side.keys ∨ [k₂', k₂].Sublist p.2.side.keys) := by
  have hpair := h.pair_afterAll hs hcalls
  have hordered := h.ordered hs hcalls hnumbers hnumbers'
  have hsound := h.reachable.isSound hs.keepsKeys
  have hopened : (Player.playAll suite x y calls (d.player, e.player)).1.side.opened ≠ [] ∨
      (Player.playAll suite x y calls (d.player, e.player)).2.side.opened ≠ [] := by
    refine hsome.imp (fun hmem hnil => ?_) fun hmem hnil => ?_
    · have hnumbers := h.numbers_eq hs hcalls
      rw [hnil] at hnumbers
      exact openings_ne_nil hs.keepsKeys hsound h.first.device hmem
        (List.map_eq_nil_iff.mp hnumbers)
    · have hnumbers := h.numbers_eq' hs hcalls
      rw [hnil] at hnumbers
      exact openings_ne_nil hs.keepsKeys hsound h.second.device hmem
        (List.map_eq_nil_iff.mp hnumbers)
  obtain ⟨k₁, k₁', k₂, k₂', hsession, hsession', hsame, hdiffer⟩ := hordered.sessions
    (hpair.first.inbox_eq_nil hquiet') (hpair.second.inbox_eq_nil hquiet) hopened
  rw [← h.answers_eq hs hcalls, ← h.answers_eq' hs hcalls] at hsame hdiffer
  exact ⟨_, k₁, k₁', k₂, k₂', hpair, (h.drawn_eq hs hcalls).symm,
    (h.drawn_eq' hs hcalls).symm, hsession, hsession', hsame, hdiffer⟩

/-- Sides that meet come to one session. -/
theorem IsReady.converged_of_meets (ha : suite.Agrees)
    (hsome : .initiate x y ∈ calls ∨ .initiate y x ∈ calls)
    (hquiet : (w.afterAll suite calls).network.queue ⟨x, y⟩ = [])
    (hquiet' : (w.afterAll suite calls).network.queue ⟨y, x⟩ = [])
    (hbase : ∀ q ∈ drawn suite x y (timeline suite w calls),
      ∀ q' ∈ drawn suite y x (timeline suite w calls), q.base.publicKey ≠ q'.base.publicKey)
    (hmeets : Meets (answers x y (timeline suite w calls)) (answers y x (timeline suite w calls))) :
    (w.afterAll suite calls).converged x y = .ok true := by
  obtain ⟨p, k₁, k₁', k₂, k₂', hpair, hkeys, hkeys', hs₁, hs₂, hsame, -⟩ :=
    h.sessions hs hcalls hnumbers hnumbers' hsome hquiet hquiet'
  obtain ⟨rfl, rfl⟩ := hsame hmeets
  obtain ⟨hk, hk'⟩ := hpair.sourced.session _ _ hs₁
  rw [hkeys] at hk
  rw [hkeys'] at hk'
  exact hpair.converged_of_same ha hs₁ hs₂ (hbase _ hk _ hk')

/-- Sides that do not meet hold different sessions. -/
theorem IsReady.converged_of_not_meets (hsome : .initiate x y ∈ calls ∨ .initiate y x ∈ calls)
    (hquiet : (w.afterAll suite calls).network.queue ⟨x, y⟩ = [])
    (hquiet' : (w.afterAll suite calls).network.queue ⟨y, x⟩ = [])
    (hkeys : ((drawn suite x y (timeline suite w calls)).flatMap PendingExchange.publicKeys).Nodup)
    (hkeys' : ((drawn suite y x (timeline suite w calls)).flatMap PendingExchange.publicKeys).Nodup)
    (hmeets : ¬Meets (answers x y (timeline suite w calls))
      (answers y x (timeline suite w calls))) :
    (w.afterAll suite calls).converged x y = .ok false := by
  obtain ⟨p, k₁, k₁', k₂, k₂', hpair, hdrawn, hdrawn', hs₁, hs₂, -, hdiffer⟩ :=
    h.sessions hs hcalls hnumbers hnumbers' hsome hquiet hquiet'
  refine hpair.converged_of_ne hs.keepsKeys hs₁ hs₂
    ((hdiffer hmeets).imp (fun hsub => ?_) fun hsub => ?_)
  · exact (publicKeys_ne hkeys (hdrawn ▸ hsub)).2
  · exact (publicKeys_ne hkeys' (hdrawn' ▸ hsub)).2

end Quiet

end Runs

/-! ### Distinct keys -/

/-- The residues that the secrets drawn for an exchange leave of its public keys. -/
def residues (q : PendingExchange) : List Nat :=
  [DiffieHellman.residue q.base.secretKey, DiffieHellman.residue q.ephemeral.secretKey]

/-- Keys with different residues are different. -/
theorem nodup_publicKeys {l : List PendingExchange} (hl : ∀ q ∈ l, q.IsSound .modular)
    (h : (l.flatMap residues).Nodup) : (l.flatMap PendingExchange.publicKeys).Nodup := by
  have hpairs : (l.flatMap PendingExchange.publicKeys) =
      (l.flatMap fun q => [q.base, q.ephemeral]).map KeyPair.publicKey := by
    rw [List.map_flatMap]
    rfl
  rw [hpairs]
  refine KeyPair.nodup_publicKey (fun k hk => ?_) ?_
  · obtain ⟨q, hq, hk⟩ := List.mem_flatMap.mp hk
    rcases List.mem_pair.mp hk with rfl | rfl
    · exact (hl q hq).base
    · exact (hl q hq).ephemeral
  · rw [List.map_flatMap]
    exact h

/-! ### Alice and Bob -/

/-- The base keys that Alice and Bob draw in a run differ if the secrets drawn for them leave
different residues. -/
theorem base_ne_of_residues {calls : List Call} (hcalls : ∀ c ∈ calls, c.IsBetweenOrApart alice bob)
    (hresidues : ∀ q ∈ (samplePlayers calls).1.side.keys, ∀ q' ∈ (samplePlayers calls).2.side.keys,
      DiffieHellman.residue q.base.secretKey ≠ DiffieHellman.residue q'.base.secretKey) :
    ∀ q ∈ drawn .modular alice bob (timeline .modular sample calls),
      ∀ q' ∈ drawn .modular bob alice (timeline .modular sample calls),
        q.base.publicKey ≠ q'.base.publicKey := by
  intro q hq q' hq' heq
  have hsound := isReady_sample.isSound_drawn Suite.completes_modular hcalls hq
  have hsound' := isReady_sample.swap.isSound_drawn Suite.completes_modular
    (fun c hc => (hcalls c hc).swap) hq'
  rw [isReady_sample.drawn_eq Suite.completes_modular hcalls] at hq
  rw [isReady_sample.drawn_eq' Suite.completes_modular hcalls] at hq'
  exact KeyPair.publicKey_ne_of_residue hsound.base hsound'.base (hresidues q hq q' hq') heq

end World

end SecureSession
