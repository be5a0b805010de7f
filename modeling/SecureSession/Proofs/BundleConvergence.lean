import Mathlib.Data.List.Nodup
import SecureSession.Proofs.Simulation.IntroductionRuns

/-! # Sessions from bundles converge

However a device's offers, its first messages and their deliveries are interleaved, every message
makes a session or is a duplicate, and once the last offer was told of and nothing is on the way,
both devices hold the session of that offer (`World.introductions_converge`). -/

namespace SecureSession

/-- An offer whose public keys are distinct has a base key that is not its prekey. -/
theorem Offer.prekey_ne_base {l : List Offer} (h : (l.flatMap Offer.publicKeys).Nodup) {o : Offer}
    (ho : o ∈ l) : o.prekey.publicKey ≠ o.base.publicKey := by
  have hnodup := (List.nodup_flatMap.mp h).1 o ho
  simp only [publicKeys, keyPairs, List.map_cons, List.nodup_cons, List.mem_cons, not_or] at hnodup
  exact hnodup.1.1

namespace World

variable {suite : Suite} {w : World} {x y : Address} {d e : Device} {p : Progress}

/-! ### Convergence -/

/-- Once the last offer is taken up, both devices hold its session and its prekey is gone. -/
theorem Introduces.converged (h : w.Introduces suite x d y e p) (ha : suite.Agrees) {i : Nat}
    (hmade : p.made = i + 1) (htaken : p.taken = i + 1)
    (hne : (d.nthOffer suite e i).prekey.publicKey ≠ (d.nthOffer suite e i).base.publicKey) :
    w.converged x y = .ok true ∧ ∃ e', w.devices.get? y = some e' ∧
      ((d.nthOffer suite e i).prekeyId = e.party.lastResort ∨
        e'.party.prekeys.held.get? (d.nthOffer suite e i).prekeyId = none) := by
  obtain ⟨d', hd', hmakes⟩ := h.source
  obtain ⟨e', he', haccepts⟩ := h.target
  obtain ⟨r, hr, hcurrent⟩ := hmakes.session i hmade
  obtain ⟨r', hr', hcurrent'⟩ := haccepts.session i htaken
  refine ⟨?_, e', he', ?_⟩
  · rw [World.converged_eq h.sound hd' he', hcurrent, hcurrent']
    exact congrArg Except.ok
      (Offer.mirrors ha (Offer.isSound_draw ..) h.owns_source h.owns_target hne hr hr')
  · by_cases hlast : (d.nthOffer suite e i).prekeyId = e.party.lastResort
    · exact .inl hlast
    · have hheld := haccepts.held i (by omega) (Nat.le_of_eq htaken)
      rw [if_pos ⟨by omega, hlast⟩] at hheld
      exact .inr hheld

/-- However offers, first messages and deliveries are interleaved, every message delivered
makes a session or is a duplicate; and where a message was sent after the last offer and none
is on the way, both devices hold one session, and the prekey of the last offer is gone unless
it is that of last resort. -/
theorem introductions_converge {dh : DiffieHellman} (hcommutative : dh.Commutative)
    (hcontributory : dh.Contributory) (h : w.MayIntroduce (.tripleAgreement dh) x d y e)
    {calls : List Call} (hcalls : ∀ c ∈ calls, c.IsIntroductionOrApart x y)
    (hcount : calls.count (.establishFromBundle x y) < 2 ^ 32 - 1) :
    let suite := Suite.tripleAgreement dh
    let run := timeline suite w calls
    let w' := w.afterAll suite calls
    ((offers suite x y run).flatMap Offer.publicKeys).Nodup →
    (∀ m ∈ run, m.call = .deliver ⟨x, y⟩ → m.world.network.queue ⟨x, y⟩ ≠ [] →
      m.answer suite = some .established ∨ m.answer suite = some .duplicate) ∧
    ∀ before after, calls = before ++ .establishFromBundle x y :: after →
      .establishFromBundle x y ∉ after → .sendFirstMessage x y ∈ after →
      w'.network.queue ⟨x, y⟩ = [] →
      w'.converged x y = .ok true ∧
      ∃ o e', (offers suite x y run).getLast? = some o ∧ w'.devices.get? y = some e' ∧
        (o.prekeyId = e.party.lastResort ∨ e'.party.prekeys.held.get? o.prekeyId = none) := by
  intro suite run w' hkeys
  have hs := Suite.completes_tripleAgreement hcontributory
  have hne : x ≠ y := fun heq => h.accounts (congrArg Address.name heq)
  obtain ⟨hend, hoffers, hdelivers⟩ := (h.introduces hs.keepsKeys).run hs hne hcalls
    (show 0 + _ < _ by omega)
  refine ⟨hdelivers, fun before after heq hlast hsent hquiet => ?_⟩
  -- with nothing on the way, an offer that was announced has been taken up
  have hannounced : (Progress.start.run x y calls).IsAnnounced := by
    rw [heq]
    exact Progress.isAnnounced_of_sent Progress.inOrder_start before hlast hsent
  have htaken := hannounced.taken_eq (hend.underway_eq_nil.mpr hquiet)
  have hmade : (Progress.start.run x y calls).made = calls.count (.establishFromBundle x y) :=
    (Progress.made_run _ calls).trans (Nat.zero_add _)
  obtain ⟨i, hi⟩ : ∃ i, calls.count (.establishFromBundle x y) = i + 1 :=
    Nat.exists_eq_succ_of_ne_zero (Nat.ne_of_gt (List.count_pos_iff.mpr (by rw [heq]; simp)))
  rw [hi] at hmade hoffers
  rw [hmade] at htaken
  have hget : (offers suite x y run).getLast? = some (d.nthOffer suite e i) := by
    rw [hoffers, List.range'_1_concat, List.map_append, List.map_singleton, List.getLast?_concat]
    exact congrArg (fun j => some (d.nthOffer _ e j)) (Nat.zero_add i)
  obtain ⟨hconverged, e', he', hgone⟩ := hend.converged (Suite.agrees_tripleAgreement hcommutative)
    hmade htaken (Offer.prekey_ne_base hkeys (List.mem_of_getLast? hget))
  exact ⟨hconverged, _, e', hget, he', hgone⟩

/-! ### Alice introduces herself to Bob -/

/-- Alice makes an offer and tells of it twice; before the second message is delivered, she makes
another and tells of that one. -/
def introduction : List Call :=
  [.establishFromBundle alice bob, .sendFirstMessage alice bob, .sendFirstMessage alice bob,
    .deliver ⟨alice, bob⟩, .establishFromBundle alice bob, .sendFirstMessage alice bob,
    .deliver ⟨alice, bob⟩, .deliver ⟨alice, bob⟩]

/-- The offers that Alice makes Bob. -/
def sampleOffers : List Offer := (List.range' 0 2).map
  ((firstDevice .modular 1 default "alice").nthOffer .modular
    (secondDevice .modular 1 default "alice" "bob"))

theorem nodup_keys_sampleOffers : (sampleOffers.flatMap Offer.publicKeys).Nodup := by
  have hpairs : sampleOffers.flatMap Offer.publicKeys =
      (sampleOffers.flatMap Offer.keyPairs).map KeyPair.publicKey := List.map_flatMap.symm
  rw [hpairs]
  refine KeyPair.nodup_publicKey (fun k hk => ?_) ?_
  · obtain ⟨o, ho, hk⟩ := List.mem_flatMap.mp hk
    obtain ⟨i, -, rfl⟩ := List.mem_map.mp ho
    simp only [Offer.keyPairs, List.mem_cons, List.not_mem_nil, or_false] at hk
    rcases hk with rfl | rfl | rfl <;> exact Suite.modular.owns_keyPair _
  · unfold sampleOffers Device.nthOffer
    rw [environment_firstDevice, environment_secondDevice]
    decide +kernel

/-- In the end both hold the session of the second offer, and its prekey is gone. -/
theorem introductions_converge_sample :
    (∀ m ∈ timeline .modular sample introduction, m.call = .deliver ⟨alice, bob⟩ →
      m.world.network.queue ⟨alice, bob⟩ ≠ [] →
      m.answer .modular = some .established ∨ m.answer .modular = some .duplicate) ∧
    (sample.afterAll .modular introduction).converged alice bob = .ok true ∧
    ∃ e, (sample.afterAll .modular introduction).devices.get? bob = some e ∧
      e.party.prekeys.held.get? 2 = none := by
  have hs := Suite.completes_modular
  have hcalls : ∀ c ∈ introduction, c.IsIntroductionOrApart alice bob := fun c hc =>
    .inl (by revert c; decide)
  obtain ⟨hend, hoffers, -⟩ := (mayIntroduce_sample.introduces hs.keepsKeys).run hs
    (by decide) hcalls (by decide)
  have hoffers' :
      offers .modular alice bob (timeline .modular sample introduction) = sampleOffers := hoffers
  obtain ⟨hdelivers, hconverges⟩ := introductions_converge DiffieHellman.commutative_modular
    DiffieHellman.contributory_modular mayIntroduce_sample hcalls (by decide)
    (by rw [hoffers']; exact nodup_keys_sampleOffers)
  obtain ⟨hconverged, o, e, hlast, he, hgone⟩ := hconverges
    [.establishFromBundle alice bob, .sendFirstMessage alice bob, .sendFirstMessage alice bob,
      .deliver ⟨alice, bob⟩] _ rfl (by decide) (by decide) (hend.underway_eq_nil.mp (by decide))
  rw [hoffers'] at hlast
  obtain rfl : _ = o := Option.some.inj hlast
  exact ⟨hdelivers, hconverged, e, he, hgone.resolve_left (by decide)⟩

end World

end SecureSession
