import SecureSession.Proofs.Simulation.Introductions
import SecureSession.Proofs.Simulation.Ready

/-! # Runs of introductions

While a device introduces itself to another, every call on the two furthers the introduction
(`World.Introduces.furthers`), and so does a whole run (`World.Introduces.run`). Two devices that
may introduce themselves to each other start out so (`World.MayIntroduce`). -/

namespace SecureSession

namespace World

/-! ### Calls -/

/-- Whether a call is one of those by which a device introduces itself to another. -/
def Call.IsIntroduction (c : Call) (x y : Address) : Prop :=
  c = .establishFromBundle x y ∨ c = .sendFirstMessage x y ∨ c = .deliver ⟨x, y⟩

instance (c : Call) (x y : Address) : Decidable (c.IsIntroduction x y) :=
  inferInstanceAs (Decidable (_ ∨ _ ∨ _))

/-- Whether a call introduces a device to another, or has nothing to do with the two. -/
def Call.IsIntroductionOrApart (c : Call) (x y : Address) : Prop :=
  c.IsIntroduction x y ∨ ¬c.Touches x ∧ ¬c.Touches y

variable {suite : Suite} {w : World} {x y : Address} {d e : Device} {p : Progress}

/-- A call that touches neither device is no introduction. -/
theorem Call.not_isIntroduction {c : Call} (hx : ¬c.Touches x) (hy : ¬c.Touches y) :
    c ≠ .establishFromBundle x y ∧ c ≠ .sendFirstMessage x y ∧ c ≠ .deliver ⟨x, y⟩ := by
  refine ⟨?_, ?_, ?_⟩
  · rintro rfl
    exact hx (.inl rfl)
  · rintro rfl
    exact hx rfl
  · rintro rfl
    exact hy rfl

/-- What a call comes to while a device introduces itself to another: it keeps up with the progress,
and a message delivered makes a session or is a duplicate. -/
structure Moment.Furthers (suite : Suite) (m : Moment) (x : Address) (d : Device) (y : Address)
    (e : Device) (p : Progress) : Prop where
  after : (m.after suite).Introduces suite x d y e (p.step x y m.call)
  offer : (m.offer suite x y).toList =
    if m.call = .establishFromBundle x y then [d.nthOffer suite e p.made] else []
  delivers : m.call = .deliver ⟨x, y⟩ → m.world.network.queue ⟨x, y⟩ ≠ [] →
    m.answer suite = some .established ∨ m.answer suite = some .duplicate

section Steps
variable (h : w.Introduces suite x d y e p) (hs : suite.Completes)
include h hs

/-- Calls on other devices change nothing. -/
theorem Introduces.untouched {c : Call} (hx : ¬c.Touches x) (hy : ¬c.Touches y) :
    (w.after suite c).Introduces suite x d y e p where
  sound := h.sound.after hs.keepsKeys c
  source := ((c.ends hs.keepsKeys h.sound).device x hx).symm ▸ h.source
  target := ((c.ends hs.keepsKeys h.sound).device y hy).symm ▸ h.target
  underway := ((c.ends hs.keepsKeys h.sound).messages ⟨x, y⟩ hx hy).symm ▸ h.underway
  order := h.order

/-- Every call furthers the introduction. -/
theorem Introduces.furthers (hne : x ≠ y) (hcount : p.made < 2 ^ 32) {c : Call}
    (hc : c.IsIntroductionOrApart x y) : Moment.Furthers suite ⟨w, c⟩ x d y e p := by
  rcases hc with (rfl | rfl | rfl) | ⟨hx, hy⟩
  · obtain ⟨hoffer, w', hrun, hintroduces⟩ := h.establish hs hne hcount
    refine ⟨?_, ?_, fun hdeliver => ?_⟩
    · rw [Moment.after, World.after, hrun, Progress.step, if_pos rfl]
      exact hintroduces
    · rw [hoffer, if_pos rfl]
      rfl
    · cases hdeliver
  · obtain ⟨w', hrun, hintroduces⟩ := h.send hs
    refine ⟨?_, ?_, fun hdeliver => ?_⟩
    · rw [Moment.after, World.after, hrun, Progress.step, if_neg (by simp), if_pos rfl]
      exact hintroduces
    · rw [Moment.offer_of_ne (by simp), if_neg (by simp)]
      rfl
    · cases hdeliver
  · have hstep : p.step x y (.deliver ⟨x, y⟩) = p.take := by
      rw [Progress.step, if_neg (by simp), if_neg (by simp), if_pos rfl]
    have hoffer : ((⟨w, .deliver ⟨x, y⟩⟩ : Moment).offer suite x y).toList = [] := by
      rw [Moment.offer_of_ne (by simp)]
      rfl
    by_cases hquiet : w.network.queue ⟨x, y⟩ = []
    · obtain ⟨hrun, htake⟩ := h.deliver_nil hquiet
      refine ⟨?_, hoffer, fun _ hbusy => absurd hquiet hbusy⟩
      rw [Moment.after, World.after, hrun, hstep, htake]
      exact h
    · obtain ⟨status, w', hrun, hstatus, hintroduces⟩ := h.deliver hs hne hcount hquiet
      refine ⟨?_, hoffer, fun _ _ => ?_⟩
      · rw [Moment.after, World.after, hrun, hstep]
        exact hintroduces
      · rw [Moment.answer, hrun]
        exact hstatus.imp (congrArg some) (congrArg some)
  · obtain ⟨hestablish, hsend, hdeliver⟩ := Call.not_isIntroduction hx hy
    refine ⟨?_, ?_, fun hno => absurd hno hdeliver⟩
    · rw [Progress.step, if_neg hestablish, if_neg hsend, if_neg hdeliver]
      exact h.untouched hs hx hy
    · rw [Moment.offer_of_ne hestablish, if_neg hestablish]
      rfl

end Steps

/-! ### Runs -/

/-- A whole run furthers the introduction; its offers are drawn from the environments of both
devices in turn. -/
theorem Introduces.run (hs : suite.Completes) (hne : x ≠ y) : ∀ {calls : List Call} {w : World}
    {p : Progress}, w.Introduces suite x d y e p → (∀ c ∈ calls, c.IsIntroductionOrApart x y) →
      p.made + calls.count (.establishFromBundle x y) < 2 ^ 32 →
      (w.afterAll suite calls).Introduces suite x d y e (p.run x y calls) ∧
      offers suite x y (timeline suite w calls) =
        (List.range' p.made (calls.count (.establishFromBundle x y))).map (d.nthOffer suite e) ∧
      ∀ m ∈ timeline suite w calls, m.call = .deliver ⟨x, y⟩ → m.world.network.queue ⟨x, y⟩ ≠ [] →
        m.answer suite = some .established ∨ m.answer suite = some .duplicate
  | [], _, _, h, _, _ => ⟨h, rfl, nofun⟩
  | c :: calls, w, p, h, hcalls, hcount => by
    -- the offers of the rest are those from where the first call leaves off
    obtain ⟨hc, hrest⟩ := List.forall_mem_cons.mp hcalls
    obtain ⟨hafter, hoffer, hdelivers⟩ := h.furthers hs hne (by omega) hc
    rw [List.count_cons] at hcount ⊢
    simp only [beq_iff_eq] at hcount ⊢
    have hmade := Progress.made_step (x := x) (y := y) p c
    obtain ⟨hend, hoffers, hall⟩ := Introduces.run hs hne hafter hrest
      (show (p.step x y c).made + _ < _ by omega)
    refine ⟨hend, ?_, ?_⟩
    · have hcons : offers suite x y (timeline suite w (c :: calls)) =
          ((⟨w, c⟩ : Moment).offer suite x y).toList ++
            offers suite x y (timeline suite (w.after suite c) calls) := by
        rw [timeline, offers, List.filterMap_cons]
        cases (⟨w, c⟩ : Moment).offer suite x y <;> rfl
      rw [hcons, hoffer]
      refine (congrArg _ hoffers).trans ?_
      show _ ++ (List.range' (p.step x y c).made _).map _ = _
      rw [hmade]
      split_ifs
      · rw [List.range'_succ]
        rfl
      · rfl
    · rw [timeline, List.forall_mem_cons]
      exact ⟨hdelivers, hall⟩

/-! ### Devices that may be introduced -/

/-- Whether a device could introduce itself to another of a different account: it has no session
with it, none of its messages is on the way to it, no commit of the two is about to fail, and each
trusts the identity of the other. -/
structure MayIntroduce (suite : Suite) (w : World) (x : Address) (d : Device) (y : Address)
    (e : Device) : Prop where
  reachable : Reachable suite w
  accounts : x.name ≠ y.name
  source : w.devices.get? x = some d
  target : w.devices.get? y = some e
  idle : (d.contents.record y).current = none
  quiet : w.network.queue ⟨x, y⟩ = []
  unarmed : d.isArmed = false
  unarmed' : e.isArmed = false
  trusts : d.trusts y e.party.identity.publicKey = true
  trusts' : e.trusts x d.party.identity.publicKey = true

theorem MayIntroduce.introduces (h : w.MayIntroduce suite x d y e) (hs : suite.KeepsKeys) :
    w.Introduces suite x d y e .start where
  sound := h.reachable.isSound hs
  source := ⟨d, h.source, h.unarmed, rfl, rfl, h.trusts, fun _ => h.idle, nofun⟩
  target :=
    ⟨e, h.target, h.unarmed', rfl, rfl, rfl, (UInt32.add_zero _).symm, h.trusts', nofun, nofun⟩
  underway := by
    rw [Network.messages, h.quiet]
    exact .nil
  order := Progress.inOrder_start

theorem mayIntroduce_sample : sample.MayIntroduce .modular alice
    (firstDevice .modular 1 default "alice") bob
      (secondDevice .modular 1 default "alice" "bob") where
  reachable := isReady_sample.reachable
  accounts := isReady_sample.accounts
  source := isReady_sample.first.device
  target := isReady_sample.second.device
  idle := rfl
  quiet := isReady_sample.second.quiet
  unarmed := isReady_sample.first.unarmed
  unarmed' := isReady_sample.second.unarmed
  trusts := isReady_sample.first.trusts
  trusts' := isReady_sample.second.trusts

end World

end SecureSession
