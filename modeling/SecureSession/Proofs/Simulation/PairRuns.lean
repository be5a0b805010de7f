import SecureSession.Proofs.Simulation.Pairs

/-! # Runs of a pair

A run in which two devices do nothing but open exchanges with each other and take in messages is
played by two players from its start to its end (`World.Pair.run`), and the sides of the players
stay in order. -/

namespace SecureSession

open Crossing

variable {suite : Suite} {x y : Address}

/-! ### Playing all calls -/

namespace Player

/-- What two players at the given addresses come to in a run. -/
def playAll (suite : Suite) (x y : Address) (l : List World.Call) (p : Player × Player) :
    Player × Player :=
  l.foldl (fun p c => play suite x y c p) p

/-- A call on other devices is not played. -/
theorem play_of_untouched {c : World.Call} (hx : ¬c.Touches x) (hy : ¬c.Touches y)
    (p : Player × Player) : play suite x y c p = p := by
  rw [play, if_neg, if_neg, if_neg, if_neg]
  · rintro rfl; exact hy rfl
  · rintro rfl; exact hx rfl
  · rintro rfl; exact hy rfl
  · rintro rfl; exact hx rfl

/-- A call is a step of one of the sides, or of none. -/
theorem play_cases (suite : Suite) (x y : Address) (c : World.Call) (p : Player × Player) :
    play suite x y c p = p ∨
    Crossing.Step p.1.side p.2.side (play suite x y c p).1.side (play suite x y c p).2.side ∨
    Crossing.Step p.2.side p.1.side (play suite x y c p).2.side (play suite x y c p).1.side := by
  rw [play]
  split
  · exact .inr (.inl (step_opens ..))
  split
  · exact .inr (.inr (step_opens ..))
  split
  · exact (step_takes ..).imp_right .inl
  split
  · rcases step_takes suite p.2 p.1 with heq | hstep
    · exact .inl (by rw [heq]; rfl)
    · exact .inr (.inr hstep)
  · exact .inl rfl

theorem opened_step {s t s' t' : Side PendingExchange} (h : Crossing.Step s t s' t') :
    s.opened <+: s'.opened := by
  cases h with
  | opens => exact List.prefix_append ..
  | answers | completes | drops => exact List.prefix_rfl

/-- Exchanges opened stay opened. -/
theorem opened_play (suite : Suite) (x y : Address) (c : World.Call) (p : Player × Player) :
    p.1.side.opened <+: (play suite x y c p).1.side.opened ∧
      p.2.side.opened <+: (play suite x y c p).2.side.opened := by
  rcases play_cases suite x y c p with heq | hstep | hstep
  · rw [heq]
    exact ⟨List.prefix_rfl, List.prefix_rfl⟩
  · exact ⟨opened_step hstep, hstep.opened_peer ▸ List.prefix_rfl⟩
  · exact ⟨hstep.opened_peer ▸ List.prefix_rfl, opened_step hstep⟩

theorem opened_playAll (suite : Suite) (x y : Address) :
    ∀ (l : List World.Call) (p : Player × Player),
    p.1.side.opened <+: (playAll suite x y l p).1.side.opened ∧
      p.2.side.opened <+: (playAll suite x y l p).2.side.opened
  | [], _ => ⟨List.prefix_rfl, List.prefix_rfl⟩
  | c :: l, p => by
    obtain ⟨hrest, hrest'⟩ := opened_playAll suite x y l (play suite x y c p)
    obtain ⟨hfirst, hfirst'⟩ := opened_play suite x y c p
    exact ⟨hfirst.trans hrest, hfirst'.trans hrest'⟩

theorem ordered_play {c : World.Call} {p : Player × Player} (h : Ordered p.1.side p.2.side)
    (hnodup : ((play suite x y c p).1.side.opened.map Prod.fst).Nodup)
    (hnodup' : ((play suite x y c p).2.side.opened.map Prod.fst).Nodup) :
    Ordered (play suite x y c p).1.side (play suite x y c p).2.side := by
  rcases play_cases suite x y c p with heq | hstep | hstep
  · rwa [heq]
  · exact h.step hstep hnodup
  · exact (h.symm.step hstep hnodup').symm

/-- Players whose numbers do not repeat stay in order. -/
theorem ordered_playAll : ∀ (l : List World.Call) {p : Player × Player}, Ordered p.1.side p.2.side →
    ((playAll suite x y l p).1.side.opened.map Prod.fst).Nodup →
    ((playAll suite x y l p).2.side.opened.map Prod.fst).Nodup →
    Ordered (playAll suite x y l p).1.side (playAll suite x y l p).2.side
  | [], _, h, _, _ => h
  | c :: l, p, h, hnodup, hnodup' => by
    obtain ⟨hextends, hextends'⟩ := opened_playAll suite x y l (play suite x y c p)
    exact ordered_playAll l (ordered_play h ((hextends.map Prod.fst).sublist.nodup hnodup)
      ((hextends'.map Prod.fst).sublist.nodup hnodup')) hnodup hnodup'

end Player

/-! ### Runs -/

namespace World

/-- What a run adds to what a side did. -/
structure Tells (suite : Suite) (t : List Moment) (x y : Address) (s s' : Side PendingExchange) :
    Prop where
  opened : s'.opened = s.opened ++ (openings suite x y t).map fun q => (q.sequence, q)
  keys : s'.keys = s.keys ++ drawn suite x y t
  answers : s'.answers = t.foldl (fun n m => m.count x y n) s.answers

theorem Tells.nil (s : Side PendingExchange) : Tells suite [] x y s s :=
  ⟨(List.append_nil _).symm, (List.append_nil _).symm, rfl⟩

theorem Tells.cons {m : Moment} {t : List Moment} {s s' s'' : Side PendingExchange}
    (h : Moment.Adds suite m x y s s') (ht : Tells suite t x y s' s'') :
    Tells suite (m :: t) x y s s'' where
  opened := by
    rw [ht.opened, h.opened, List.append_assoc, openings, openings, List.filterMap_cons]
    cases m.opening suite x y <;> rfl
  keys := by rw [ht.keys, h.keys, List.append_assoc, drawn, drawn, List.flatMap_cons]
  answers := by rw [ht.answers, h.answers, List.foldl_cons]

/-- A run of a pair is played by the players, and every call on the pair succeeds. -/
theorem Pair.run (hs : suite.Completes) (hne : x ≠ y) : ∀ {calls : List Call} {w : World}
    {p : Player × Player}, w.Pair suite x y p → (∀ c ∈ calls, c.IsBetweenOrApart x y) →
      (w.afterAll suite calls).Pair suite x y (Player.playAll suite x y calls p) ∧
      Tells suite (timeline suite w calls) x y p.1.side (Player.playAll suite x y calls p).1.side ∧
      Tells suite (timeline suite w calls) y x p.2.side (Player.playAll suite x y calls p).2.side ∧
      ∀ m ∈ timeline suite w calls, m.call.IsBetween x y →
        ∃ status w', m.call.run suite m.world = .ok status w'
  | [], _, _, h, _ => ⟨h, .nil _, .nil _, nofun⟩
  | c :: calls, w, p, h, hcalls => by
    obtain ⟨hc, hrest⟩ := List.forall_mem_cons.mp hcalls
    have hstep : (w.after suite c).Pair suite x y (Player.play suite x y c p) ∧
        Moment.Adds suite ⟨w, c⟩ x y p.1.side (Player.play suite x y c p).1.side ∧
        Moment.Adds suite ⟨w, c⟩ y x p.2.side (Player.play suite x y c p).2.side ∧
        (c.IsBetween x y → ∃ status w', c.run suite w = .ok status w') := by
      by_cases hbetween : c.IsBetween x y
      · obtain ⟨status, w', hrun, hpair, hadds, hadds'⟩ := h.plays hs hne hbetween
        rw [show w.after suite c = w' by rw [after, hrun]; rfl]
        exact ⟨hpair, hadds, hadds', fun _ => ⟨status, w', hrun⟩⟩
      · obtain ⟨hx, hy⟩ := hc.resolve_left hbetween
        rw [Player.play_of_untouched hx hy]
        refine ⟨h.untouched hs.keepsKeys hx hy,
          Moment.adds_of_none ?_ (Moment.initiate?_of_ne ?_) rfl rfl rfl,
          Moment.adds_of_none ?_ (Moment.initiate?_of_ne ?_) rfl rfl rfl,
          fun hb => absurd hb hbetween⟩
        · rintro rfl; exact hx rfl
        · rintro rfl; exact hx rfl
        · rintro rfl; exact hy rfl
        · rintro rfl; exact hy rfl
    obtain ⟨hpair, hadds, hadds', hsucceeds⟩ := hstep
    obtain ⟨hpair', htells, htells', hall⟩ := Pair.run hs hne hpair hrest
    refine ⟨hpair', htells.cons hadds, htells'.cons hadds', ?_⟩
    rw [timeline, List.forall_mem_cons]
    exact ⟨hsucceeds, hall⟩

end World

end SecureSession
