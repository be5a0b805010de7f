import SecureSession.Proofs.Simulation.Preservation
import SecureSession.Simulation.Operation

/-! # Runs of calls

A run is a list of calls made in turn, failed ones included; its timeline pairs every
call with the world it is made in. A random operation is a run, too: `Operation.calls`
lists the calls it makes. -/

namespace SecureSession

namespace World

variable (suite : Suite)

/-! ### Runs -/

/-- The world after a call. -/
def after (w : World) (c : Call) : World := ending (c.run suite w)

/-- The world after some calls. -/
def afterAll (w : World) (l : List Call) : World := l.foldl (after suite) w

/-- The worlds that calls lead to. -/
inductive Reachable : World → Prop
  | init (seed : UInt64) (config : SessionConfig) : Reachable (ofSeed seed config)
  | call {w : World} (h : Reachable w) (c : Call) : Reachable (w.after suite c)

/-- A call together with the world it is made in. -/
structure Moment where
  world : World
  call : Call

/-- The moments of a run. -/
def timeline : World → List Call → List Moment
  | _, [] => []
  | w, c :: l => ⟨w, c⟩ :: timeline (w.after suite c) l

/-- What a call answers, if it does not fail. -/
def Moment.answer (m : Moment) : Option HandshakeStatus :=
  match m.call.run suite m.world with
  | .ok status _ => status
  | .error _ _ => none

/-- The world after the call of a moment. -/
def Moment.after (m : Moment) : World := m.world.after suite m.call

variable {suite} {w : World}

theorem after_deliver_nil {l : Link} (h : w.network.queue l = []) :
    w.after suite (.deliver l) = w :=
  congrArg ending (deliver_nil h)

theorem afterAll_cons (w : World) (c : Call) (l : List Call) :
    w.afterAll suite (c :: l) = (w.after suite c).afterAll suite l := rfl

theorem afterAll_append (w : World) (l l' : List Call) :
    w.afterAll suite (l ++ l') = (w.afterAll suite l).afterAll suite l' := List.foldl_append

theorem timeline_append : ∀ (l l' : List Call) (w : World),
    timeline suite w (l ++ l') = timeline suite w l ++ timeline suite (w.afterAll suite l) l'
  | [], _, _ => rfl
  | c :: l, l', w =>
    congrArg (fun t => (⟨w, c⟩ : Moment) :: t) (timeline_append l l' (w.after suite c))

theorem timeline_snoc (w : World) (l : List Call) (c : Call) :
    timeline suite w (l ++ [c]) = timeline suite w l ++ [⟨w.afterAll suite l, c⟩] :=
  timeline_append l [c] w

theorem mem_timeline (suite : Suite) (w : World) (l : List Call) (c : Call) (l' : List Call) :
    (⟨w.afterAll suite l, c⟩ : Moment) ∈ timeline suite w (l ++ c :: l') := by
  rw [timeline_append]
  exact List.mem_append_right _ List.mem_cons_self

/-- A moment with an answer is one of a call that ends in the world after it. -/
theorem Moment.run_of_answer {m : Moment} {status : HandshakeStatus}
    (h : m.answer suite = some status) :
    m.call.run suite m.world = .ok (some status) (m.after suite) := by
  rw [Moment.after, World.after]
  rw [answer] at h
  cases hrun : m.call.run suite m.world with
  | error e v => rw [hrun] at h; cases h
  | ok s v => rw [hrun] at h; cases h; rfl

/-- The moments before one are the timeline of the calls before it. -/
theorem timeline_split : ∀ {l : List Call} {w : World} {before : List Moment} {m : Moment}
    {after : List Moment}, timeline suite w l = before ++ m :: after →
      ∃ l₁ l₂, l = l₁ ++ m.call :: l₂ ∧ before = timeline suite w l₁ ∧ m.world = w.afterAll suite l₁
  | [], _, before, _, _, h => by cases before <;> cases h
  | c :: l, w, [], m, _, h => by
    obtain ⟨rfl, -⟩ := List.cons.inj h
    exact ⟨[], l, rfl, rfl, rfl⟩
  | c :: l, w, b :: before, m, after, h => by
    obtain ⟨rfl, hrest⟩ := List.cons.inj h
    obtain ⟨l₁, l₂, rfl, rfl, hw⟩ := timeline_split hrest
    exact ⟨c :: l₁, l₂, rfl, rfl, hw⟩

theorem IsSound.after (hs : suite.KeepsKeys) (h : w.IsSound suite) (c : Call) :
    (w.after suite c).IsSound suite := (c.ends hs h).sound

theorem IsSound.afterAll (hs : suite.KeepsKeys) : ∀ (l : List Call) {w : World}, w.IsSound suite →
    (w.afterAll suite l).IsSound suite
  | [], _, h => h
  | c :: l, _, h => IsSound.afterAll hs l (h.after hs c)

theorem Reachable.isSound (hs : suite.KeepsKeys) (h : Reachable suite w) : w.IsSound suite := by
  induction h with
  | init seed config => exact isSound_ofSeed seed config
  | call _ c ih => exact ih.after hs c

/-! ### Steps as runs -/

/-- The error a step ends with, if it fails. -/
def failure {α : Type} : EStateM.Result WorldError World α → Option WorldError
  | .ok _ _ => none
  | .error e _ => some e

/-- Whether some calls are made in turn until one fails with the given error, or none does. -/
inductive Executes (suite : Suite) : World → List Call → Option WorldError → Prop
  | done (w : World) : Executes suite w [] none
  | failed {w : World} {c : Call} {e : WorldError} (h : failure (c.run suite w) = some e) :
    Executes suite w [c] (some e)
  | next {w : World} {c : Call} {l : List Call} {e : Option WorldError}
    (h : failure (c.run suite w) = none) (rest : Executes suite (w.after suite c) l e) :
    Executes suite w (c :: l) e

/-- Whether a step does what some calls in turn do. -/
structure IsRun (suite : Suite) (w : World) (l : List Call) {α : Type}
    (r : EStateM.Result WorldError World α) : Prop where
  executes : Executes suite w l (failure r)
  ending : ending r = w.afterAll suite l

theorem isRun_single {c : Call} {α : Type} {r : EStateM.Result WorldError World α}
    (hf : failure (c.run suite w) = failure r)
    (he : World.ending (c.run suite w) = World.ending r) : IsRun suite w [c] r := by
  refine ⟨?_, he.symm⟩
  cases h : failure r with
  | none => exact .next (hf.trans h) (.done _)
  | some e => exact .failed (hf.trans h)

theorem IsRun.next {c : Call} {l : List Call} {α : Type} {r : EStateM.Result WorldError World α}
    (hc : failure (c.run suite w) = none) (h : IsRun suite (w.after suite c) l r) :
    IsRun suite w (c :: l) r := ⟨.next hc h.executes, h.ending⟩

theorem IsRun.of_eq {l : List Call} {α β : Type} {r : EStateM.Result WorldError World α}
    {r' : EStateM.Result WorldError World β} (h : IsRun suite w l r) (hf : failure r' = failure r)
    (he : World.ending r' = World.ending r) : IsRun suite w l r' :=
  ⟨hf ▸ h.executes, he.trans h.ending⟩

/-- The calls that `deliverRounds` makes. -/
def deliveries (suite : Suite) : (limit : Nat) → (round : List Link) → World → List Call
  | 0, _, _ => []
  | limit + 1, l :: round, w =>
    match deliver suite l w with
    | .ok _ w => .deliver l :: deliveries suite limit round w
    | .error _ _ => [.deliver l]
  | limit + 1, [], w =>
    match w.network.busyLinks with
    | [] => []
    | l :: round =>
      match deliver suite l w with
      | .ok _ w => .deliver l :: deliveries suite limit round w
      | .error _ _ => [.deliver l]

/-- One delivery, and then a run. -/
theorem isRun_deliver {l : Link} {rest : WorldStep Nat} {calls : World → List Call}
    (h : ∀ w, IsRun suite w (calls w) (rest w)) (w : World) :
    IsRun suite w
      (match deliver suite l w with
        | .ok _ w => .deliver l :: calls w
        | .error _ _ => [.deliver l])
      ((do
        let _ ← deliver suite l
        return (← rest) + 1 : WorldStep Nat) w) := by
  simp only [WorldStep.bind_eq]
  cases hd : deliver suite l w with
  | error e w' =>
    have hrun : Call.run suite (.deliver l) w = .error e w' := hd
    exact isRun_single (by rw [hrun]; rfl) (by rw [hrun]; rfl)
  | ok status w' =>
    have hrun : Call.run suite (.deliver l) w = .ok status w' := hd
    have hafter : w.after suite (.deliver l) = w' := by rw [World.after, hrun]; rfl
    refine IsRun.next (by rw [hrun]; rfl) ?_
    rw [hafter]
    dsimp only
    refine (h w').of_eq ?_ ?_ <;> cases rest w' <;> rfl

theorem isRun_deliverRounds : ∀ (limit : Nat) (round : List Link) (w : World),
    IsRun suite w (deliveries suite limit round w) (deliverRounds suite limit round w)
  | 0, _, w => ⟨.done w, rfl⟩
  | limit + 1, l :: round, w => by
    rw [deliveries, deliverRounds]
    exact isRun_deliver (isRun_deliverRounds limit round) w
  | limit + 1, [], w => by
    rw [deliveries, deliverRounds, WorldStep.bind_eq]
    show IsRun suite w _ ((match w.network.busyLinks with
      | [] => pure 0
      | l :: round => do
        let _ ← deliver suite l
        return (← deliverRounds suite limit round) + 1 : WorldStep Nat) w)
    cases w.network.busyLinks with
    | nil => exact ⟨.done w, rfl⟩
    | cons l round => exact isRun_deliver (isRun_deliverRounds limit round) w

/-! ### Alice and Bob -/

/-- The device of an account. -/
def alice : Address := ⟨"alice", 1⟩

/-- The device of another account. -/
def bob : Address := ⟨"bob", 1⟩

end World

end SecureSession
