import SecureSession.Proofs.Simulation.Operations

/-! # Moves

What may be done in a world is a call or a random operation, which makes calls in turn. So moves in
turn leave what some calls leave (`World.through_eq_afterAll`). -/

namespace SecureSession.World

variable {suite : Suite} {w : World}

/-- What may be done in a world: a call, or a random operation. -/
inductive Move
  | call (c : Call)
  | operation (o : Operation)
deriving DecidableEq

namespace Move

/-- Makes a move. -/
def run (suite : Suite) : Move → WorldStep Unit
  | call c => do let _ ← c.run suite
  | operation o => o.apply suite

end Move

/-- The world after some moves, failed ones included. -/
def through (suite : Suite) (w : World) (l : List Move) : World :=
  l.foldl (fun w m => ending (m.run suite w)) w

theorem through_append (w : World) (l l' : List Move) :
    w.through suite (l ++ l') = (w.through suite l).through suite l' := List.foldl_append

theorem through_singleton (w : World) (m : Move) : w.through suite [m] = ending (m.run suite w) :=
  rfl

/-! ### Calls of moves -/

theorem ending_run_call (w : World) (c : Call) :
    ending ((Move.call c).run suite w) = w.after suite c := by
  rw [Move.run, WorldStep.bind_eq, after]
  cases c.run suite w <;> rfl

/-- Where there are devices, an operation leaves what its calls leave. -/
theorem ending_run_operation (hw : w.addresses ≠ []) (o : Operation) :
    ending ((Move.operation o).run suite w) = w.afterAll suite (o.calls suite w) := by
  rw [Move.run, Operation.apply_eq, if_neg hw, ← (Operation.isRun_run suite w o).ending,
    Operation.absorb]
  cases o.run suite w.addresses w with
  | ok x w' => rfl
  | error e w' =>
    dsimp only
    split <;> rfl

/-- The calls that a move makes. -/
def Move.calls (suite : Suite) (w : World) : Move → List Call
  | call c => [c]
  | operation o => if w.addresses = [] then [] else o.calls suite w

/-- The calls that some moves in turn make. -/
def callsThrough (suite : Suite) : World → List Move → List Call
  | _, [] => []
  | w, m :: l => m.calls suite w ++ callsThrough suite (ending (m.run suite w)) l

/-- A move leaves what its calls leave. -/
theorem ending_run (w : World) (m : Move) :
    ending (m.run suite w) = w.afterAll suite (m.calls suite w) := by
  cases m with
  | call c => exact ending_run_call w c
  | operation o =>
    rw [Move.calls]
    split_ifs with hw
    · rw [Move.run, Operation.apply_eq, if_pos hw]
      rfl
    · exact ending_run_operation hw o

theorem through_eq_afterAll : ∀ (l : List Move) (w : World),
    w.through suite l = w.afterAll suite (callsThrough suite w l)
  | [], _ => rfl
  | m :: l, w => by
    rw [callsThrough, afterAll_append, ← ending_run]
    exact through_eq_afterAll l _

end SecureSession.World
