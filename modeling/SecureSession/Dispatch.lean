import SecureSession.Action

/-! # Carrying out actions

Actions are carried out in order against a sink, one call each. A call that is refused does not hold
up the others. -/

namespace SecureSession

/-- A call to the transport or the user interface. -/
inductive SinkCall
  | sendHandshake (address : Address) (thread : UInt64) (kind : HandshakeKind) (payload : Bytes)
  | securityUpdated (thread : UInt64)
  | insertMessage (notice : IdentityNotice) (text : String)
  | schedulePending (address : Address)
deriving DecidableEq

/-- The call that carries out an action. A message that cannot be encoded makes none. -/
def SessionAction.call? : SessionAction → Option SinkCall
  | sendHandshake address thread message =>
    match message.encode with
    | .ok payload => some (.sendHandshake address thread message.kind payload)
    | .error _ => none
  | securityUpdate thread => some (.securityUpdated thread)
  | drainPending address => some (.schedulePending address)
  | notify notice => some (.insertMessage notice notice.describe)

/-- How many actions were carried out, and how many were not. -/
structure DispatchReport where
  executed : Nat
  failed : Nat
deriving DecidableEq

/-- A sink in a state answers whether it accepts a call, and changes its state. -/
abbrev Sink (σ : Type) := σ → SinkCall → Bool × σ

namespace Dispatch

variable {σ : Type}

/-- Counts one more action. -/
def count (accepted : Bool) (r : DispatchReport) : DispatchReport :=
  if accepted then { r with executed := r.executed + 1 } else { r with failed := r.failed + 1 }

/-- Carries out one action. -/
def step (sink : Sink σ) (acc : DispatchReport × σ) (action : SessionAction) : DispatchReport × σ :=
  match action.call? with
  | none => (count false acc.1, acc.2)
  | some call => (count (sink acc.2 call).1 acc.1, (sink acc.2 call).2)

/-- Carries out some actions. -/
def run (sink : Sink σ) (actions : List SessionAction) (s : σ) : DispatchReport × σ :=
  actions.foldl (step sink) (⟨0, 0⟩, s)

end Dispatch

end SecureSession
