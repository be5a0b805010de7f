import SecureSession.Environment

/-! # Shared environments

Several handles on environments. Two handles may share one environment, so that what is drawn
through either is drawn from both. -/

namespace SecureSession

/-- Environments, and handles that name them by position. -/
structure EnvironmentPool where
  environments : List Environment
  handles : List Nat
deriving DecidableEq

namespace EnvironmentPool

/-- One handle on one environment. -/
def single (e : Environment) : EnvironmentPool := ⟨[e], [0]⟩

/-- The position of the environment of a handle. -/
def position (p : EnvironmentPool) (handle : Nat) : Nat := p.handles.getD handle 0

/-- The environment of a handle. -/
def environment (p : EnvironmentPool) (handle : Nat) : Environment :=
  p.environments.getD (p.position handle) default

/-- Uses the environment of a handle. -/
def use {α : Type} (p : EnvironmentPool) (handle : Nat) (f : Environment → α × Environment) :
    α × EnvironmentPool :=
  let (result, e) := f (p.environment handle)
  (result, { p with environments := p.environments.set (p.position handle) e })

/-- Adds a handle on a new environment, the seed of which is drawn through a handle. -/
def fork (p : EnvironmentPool) (handle : Nat) : EnvironmentPool :=
  let (e, p) := p.use handle Environment.fork
  ⟨p.environments ++ [e], p.handles ++ [p.environments.length]⟩

/-- Adds a handle on the environment of another handle. -/
def share (p : EnvironmentPool) (handle : Nat) : EnvironmentPool :=
  { p with handles := p.handles ++ [p.position handle] }

end EnvironmentPool

end SecureSession
