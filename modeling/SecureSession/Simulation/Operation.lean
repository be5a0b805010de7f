import SecureSession.Simulation.World

/-! # Random operations

Steps for testing at random. Devices are picked by number, whatever the number, and the failures
that handshakes have by design are no failures of a step. -/

namespace SecureSession

/-- A step of a random test. -/
inductive Operation
  | initiate (source target : UInt8)
  /-- Build a session from a bundle and send the first message on it. -/
  | sendFirstMessage (source target : UInt8)
  | deliver (source target : UInt8)
  | deliverAll
  | rotateIdentity (device : UInt8)
  | failNextCommit (device : UInt8)
  | advanceTime (milliseconds : UInt16)
deriving DecidableEq

/-- Whether handshakes fail this way by design. -/
def WorldError.isExpected : WorldError → Bool
  | session _ (.trustRejected _) => true
  | session _ (.invalidKeyId _) => true
  | session _ (.storage (.unavailable _)) => true
  | _ => false

namespace Operation

variable (suite : Suite)

/-- The most messages that one step delivers. -/
def deliverLimit : Nat := 64

/-- The device with a number, counted around. -/
def pick (addresses : List Address) (index : UInt8) : Address :=
  addresses.getD (index.toNat % addresses.length) default

/-- Runs a step between two devices, unless they are of one account. -/
def betweenAccounts (source target : Address) (step : WorldStep Unit) : WorldStep Unit :=
  if source.name = target.name then return () else step

/-- The step of an operation in a world with devices. -/
def run (addresses : List Address) : Operation → WorldStep Unit
  | initiate source target =>
    let source := pick addresses source
    let target := pick addresses target
    betweenAccounts source target do
      let _ ← World.initiate suite source target
  | sendFirstMessage source target =>
    let source := pick addresses source
    let target := pick addresses target
    betweenAccounts source target do
      let _ ← World.establishFromBundle suite source target
      let _ ← World.sendFirstMessage source target
  | deliver source target => do
    let _ ← World.deliver suite ⟨pick addresses source, pick addresses target⟩
  | deliverAll => do
    let _ ← World.deliverAll suite deliverLimit
  | rotateIdentity device => World.rotateIdentity suite (pick addresses device).name
  | failNextCommit device => World.failNextCommit (pick addresses device)
  | advanceTime milliseconds => World.advance (UInt64.ofNat milliseconds.toNat)

/-- Leaves out the failures that handshakes have by design. -/
def absorb (step : WorldStep Unit) : WorldStep Unit := fun w =>
  match step w with
  | .ok () w => .ok () w
  | .error e w => if e.isExpected then .ok () w else .error e w

/-- Applies an operation. Without devices there is nothing to do. -/
def apply (o : Operation) : WorldStep Unit := do
  match (← get).addresses with
  | [] => return ()
  | addresses => absorb (o.run suite addresses)

end Operation

end SecureSession
