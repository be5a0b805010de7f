import SecureSession.Simulation.Device

/-! # Simulated worlds

Accounts with their devices and the network between them. What a step asks for is carried out at
once; messages wait on the network until they are delivered. -/

namespace SecureSession

/-! ### Errors -/

/-- What is inconsistent about the record stored for a peer. -/
inductive Violation
  | archiveTooLong (peer : Address) (length : Nat)
  /-- The live session was built with a key that is no longer on file. -/
  | replacedIdentity (peer : Address)
  /-- There is no key on file for the peer of the live session. -/
  | noIdentity (peer : Address)
  | other (reason : String)
deriving DecidableEq

/-- The description of a violation. -/
def Violation.message : Violation → String
  | archiveTooLong peer length => s!"{peer.display} holds {length} archived states"
  | replacedIdentity peer => s!"{peer.display} session uses a replaced identity"
  | noIdentity peer => s!"{peer.display} session has no identity on file"
  | other reason => reason

/-- Why a step of a world failed. -/
inductive WorldError
  | unknownDevice (address : Address)
  /-- An operation on a device failed. -/
  | session (device : Address) (error : SessionError)
  /-- What a device has stored is inconsistent. -/
  | invariant (device : Address) (violation : Violation)
deriving DecidableEq

namespace WorldError

/-- The report of the error. -/
def message : WorldError → String
  | unknownDevice address => s!"unknown device {address.display}"
  | session device error => s!"{device.display}: {error.message}"
  | invariant device violation =>
    s!"invariant violated on {device.display}: {violation.message}"

end WorldError

/-! ### Worlds -/

/-- Two accounts in conversation, the lower name first. -/
structure Conversation where
  low : String
  high : String
deriving DecidableEq

namespace Conversation

/-- By the lower name, then by the higher. -/
instance : Ord Conversation := ⟨compareLex (compareOn low) (compareOn high)⟩

instance : Std.TransOrd Conversation :=
  inferInstanceAs (Std.TransCmp (compareLex (compareOn low) (compareOn high)))

instance : Std.LawfulEqOrd Conversation where
  eq_of_compare {a b} h := by
    obtain ⟨hl, hh⟩ := Ordering.then_eq_eq.mp h
    cases a; cases b
    exact congr (congrArg mk (Std.LawfulEqCmp.eq_of_compare hl)) (Std.LawfulEqCmp.eq_of_compare hh)

/-- The conversation of two accounts, in either order. -/
def between (a b : String) : Conversation := if a ≤ b then ⟨a, b⟩ else ⟨b, a⟩

end Conversation

/-- Accounts, their devices and the network. -/
structure World where
  environment : Environment
  config : SessionConfig
  devices : SortedMap Address Device
  recordings : SortedMap Address Recording
  network : Network
  threads : SortedMap Conversation UInt64
  nextThread : UInt64

namespace World

/-- A world without accounts. -/
def ofSeed (seed : UInt64) (config : SessionConfig) : World where
  environment := .ofSeed seed
  config
  devices := .empty
  recordings := .empty
  network := .empty
  threads := .empty
  nextThread := 1

/-- The addresses of all devices, in order. -/
def addresses (w : World) : List Address := w.devices.keys

/-- The device at an address. -/
def device (w : World) (a : Address) : Except WorldError Device :=
  match w.devices.get? a with
  | some d => .ok d
  | none => .error (.unknownDevice a)

/-- The world with another device at an address. -/
def setDevice (w : World) (a : Address) (d : Device) : World :=
  { w with devices := w.devices.insert a d }

/-- What the device at an address has asked for. -/
def recording (w : World) (a : Address) : Recording := (w.recordings.get? a).getD .empty

/-- The record that one device has for another. -/
def session (w : World) (source target : Address) : Except WorldError SessionRecord := do
  ((← w.device source).vault.load target).mapError (.session source)

/-- Whether two devices hold the two ends of one live session. -/
def converged (w : World) (a b : Address) : Except WorldError Bool := do
  let ours ← w.session a b
  let theirs ← w.session b a
  match ours.current, theirs.current with
  | some ours, some theirs => return ours.ratchet.mirrors theirs.ratchet
  | _, _ => return false

/-- The records that are held between accounts and can be read, those without content apart. -/
def heldSessions (w : World) : List (Link × SessionRecord) :=
  let links := w.addresses.flatMap fun a =>
    (w.addresses.filter fun b => b.name != a.name).map fun b => (⟨a, b⟩ : Link)
  links.filterMap fun l =>
    match w.session l.source l.target with
    | .error _ => none
    | .ok r => if r.isFresh then none else some (l, r)

/-! ### Invariants -/

/-- Checks the record that a device has for a peer: the archive is within bounds, and an active
session was built with the key on file. -/
def checkRecord (d : Device) (peer : Address) : Except WorldError Unit := do
  let record ← (d.vault.load peer).mapError (.session d.address)
  if SessionRecord.archiveLimit < record.previous.length then
    throw (.invariant d.address (.archiveTooLong peer record.previous.length))
  match record.current.filter fun _ => record.isActive with
  | none => return ()
  | some state =>
    match ← (d.vault.loadIdentity peer.name).mapError (.session d.address) with
    | none => throw (.invariant d.address (.noIdentity peer))
    | some identity =>
      if identity.identityKey ≠ state.remoteIdentity then
        throw (.invariant d.address (.replacedIdentity peer))

/-- Checks everything a device has stored. -/
def checkDevice (d : Device) : Except WorldError Unit := d.vault.addresses.forM (checkRecord d)

/-- Checks everything all devices have stored. -/
def checkInvariants (w : World) : Except WorldError Unit := w.devices.values.forM checkDevice

/-! ### Steps -/

end World

/-- A step of a world. What a failing step has done before it failed stays done. -/
abbrev WorldStep (α : Type) := EStateM WorldError World α

namespace World

variable (suite : Suite)

/-- Uses the device at an address. -/
def useDevice {α : Type} (a : Address) (f : Device → α × Device) : WorldStep α := fun w =>
  match w.device a with
  | .error e => .error e w
  | .ok d => .ok (f d).1 (w.setDevice a (f d).2)

/-- Runs an operation on the device at an address. -/
def onDevice {α : Type} (a : Address) (f : Device → Except SessionError α × Device) :
    WorldStep α := do
  match ← useDevice a f with
  | .ok result => return result
  | .error e => throw (.session a e)

/-- Carries out what an operation on a device asks for, and puts its messages on the network. -/
def settle (a : Address) (outcome : HandshakeOutcome) : WorldStep HandshakeStatus :=
  modifyGet fun w =>
    let recording := (Dispatch.run (Recording.sink a) outcome.actions (w.recording a)).2
    (outcome.status, { w with
      recordings := w.recordings.insert a { recording with outbox := [] }
      network := w.network.sendAll recording.outbox })

/-- Draws an identity. -/
def drawIdentity : WorldStep KeyPair := modifyGet fun w =>
  ((w.environment.keyPair suite).1, { w with environment := (w.environment.keyPair suite).2 })

/-- Registers a device, in place of any other at its address. -/
def addDevice (identity : KeyPair) (a : Address) : WorldStep Unit := modify fun w =>
  let (environment, own) := w.environment.fork
  { w with
    environment := own
    devices := w.devices.insert a (.create a environment w.config identity)
    recordings := w.recordings.insert a .empty }

/-- Registers an account with some devices, one at least, that share an identity. -/
def addAccount (name : String) (devices : Nat) : WorldStep (List Address) := do
  let identity ← drawIdentity suite
  let addresses := (List.range (max 1 devices)).map fun i => ⟨name, UInt32.ofNat (i + 1)⟩
  addresses.forM (addDevice identity)
  return addresses

/-- The number of the conversation of two accounts, given out at first use. -/
def threadId (a b : String) : WorldStep UInt64 := modifyGet fun w =>
  let conversation := Conversation.between a b
  match w.threads.get? conversation with
  | some id => (id, w)
  | none => (w.nextThread, { w with
      threads := w.threads.insert conversation w.nextThread
      nextThread := w.nextThread + 1 })

/-- Builds a session from a bundle that the target publishes for it. -/
def establishFromBundle (source target : Address) : WorldStep HandshakeStatus := do
  let thread ← threadId source.name target.name
  let bundle ← useDevice target (Device.publishNext suite)
  settle source (← onDevice source (Device.useBundle suite target thread bundle))

/-- What the first message on a session says. -/
def greeting : Bytes := Bytes.ofString "hello"

/-- Puts the first message on a session on the network, and answers whether there is one. -/
def sendFirstMessage (source target : Address) : WorldStep Bool := do
  let thread ← threadId source.name target.name
  match ← onDevice source fun d => (d.firstMessage? target greeting, d) with
  | none => return false
  | some message =>
    modify fun w => { w with
      network := w.network.send ⟨⟨source, target⟩, thread, .prekey, message.encode⟩ }
    return true

/-- Notes that the target answered, and answers whether that was news. -/
def acknowledge (source target : Address) : WorldStep Bool :=
  onDevice source fun d => d.runPlan (·.acknowledge target)

/-- Opens an exchange. -/
def initiate (source target : Address) : WorldStep HandshakeStatus := do
  let thread ← threadId source.name target.name
  settle source (← onDevice source (Device.initiate suite target thread))

/-- Takes the oldest message off a link. -/
def takeMessage (l : Link) : WorldStep (Option Envelope) := modifyGet fun w =>
  ((w.network.deliver l).1, { w with network := (w.network.deliver l).2 })

/-- Delivers the oldest message on a link, if there is one. -/
def deliver (l : Link) : WorldStep (Option HandshakeStatus) := do
  match ← takeMessage l with
  | none => return none
  | some envelope =>
    return some (← settle l.target (← onDevice l.target (Device.receive suite envelope)))

/-- Delivers at most `limit` messages: one on each link of `round`, then one on each link that is
busy by then, and so on until no link is. Answers how many were delivered. -/
def deliverRounds : (limit : Nat) → (round : List Link) → WorldStep Nat
  | 0, _ => return 0
  | limit + 1, l :: round => do
    let _ ← deliver suite l
    return (← deliverRounds limit round) + 1
  | limit + 1, [] => do
    match (← get).network.busyLinks with
    | [] => return 0
    | l :: round =>
      let _ ← deliver suite l
      return (← deliverRounds limit round) + 1

/-- Delivers at most `limit` messages, one on each busy link in turn, until no link is busy. Stops
at the first that fails. -/
def deliverAll (limit : Nat) : WorldStep Nat := deliverRounds suite limit []

/-- Gives every device of an account another identity. -/
def rotateIdentity (name : String) : WorldStep Unit := do
  let identity ← drawIdentity suite
  modify fun w =>
    (w.addresses.filter (·.name == name)).foldl (fun w a =>
      { w with devices := w.devices.modify a (·.rotateIdentity identity) }) w

/-- Makes the next commit on a device fail. -/
def failNextCommit (a : Address) : WorldStep Unit := useDevice a fun d => ((), d.failNextCommit)

/-- Moves the clock of the world; devices have clocks of their own. -/
def advance (milliseconds : UInt64) : WorldStep Unit := modify fun w =>
  { w with environment := w.environment.advance milliseconds }

end World

end SecureSession
