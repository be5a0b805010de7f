import SecureSession.Simulation.Device

/-! # Scenes

Devices that exchange messages by hand. A message is kept under a name until it is taken in, once,
often or never, by any of them. The devices may share one storage. -/

namespace SecureSession

/-- A device of a scene and the cryptography it uses. -/
structure Actor where
  device : Device
  suite : Suite

/-- A message kept by hand. -/
structure Parcel where
  kind : HandshakeKind
  payload : Bytes
deriving DecidableEq

/-- Devices, and the messages kept under names. -/
structure Scene where
  actors : List Actor
  /-- Whether all devices use one storage. -/
  shared : Bool
  parcels : SortedMap String Parcel

namespace Scene

/-- The scene with another device at a position. A shared storage is that of all devices. -/
def setDevice (s : Scene) (i : Nat) (d : Device) : Scene :=
  let actors := s.actors.modify i ({ · with device := d })
  { s with actors := if s.shared then
      actors.map fun a => { a with device := { a.device with storage := d.storage } }
    else actors }

/-! ### Messages -/

/-- Keeps a message under a name, if one is given. -/
def keep (s : Scene) (slot : Option String) (p : Parcel) : Scene :=
  match slot with
  | none => s
  | some name => { s with parcels := s.parcels.insert name p }

/-- Keeps the handshake message that an action sends. -/
def keepAction (slot : Option String) (s : Scene) : SessionAction → Scene
  | .sendHandshake _ _ message =>
    match message.encode with
    | .ok payload => s.keep slot ⟨message.kind, payload⟩
    | .error _ => s
  | _ => s

/-- Keeps the last handshake message that an outcome sends. -/
def keepSent (s : Scene) (slot : Option String) : Except SessionError HandshakeOutcome → Scene
  | .ok o => o.actions.foldl (keepAction slot) s
  | .error _ => s

/-! ### Comparison -/

/-- Whether the live sessions of two devices with each other fit; none without both. -/
def fitting? (d e : Device) : Except SessionError (Option Bool) := do
  let ours ← d.vault.load e.address
  let theirs ← e.vault.load d.address
  return do return (← ours.current).fits (← theirs.current)

end Scene

end SecureSession
