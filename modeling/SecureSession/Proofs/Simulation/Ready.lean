import SecureSession.Proofs.Modular
import SecureSession.Proofs.Simulation.PairRuns

/-! # Pairs that are ready

Two devices can open exchanges with each other where neither has one under way (`World.IsReady`).
The devices of two new accounts are ready whatever the seed. -/

namespace SecureSession

open Crossing

/-- A device as a player that has done nothing. -/
def Device.player (d : Device) : Player := ⟨d.party.identity, d.party.environment, .start⟩

namespace World

variable {suite : Suite} {w : World} {x y : Address} {d e : Device}

/-! ### Where a run may start -/

/-- Whether a device could open exchanges with a peer: it has none under way, nothing is on the way
to it, no commit of it is about to fail, and it trusts the identity of the peer. -/
structure Awaits (w : World) (x : Address) (d : Device) (y : Address) (e : Device) : Prop where
  device : w.devices.get? x = some d
  idle : (d.contents.record y).pending = none
  quiet : w.network.queue ⟨y, x⟩ = []
  unarmed : d.isArmed = false
  trusts : d.trusts y e.party.identity.publicKey = true

/-- Whether two devices of different accounts could open exchanges with each other. -/
structure IsReady (suite : Suite) (w : World) (x : Address) (d : Device)
    (y : Address) (e : Device) : Prop where
  reachable : Reachable suite w
  accounts : x.name ≠ y.name
  first : w.Awaits x d y e
  second : w.Awaits y e x d

theorem Awaits.stands (h : w.Awaits x d y e) :
    w.Stands suite x y e.party.identity.publicKey d.player where
  device := ⟨d, h.device, ⟨h.unarmed, rfl, rfl, h.trusts, h.idle, nofun, nofun, nofun⟩⟩
  inbox := by
    rw [Network.messages, h.quiet]
    exact .nil

theorem IsReady.pair (h : w.IsReady suite x d y e) (hs : suite.KeepsKeys) :
    w.Pair suite x y (d.player, e.player) :=
  ⟨h.reachable.isSound hs, h.first.stands, h.second.stands, ordered_start.sourced,
    ordered_start.sourced'⟩

theorem IsReady.swap (h : w.IsReady suite x d y e) : w.IsReady suite y e x d :=
  ⟨h.reachable, fun heq => h.accounts heq.symm, h.second, h.first⟩

theorem Call.IsBetweenOrApart.swap {c : Call} (h : c.IsBetweenOrApart x y) :
    c.IsBetweenOrApart y x := by
  rcases h with (h | h | h | h) | ⟨hx, hy⟩
  · exact .inl (.inr (.inl h))
  · exact .inl (.inl h)
  · exact .inl (.inr (.inr (.inr h)))
  · exact .inl (.inr (.inr (.inl h)))
  · exact .inr ⟨hy, hx⟩

theorem IsReady.ne (h : w.IsReady suite x d y e) : x ≠ y := fun heq => h.accounts (congrArg _ heq)

/-- After a run the devices are as their players have played it. -/
theorem IsReady.pair_afterAll (h : w.IsReady suite x d y e) (hs : suite.Completes)
    {calls : List Call} (hcalls : ∀ c ∈ calls, c.IsBetweenOrApart x y) :
    (w.afterAll suite calls).Pair suite x y
      (Player.playAll suite x y calls (d.player, e.player)) :=
  ((h.pair hs.keepsKeys).run hs h.ne hcalls).1

theorem Stands.inbox_eq_nil {their : PublicKey} {a : Player} (h : w.Stands suite x y their a)
    (hq : w.network.queue ⟨y, x⟩ = []) : a.side.inbox = [] := by
  have hinbox := h.inbox
  rw [Network.messages, hq] at hinbox
  exact List.forall₂_nil_right_iff.mp hinbox

/-- What is on the way to a device can be read off its player. -/
theorem Stands.queue_eq_nil {their : PublicKey} {a : Player} (h : w.Stands suite x y their a)
    (hsound : w.IsSound suite) (ha : a.side.inbox = []) : w.network.queue ⟨y, x⟩ = [] := by
  have hinbox := h.inbox
  rw [ha, List.forall₂_nil_left_iff] at hinbox
  exact (hsound.network.messages_eq_nil _).mp hinbox

/-! ### Two new accounts -/

section Accounts
variable (suite : Suite) (seed : UInt64) (config : SessionConfig) (a b : String)

/-- A world with two new accounts of one device each. -/
def ofAccounts : World :=
  ((ofSeed seed config).after suite (.addAccount a 1)).after suite (.addAccount b 1)

/-- The device of the first account. -/
def firstDevice : Device :=
  .create ⟨a, 1⟩ ((ofSeed seed config).environment.keyPair suite).2.fork.1 config
    ((ofSeed seed config).environment.keyPair suite).1

/-- The device of the second account. -/
def secondDevice : Device :=
  let environment := ((ofSeed seed config).after suite (.addAccount a 1)).environment
  .create ⟨b, 1⟩ (environment.keyPair suite).2.fork.1 config (environment.keyPair suite).1

variable {suite seed config a b}

theorem after_addAccount (w : World) (name : String) : w.after suite (.addAccount name 1) =
    { w with
      environment := (w.environment.keyPair suite).2.fork.2
      devices := w.devices.insert ⟨name, 1⟩
        (.create ⟨name, 1⟩ (w.environment.keyPair suite).2.fork.1 w.config
          (w.environment.keyPair suite).1)
      recordings := w.recordings.insert ⟨name, 1⟩ .empty } := rfl

/-- A new device trusts whom it meets first. -/
theorem trusts_create (address : Address) (e : Environment) (identity : KeyPair) (peer : Address)
    (key : PublicKey) : (Device.create address e config identity).trusts peer key = true := rfl

theorem isReady_ofAccounts (hne : a ≠ b) : (ofAccounts suite seed config a b).IsReady suite
    ⟨a, 1⟩ (firstDevice suite seed config a) ⟨b, 1⟩ (secondDevice suite seed config a b) where
  reachable := ((Reachable.init seed config).call _).call _
  accounts := hne
  first := by
    refine ⟨?_, rfl, rfl, rfl, trusts_create ..⟩
    rw [ofAccounts, after_addAccount, SortedMap.get?_insert_of_ne _ (by simp [hne]),
      after_addAccount, SortedMap.get?_insert_self]
    rfl
  second := by
    refine ⟨?_, rfl, rfl, rfl, trusts_create ..⟩
    rw [ofAccounts, after_addAccount, SortedMap.get?_insert_self]
    rfl

theorem addresses_ofAccounts (h : compare (⟨b, 1⟩ : Address) ⟨a, 1⟩ = .gt) :
    (ofAccounts suite seed config a b).addresses = [⟨a, 1⟩, ⟨b, 1⟩] := by
  simp only [ofAccounts, after_addAccount, addresses, SortedMap.keys, SortedMap.insert, ofSeed,
    SortedMap.empty, SortedMap.insertEntry, h, List.map_cons, List.map_nil]

end Accounts

/-! ### Alice and Bob -/

/-- A world with both accounts. -/
def sample : World := ofAccounts .modular 1 default "alice" "bob"

/-- What the devices of both come to in a run. -/
def samplePlayers (calls : List Call) : Player × Player :=
  Player.playAll .modular alice bob calls ((firstDevice .modular 1 default "alice").player,
    (secondDevice .modular 1 default "alice" "bob").player)

/-- The seed of the environment of Alice's device, as the world draws it. -/
def aliceSeed : UInt64 := 17026236059710524928

/-- The seed of the environment of Bob's device. -/
def bobSeed : UInt64 := 11385210092959184569

theorem environment_firstDevice :
    (firstDevice .modular 1 default "alice").party.environment = .ofSeed aliceSeed := by
  refine congrArg Environment.ofSeed ?_
  show UInt64.ofNat (Bytes.toNatLE
    (((ofSeed 1 default).environment.keyPair .modular).2.bytes 8).1) = aliceSeed
  decide +kernel

theorem environment_secondDevice :
    (secondDevice .modular 1 default "alice" "bob").party.environment = .ofSeed bobSeed := by
  refine congrArg Environment.ofSeed ?_
  show UInt64.ofNat (Bytes.toNatLE
    ((((ofSeed 1 default).after .modular (.addAccount "alice" 1)).environment.keyPair
      .modular).2.bytes 8).1) =
    bobSeed
  decide +kernel

/-- With the seeds at hand, a run of the players can be computed without drawing them again. -/
theorem samplePlayers_eq (calls : List Call) : samplePlayers calls =
    Player.playAll .modular alice bob calls
      (⟨(firstDevice .modular 1 default "alice").party.identity, .ofSeed aliceSeed, .start⟩,
        ⟨(secondDevice .modular 1 default "alice" "bob").party.identity, .ofSeed bobSeed,
          .start⟩) := by
  rw [samplePlayers, Device.player, Device.player, environment_firstDevice,
    environment_secondDevice]

theorem isReady_sample : sample.IsReady .modular alice (firstDevice .modular 1 default "alice") bob
    (secondDevice .modular 1 default "alice" "bob") := isReady_ofAccounts (by decide)

theorem addresses_sample : sample.addresses = [alice, bob] := addresses_ofAccounts (by decide)

end World

end SecureSession
