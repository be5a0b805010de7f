import SecureSession.Proofs.Account.Requests
import SecureSession.Proofs.Simulation.Changes
import SecureSession.Proofs.Simulation.Trace
import SecureSession.Proofs.Simulation.Traffic

/-! # Attainable worlds

What devices have stored can be told of the worlds that calls alone lead to (`World.Reachable`).
What is on the network can be told of more: between calls, environments may be drawn from and
devices may be put in the place of those that there are (`World.Attainable`). Nothing waits in an
outbox of such a world, and no link of it is kept without messages (`World.Attainable.isTidy`). -/

namespace SecureSession.World

/-! ### Attainable worlds -/

/-- The worlds that calls lead to, whatever is done in between to the environment and with the
devices that there are. -/
inductive Attainable (suite : Suite) : World → Prop
  | init (seed : UInt64) (config : SessionConfig) : Attainable suite (ofSeed seed config)
  | call {w : World} (h : Attainable suite w) (c : Call) : Attainable suite (w.after suite c)
  | altered {w : World} (h : Attainable suite w) (environment : Environment)
    (devices : SortedMap Address Device) (hkeys : devices.keys = w.devices.keys) :
    Attainable suite { w with environment, devices }

variable {suite : Suite} {w : World}

/-- Without alterations, attainable worlds are those that calls lead to. -/
theorem Reachable.attainable (h : Reachable suite w) : Attainable suite w := by
  induction h with
  | init seed config => exact .init seed config
  | call _ c ih => exact ih.call c

theorem Attainable.afterAll : ∀ (l : List Call) {w : World}, Attainable suite w →
    Attainable suite (w.afterAll suite l)
  | [], _, h => h
  | c :: l, _, h => Attainable.afterAll l (h.call c)

/-! ### Tidy worlds -/

/-- Whether no message waits in an outbox and no link is kept without messages. -/
structure IsTidy (w : World) : Prop where
  outbox : ∀ a, (w.recording a).outbox = []
  network : w.network.IsTidy

theorem isTidy_ofSeed (seed : UInt64) (config : SessionConfig) : (ofSeed seed config).IsTidy :=
  ⟨fun _ => rfl, Network.isTidy_empty⟩

theorem IsTidy.of_eq {w' : World} (h : w.IsTidy) (hrecordings : w'.recordings = w.recordings)
    (hnetwork : w'.network = w.network) : w'.IsTidy := by
  refine ⟨fun a => ?_, hnetwork ▸ h.network⟩
  rw [recording, hrecordings]
  exact h.outbox a

theorem IsTidy.insert (h : w.IsTidy) (a : Address) {r : Recording} (hr : r.outbox = []) :
    ({ w with recordings := w.recordings.insert a r } : World).IsTidy := by
  refine ⟨fun b => ?_, h.network⟩
  rw [recording, SortedMap.get?_insert]
  split
  · exact hr
  · exact h.outbox b

theorem IsTidy.pop (h : w.IsTidy) (l : Link) : (w.pop l).IsTidy := ⟨h.outbox, h.network.deliver l⟩

/-- What is sent is put on the network at once, and a link goes with its last message. -/
theorem lasts_isTidy : Lasts suite IsTidy := by
  intro w w' hchanges h
  cases hchanges with
  | draw | act | number => exact h.of_eq rfl rfl
  | register identity a => exact (h.insert a (r := .empty) rfl).of_eq rfl rfl
  | settle a o =>
    have hinsert := h.insert a
      (r := { (Dispatch.run (Recording.sink a) o.actions (w.recording a)).2 with outbox := [] }) rfl
    exact ⟨hinsert.outbox, h.network.sendAll _⟩
  | post e => exact ⟨h.outbox, h.network.send _⟩
  | pop l => exact h.pop l

theorem IsTidy.after (h : w.IsTidy) (c : Call) : (w.after suite c).IsTidy :=
  WorldStep.Keeps.call lasts_isTidy c (fun _ _ _ h => h.of_eq rfl rfl) w h

theorem Attainable.isTidy (h : Attainable suite w) : w.IsTidy := by
  induction h with
  | init seed config => exact isTidy_ofSeed seed config
  | call _ c ih => exact ih.after c
  | altered _ environment devices _ ih => exact ih.of_eq rfl rfl

/-! ### Initiates that cross -/

/-- A device each of Alice and Bob, with keys that count up. -/
def countingDevices : SortedMap Address Device := SortedMap.empty
  |>.insert ⟨"alice", 1⟩ (.create ⟨"alice", 1⟩ ⟨.counter 40, 0⟩ default (.plain 1))
  |>.insert ⟨"bob", 1⟩ (.create ⟨"bob", 1⟩ ⟨.counter 80, 0⟩ default (.plain 2))

/-- The world of these devices. -/
def counting : World :=
  { (ofSeed 1 default).afterAll .plain [.addAccount "alice" 1, .addAccount "bob" 1] with
    environment := ⟨.counter 0, 0⟩
    devices := countingDevices }

/-- Both have opened an exchange with the other. -/
def crossed : World := counting.afterAll .plain
  [.initiate ⟨"alice", 1⟩ ⟨"bob", 1⟩, .initiate ⟨"bob", 1⟩ ⟨"alice", 1⟩]

theorem attainable_crossed : Attainable .plain crossed :=
  (Attainable.altered ((Attainable.init 1 default).afterAll _) _ countingDevices
    (by decide +kernel)).afterAll _

end SecureSession.World
