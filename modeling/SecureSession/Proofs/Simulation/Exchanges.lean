import SecureSession.Proofs.Simulation.Trace

/-! # The exchanges of a run

What the moments of a run tell of the exchanges between two devices: those that one opens with the
other, the keys it draws, and the initiates it takes in. -/

namespace SecureSession.World

variable (suite : Suite)

/-! ### At a moment -/

namespace Moment

variable (m : Moment) (x y : Address)

/-- The exchange that a device opens with another. -/
def opening : Option PendingExchange :=
  if m.call = .initiate x y then (m.world.devices.get? x).map fun d => d.party.opening suite
  else none

/-- The initiate that a device takes in from another. -/
def initiate? : Option KeyExchangeMessage :=
  if m.call = .deliver ⟨y, x⟩ then
    match m.world.network.messages ⟨y, x⟩ with
    | .initiate k :: _ => some k
    | _ => none
  else none

/-- The exchange with new keys that a device answers an initiate of another with. It draws none
where it has an exchange of its own under way. -/
def answering : Option PendingExchange :=
  (m.initiate? x y).bind fun k => (m.world.devices.get? x).bind fun d =>
    if (d.contents.record y).pending.isSome then none else some (d.party.answering suite k.sequence)

/-- The exchanges with another device that a device draws keys for, one at most. -/
def drawn : List PendingExchange := (m.opening suite x y).toList ++ (m.answering suite x y).toList

/-- How many initiates a device has taken in since it last opened an
exchange, given how many before. -/
def count (n : Nat) : Nat :=
  if m.call = .initiate x y then 0 else if (m.initiate? x y).isSome then n + 1 else n

end Moment

/-! ### In a run -/

section History
variable (x y : Address) (t : List Moment)

/-- The exchanges that a device opens with another. -/
def openings : List PendingExchange := t.filterMap (Moment.opening suite · x y)

/-- The exchanges with another device that a device draws keys for. -/
def drawn : List PendingExchange := t.flatMap (Moment.drawn suite · x y)

/-- How many initiates of another device a device has taken in since it last
opened an exchange with it. -/
def answers : Nat := t.foldl (fun n m => m.count x y n) 0

theorem openings_snoc (m : Moment) : openings suite x y (t ++ [m]) =
    openings suite x y t ++ (m.opening suite x y).toList := by
  rw [openings, List.filterMap_append, openings]
  cases h : m.opening suite x y <;> simp [h]

end History

/-! ### Moments of other calls -/

namespace Moment

variable {suite} {w : World} {x y : Address}

theorem opening_initiate {d : Device} (hd : w.devices.get? x = some d) :
    (⟨w, .initiate x y⟩ : Moment).opening suite x y = some (d.party.opening suite) := by
  rw [opening, if_pos rfl, hd]
  rfl

theorem opening_of_ne {c : Call} (h : c ≠ .initiate x y) :
    (⟨w, c⟩ : Moment).opening suite x y = none := if_neg h

theorem initiate?_of_ne {c : Call} (h : c ≠ .deliver ⟨y, x⟩) :
    (⟨w, c⟩ : Moment).initiate? x y = none :=
  if_neg h

theorem count_of_ne {c : Call} (h : c ≠ .initiate x y) (n : Nat) : (⟨w, c⟩ : Moment).count x y n =
    if ((⟨w, c⟩ : Moment).initiate? x y).isSome then n + 1 else n := if_neg h

theorem answering_of_ne {c : Call} (h : c ≠ .deliver ⟨y, x⟩) :
    (⟨w, c⟩ : Moment).answering suite x y = none := by
  rw [answering, initiate?_of_ne h]
  rfl

section Deliver
variable {ms : List HandshakeMessage}

theorem initiate?_deliver {k : KeyExchangeMessage}
    (h : w.network.messages ⟨y, x⟩ = .initiate k :: ms) :
    (⟨w, .deliver ⟨y, x⟩⟩ : Moment).initiate? x y = some k := by
  rw [initiate?, if_pos rfl, h]

/-- What is no initiate takes in none. -/
theorem initiate?_deliver_of_ne (h : ∀ k ms, w.network.messages ⟨y, x⟩ ≠ .initiate k :: ms) :
    (⟨w, .deliver ⟨y, x⟩⟩ : Moment).initiate? x y = none := by
  rw [initiate?, if_pos rfl]
  split
  · rename_i k ms hms
    exact absurd hms (h k ms)
  · rfl

theorem answering_deliver {k : KeyExchangeMessage}
    (h : w.network.messages ⟨y, x⟩ = .initiate k :: ms) {d : Device}
    (hd : w.devices.get? x = some d) :
    (⟨w, .deliver ⟨y, x⟩⟩ : Moment).answering suite x y =
      if (d.contents.record y).pending.isSome then none
        else some (d.party.answering suite k.sequence) := by
  rw [answering, initiate?_deliver h, hd]
  rfl

end Deliver

end Moment

/-- A device that is there opens an exchange at each call to do so. -/
theorem length_openings {suite : Suite} {x y : Address} (hs : suite.KeepsKeys) :
    ∀ (calls : List Call) {w : World}, w.IsSound suite → (w.devices.get? x).isSome →
      (openings suite x y (timeline suite w calls)).length = calls.count (.initiate x y)
  | [], _, _, _ => rfl
  | c :: calls, w, hsound, hx => by
    have hrest :=
      length_openings (y := y) hs calls (hsound.after hs c) ((c.ends hs hsound).registered x hx)
    rw [timeline, openings, List.filterMap_cons, List.count_cons]
    by_cases hc : c = .initiate x y
    · obtain ⟨d, hd⟩ := Option.isSome_iff_exists.mp hx
      subst hc
      rw [Moment.opening_initiate hd, ← hrest]
      simp [openings]
    · rw [Moment.opening_of_ne hc, ← hrest]
      simp [openings, hc]

end SecureSession.World
