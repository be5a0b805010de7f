import SecureSession.Proofs.Crossing.Phases
import SecureSession.Proofs.Handshake.Effects
import SecureSession.Proofs.Simulation.Call

/-! # Two sides that draw their keys

The sides of `Crossing` with an environment each, to draw numbers and keys from. What both come to
can be computed from the calls alone, and each call is a step of a side (`Player.step_opens`,
`Player.step_takes`). -/

namespace SecureSession

open Crossing

/-- One side with its identity and its environment. -/
structure Player where
  identity : KeyPair
  environment : Environment
  side : Side PendingExchange

namespace Player

variable (suite : Suite) (a b : Player)

/-! ### Steps -/

/-- The exchange that a player would open. -/
def opening : PendingExchange :=
  a.environment.uint32.2.exchange suite a.identity
    (if a.environment.uint32.1 = 0 then 1 else a.environment.uint32.1)

/-- The player with another leg on the way to it. -/
def push (leg : Leg PendingExchange) : Player := { a with side := a.side.push leg }

/-- An exchange is opened. -/
def opens : Player × Player :=
  ({ a with
      environment := a.environment.uint32.2.afterExchange suite
      side := a.side.opening (a.opening suite).sequence (a.opening suite) },
    b.push (.initiate (a.opening suite).sequence (a.opening suite)))

/-- An initiate of the given number and keys is answered. -/
def answers (n : UInt32) (k' : PendingExchange) (rest : List (Leg PendingExchange)) :
    Player × Player :=
  match a.side.pending with
  | none =>
    let k := a.environment.exchange suite a.identity n
    ({ a with
        environment := a.environment.afterExchange suite
        side := a.side.answering k k' [k] rest },
      b.push (.response n k))
  | some (_, k) => ({ a with side := a.side.answering k k' [] rest }, b.push (.response n k))

/-- A response of the given number and keys completes an exchange, or is dropped. -/
def completes (n : UInt32) (k' : PendingExchange) (rest : List (Leg PendingExchange)) : Player :=
  match a.side.pending with
  | none => { a with side := a.side.dropping rest }
  | some (m, k) =>
    if m = n then { a with side := a.side.completing k k' rest }
    else { a with side := a.side.dropping rest }

/-- The oldest leg on the way is taken in. -/
def takes : Player × Player :=
  match a.side.inbox with
  | [] => (a, b)
  | .initiate n k' :: rest => a.answers suite b n k' rest
  | .response n k' :: rest => (a.completes n k' rest, b)

/-- What two players at the given addresses do at a call. -/
def play (x y : Address) (c : World.Call) (p : Player × Player) : Player × Player :=
  if c = .initiate x y then p.1.opens suite p.2
  else if c = .initiate y x then (p.2.opens suite p.1).swap
  else if c = .deliver ⟨y, x⟩ then p.1.takes suite p.2
  else if c = .deliver ⟨x, y⟩ then (p.2.takes suite p.1).swap
  else p

/-! ### Steps of the sides -/

section Legs
variable {suite a b} {n : UInt32} {k' : PendingExchange} {rest : List (Leg PendingExchange)}

theorem takes_initiate (h : a.side.inbox = .initiate n k' :: rest) :
    a.takes suite b = a.answers suite b n k' rest := by
  rw [takes, h]

theorem takes_response (h : a.side.inbox = .response n k' :: rest) :
    a.takes suite b = (a.completes n k' rest, b) := by
  rw [takes, h]

theorem answers_fst : (a.answers suite b n k' rest).1.identity = a.identity ∧
    (a.answers suite b n k' rest).1.side.inbox = rest := by
  cases h : a.side.pending <;> simp [answers, h, Side.answering]

theorem completes_eq (a : Player) (n : UInt32) (k' : PendingExchange)
    (rest : List (Leg PendingExchange)) :
    (a.completes n k' rest).identity = a.identity ∧
    (a.completes n k' rest).side.inbox = rest ∧
    (a.completes n k' rest).side.opened = a.side.opened ∧
    (a.completes n k' rest).side.keys = a.side.keys ∧
    (a.completes n k' rest).side.answers = a.side.answers := by
  rw [completes]
  split
  · exact ⟨rfl, rfl, rfl, rfl, rfl⟩
  · split <;> exact ⟨rfl, rfl, rfl, rfl, rfl⟩

end Legs

theorem step_opens :
    Crossing.Step a.side b.side (a.opens suite b).1.side (a.opens suite b).2.side :=
  .opens

theorem step_takes : a.takes suite b = (a, b) ∨
    Crossing.Step a.side b.side (a.takes suite b).1.side (a.takes suite b).2.side := by
  rcases hinbox : a.side.inbox with _ | ⟨⟨n, k'⟩ | ⟨n, k'⟩, rest⟩
  · exact .inl (by rw [takes, hinbox])
  · refine .inr ?_
    rw [takes_initiate hinbox]
    cases hpending : a.side.pending with
    | none =>
      rw [answers, hpending]
      exact .answers hinbox (.fresh hpending)
    | some q =>
      rw [answers, hpending]
      exact .answers hinbox (.crossing hpending)
  · refine .inr ?_
    rw [takes_response hinbox]
    dsimp only
    cases hpending : a.side.pending with
    | none =>
      rw [completes, hpending]
      exact .drops hinbox (by simp [hpending])
    | some q =>
      rw [completes, hpending]
      dsimp only
      split
      · rename_i hn
        subst hn
        exact .completes hinbox hpending
      · rename_i hn
        refine .drops hinbox fun k hk => ?_
        rw [hpending] at hk
        cases hk
        exact hn rfl

theorem sourced_takes {a b : Player} (h : Sourced a.side b.side) (h' : Sourced b.side a.side) :
    Sourced (a.takes suite b).1.side (a.takes suite b).2.side ∧
      Sourced (a.takes suite b).2.side (a.takes suite b).1.side := by
  rcases step_takes suite a b with heq | hstep
  · rw [heq]
    exact ⟨h, h'⟩
  · exact ⟨hstep.sourced h, hstep.sourced' h' h⟩

end Player

end SecureSession
