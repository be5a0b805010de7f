import Mathlib.Data.List.Nodup
import SecureSession.Proofs.Crossing.Phases

/-! # Two sides of which one opens exchanges

Where the second side opens no exchange it answers every initiate with keys of its own, in the order
in which the first side sent them. The invariant (`Alone`) tells a run as rounds: an exchange that
was opened and the keys it was answered with. A response on the way is that of a round, and it is
the one that completes an exchange exactly if its round is the last and no initiate is on the way
(`Alone.step`). -/

namespace SecureSession.Crossing

variable {κ : Type}

/-! ### Rounds -/

/-- An exchange that was answered: its number, its keys, and the keys of the other side. -/
structure Round (κ : Type) where
  number : UInt32
  key : κ
  reply : κ

namespace Round

/-- The exchange of a round, as it was opened. -/
def exchange (r : Round κ) : UInt32 × κ := (r.number, r.key)

/-- The leg that answers the exchange of a round. -/
def response (r : Round κ) : Leg κ := .response r.number r.reply

end Round

/-- The leg that opens an exchange. -/
def Leg.opening (q : UInt32 × κ) : Leg κ := .initiate q.1 q.2

/-! ### The invariant -/

/-- How far two sides are of which only the first opens exchanges. It opened those of the rounds,
and after them those whose initiates are on the way. While anything is on the way, the exchange that
it opened last is under way; once nothing is, both sides hold the session of the last round. -/
structure Alone (rounds : List (Round κ)) (coming : List (UInt32 × κ))
    (own peer : Side κ) : Prop where
  opened : own.opened = rounds.map Round.exchange ++ coming
  opened' : peer.opened = []
  pending' : peer.pending = none
  keys' : peer.keys = rounds.map Round.reply
  inbox : own.inbox <:+ rounds.map Round.response
  inbox' : peer.inbox = coming.map Leg.opening
  session' : ∀ r, rounds.getLast? = some r → peer.session = some (r.reply, r.key)
  busy : own.inbox ≠ [] ∨ coming ≠ [] → own.pending = own.opened.getLast?
  settled : own.inbox = [] → coming = [] → own.pending = none ∧
    ∀ r, rounds.getLast? = some r → own.session = some (r.key, r.reply)

theorem alone_start : Alone [] [] (Side.start : Side κ) .start where
  opened := rfl
  opened' := rfl
  pending' := rfl
  keys' := rfl
  inbox := List.suffix_rfl
  inbox' := rfl
  session' := nofun
  busy h := by simp [Side.start] at h
  settled _ _ := ⟨rfl, nofun⟩

namespace Alone

variable {rounds : List (Round κ)} {coming : List (UInt32 × κ)} {own peer own' peer' : Side κ}
  {n : UInt32} {k k' : κ}

section Responses
variable (h : Alone rounds coming own peer) {rest : List (Leg κ)}
  (hinbox : own.inbox = .response n k' :: rest)
include h hinbox

/-- The oldest response on the way belongs to a round, and the newer ones to the rounds after it. -/
theorem exists_round : ∃ past r later, rounds = past ++ r :: later ∧ r.number = n ∧ r.reply = k' ∧
    rest = later.map Round.response := by
  obtain ⟨done, hdone⟩ := h.inbox
  rw [hinbox] at hdone
  obtain ⟨past, round, rfl, -, hround⟩ := List.map_eq_append_iff.mp hdone.symm
  obtain ⟨r, later, rfl, hr, hlater⟩ := List.map_eq_cons_iff.mp hround
  cases hr
  exact ⟨past, r, later, rfl, rfl, rfl, hlater.symm⟩

/-- The exchange that a response on the way answers was opened. -/
theorem exists_opened : ∃ k, (n, k) ∈ own.opened := by
  obtain ⟨past, r, later, rfl, rfl, -, -⟩ := h.exists_round hinbox
  refine ⟨r.key, ?_⟩
  rw [h.opened]
  simp [Round.exchange]

/-- While a response is on the way, the exchange opened last is under way. -/
theorem pending_eq : own.pending = own.opened.getLast? := h.busy (.inl (by simp [hinbox]))

/-- A response to an exchange that is not the one opened last answers nothing under way. -/
theorem pending_ne_of_superseded (hnodup : (own.opened.map Prod.fst).Nodup)
    (hk : (n, k) ∈ own.opened) (hlast : own.opened.getLast? ≠ some (n, k)) (k₁ : κ) :
    own.pending ≠ some (n, k₁) := by
  rw [h.pending_eq hinbox]
  intro hk₁
  refine hlast ?_
  rw [hk₁, List.inj_on_of_nodup_map hnodup (List.mem_of_getLast? hk₁) hk rfl]

/-- The response that completes the exchange opened last is that of the last round, and nothing else
is on the way. -/
theorem last_of_pending (hnodup : (own.opened.map Prod.fst).Nodup)
    (hpending : own.pending = some (n, k)) :
    rest = [] ∧ coming = [] ∧ ∃ r, rounds.getLast? = some r ∧ r.key = k ∧ r.reply = k' := by
  obtain ⟨past, r, later, rfl, rfl, rfl, rfl⟩ := h.exists_round hinbox
  have hlast : own.opened.getLast? = some (r.number, k) :=
    (h.pending_eq hinbox).symm.trans hpending
  have hopened : own.opened = past.map Round.exchange ++
      r.exchange :: (later.map Round.exchange ++ coming) := by
    rw [h.opened]
    simp
  -- the number of the round stands at its place only, so nothing was opened after it
  have hnone : later.map Round.exchange ++ coming = [] := by
    rcases List.eq_nil_or_concat (later.map Round.exchange ++ coming) with heq | ⟨l, q, heq⟩
    · exact heq
    rw [heq, List.concat_eq_append] at hopened
    rw [hopened] at hlast hnodup
    rw [← List.cons_append, ← List.append_assoc, List.getLast?_concat] at hlast
    cases hlast
    simp [Round.exchange, List.nodup_append] at hnodup
  obtain ⟨hlater, rfl⟩ := List.append_eq_nil_iff.mp hnone
  obtain rfl := List.map_eq_nil_iff.mp hlater
  refine ⟨rfl, rfl, r, by simp, ?_, rfl⟩
  rw [hopened] at hlast
  simpa [Round.exchange] using hlast

end Responses

/-! ### Steps -/

/-- A step of the side that opens exchanges. -/
theorem step (h : Alone rounds coming own peer) (hstep : Step own peer own' peer')
    (hnodup : (own'.opened.map Prod.fst).Nodup) : ∃ coming', Alone rounds coming' own' peer' := by
  cases hstep with
  | @opens n k =>
    refine ⟨coming ++ [(n, k)], ?_, h.opened', h.pending', h.keys', h.inbox, ?_, h.session',
      fun _ => ?_, fun _ hnone => ?_⟩
    · rw [Side.opening, h.opened, List.append_assoc]
    · rw [Side.push, h.inbox', List.map_append]
      rfl
    · exact List.getLast?_concat.symm
    · simp at hnone
  | answers inbox =>
    -- only responses are on the way to this side
    have hmem := h.inbox.subset (inbox ▸ List.mem_cons_self)
    obtain ⟨r, -, hr⟩ := List.mem_map.mp hmem
    cases hr
  | @completes n k k' rest inbox pending =>
    obtain ⟨rfl, rfl, r, hr, rfl, rfl⟩ := h.last_of_pending inbox hnodup pending
    refine ⟨[], h.opened, h.opened', h.pending', h.keys', List.nil_suffix, h.inbox', h.session',
      fun hbusy => ?_, fun _ _ => ⟨rfl, fun r' hr' => ?_⟩⟩
    · simp [Side.completing] at hbusy
    · cases hr.symm.trans hr'
      rfl
  | @drops n k' rest inbox pending =>
    have hopened := h.pending_eq inbox
    refine ⟨coming, h.opened, h.opened', h.pending', h.keys', ?_, h.inbox', h.session',
      fun _ => hopened, fun hrest hnone => ?_⟩
    · exact (List.suffix_cons _ rest).trans (inbox ▸ h.inbox)
    · -- the last response on the way is to the exchange that is under way
      obtain ⟨past, r, later, rfl, rfl, rfl, hlater⟩ := h.exists_round inbox
      obtain rfl : later = [] := List.map_eq_nil_iff.mp (hlater.symm.trans hrest)
      refine absurd ?_ (pending r.key)
      rw [hopened, h.opened, hnone]
      simp [Round.exchange]

/-- A step of the other side, which opens no exchange. -/
theorem step' (h : Alone rounds coming own peer) (hstep : Step peer own peer' own')
    (hopened : peer'.opened = []) : ∃ rounds' coming', Alone rounds' coming' own' peer' := by
  cases hstep with
  | opens => simp [Side.opening] at hopened
  | @answers n k k' drawn rest inbox keys =>
    obtain ⟨q, coming', rfl, hleg, rfl⟩ := List.map_eq_cons_iff.mp (h.inbox'.symm.trans inbox)
    obtain rfl : q = (n, k') := by
      cases hleg
      rfl
    -- nothing is under way here, so the keys of the answer are new
    obtain rfl : drawn = [k] := by
      cases keys with
      | fresh => rfl
      | crossing hpending => cases h.pending'.symm.trans hpending
    refine ⟨rounds ++ [⟨n, k', k⟩], coming', ?_, h.opened', rfl, ?_, ?_, rfl, fun r hr => ?_,
      fun _ => ?_, fun hnone => ?_⟩
    · rw [Side.push, h.opened]
      simp [Round.exchange]
    · rw [Side.answering, h.keys', List.map_append]
      rfl
    · obtain ⟨done, hdone⟩ := h.inbox
      refine ⟨done, ?_⟩
      rw [Side.push, ← List.append_assoc, hdone, List.map_append]
      rfl
    · cases List.getLast?_concat.symm.trans hr
      rfl
    · exact h.busy (.inr (List.cons_ne_nil _ _))
    · simp [Side.push] at hnone
  | completes inbox | drops inbox =>
    -- only initiates are on the way to this side
    obtain ⟨q, _, -, hleg, -⟩ := List.map_eq_cons_iff.mp (h.inbox'.symm.trans inbox)
    cases hleg

/-! ### What both sides come to -/

/-- What is on the way to the side that opens no exchange is an initiate. -/
theorem initiate_of_inbox (h : Alone rounds coming own peer) {leg : Leg κ} {rest : List (Leg κ)}
    (hinbox : peer.inbox = leg :: rest) : ∃ n k, leg = .initiate n k := by
  obtain ⟨q, _, -, rfl, -⟩ := List.map_eq_cons_iff.mp (h.inbox'.symm.trans hinbox)
  exact ⟨q.1, q.2, rfl⟩

/-- What is on the way to the side that opens exchanges is a response. -/
theorem response_of_inbox (h : Alone rounds coming own peer) {leg : Leg κ} {rest : List (Leg κ)}
    (hinbox : own.inbox = leg :: rest) : ∃ n k, leg = .response n k := by
  obtain ⟨r, -, rfl⟩ := List.mem_map.mp (h.inbox.subset (hinbox ▸ List.mem_cons_self))
  exact ⟨r.number, r.reply, rfl⟩

/-- Once nothing is on the way, both sides hold the session of the exchange opened last and of the
keys drawn last, and nothing is under way. -/
theorem session_of_quiet (h : Alone rounds coming own peer) (hown : own.inbox = [])
    (hpeer : peer.inbox = []) (hopened : own.opened ≠ []) :
    ∃ n k k', own.opened.getLast? = some (n, k) ∧
      peer.keys.getLast? = some k' ∧ own.pending = none ∧ own.session = some (k, k') ∧
      peer.session = some (k', k) := by
  obtain rfl : coming = [] := List.map_eq_nil_iff.mp (h.inbox'.symm.trans hpeer)
  have hrounds : rounds ≠ [] := by
    rintro rfl
    exact hopened h.opened
  obtain ⟨hpending, hsession⟩ := h.settled hown rfl
  have hlast := List.getLast?_eq_some_getLast hrounds
  refine ⟨(rounds.getLast hrounds).number, _, _, ?_, ?_, hpending, hsession _ hlast,
    h.session' _ hlast⟩
  · rw [h.opened, List.append_nil, List.getLast?_map, hlast]
    rfl
  · rw [h.keys', List.getLast?_map, hlast]
    rfl

end Alone

end SecureSession.Crossing
