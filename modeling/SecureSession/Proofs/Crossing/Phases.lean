import SecureSession.Proofs.Crossing.Sides

/-! # Two sides in order

Every step keeps two sides in order (`Ordered.step`), and two sides in order with nothing on the way
have sessions with keys of each other's (`Ordered.sessions`). -/

namespace SecureSession.Crossing

variable {κ : Type} {own peer own' peer' : Side κ} {n : UInt32} {k k' : κ}

/-! ### What a step does to the phase -/

/-- Where no initiate is on the way to the first side, an answer to the exchange that the second
side has under way is on the way to it. -/
theorem Phase.answered_of_quiet (h : Phase own peer) (hquiet : Quiet own.inbox) {q : UInt32 × κ}
    (hq : peer.pending = some q) : ∃ k, .response q.1 k ∈ peer.inbox := by
  cases h with
  | idle _ _ _ pending' =>
    rw [pending'] at hq
    cases hq
  | led h =>
    cases h.lead with
    | posted _ _ inbox _ answered =>
      obtain ⟨k, hk⟩ := answered q hq
      exact ⟨k, inbox ▸ List.mem_append_left _ hk⟩
    | answered _ idle | settled _ idle =>
      rw [idle] at hq
      cases hq
  | follows h =>
    cases h.lead with
    | posted _ _ inbox =>
      rw [inbox, quiet_append] at hquiet
      exact absurd hquiet.2 not_quiet_initiate
    | @answered n k k' pending _ _ _ mem =>
      rw [pending] at hq
      cases hq
      exact ⟨k', mem⟩
    | settled pending =>
      rw [pending] at hq
      cases hq
  | crossed _ h =>
    cases h with
    | waiting _ _ pending _ _ _ answered =>
      rw [pending] at hq
      cases hq
      exact answered hquiet
    | answered _ _ pending =>
      rw [pending] at hq
      cases hq

/-- A side is as far as it was once the other side's step puts another leg on the way to it. -/
theorem Crossed.push (h : Crossed own peer) {leg : Leg κ}
    (hlast : Quiet (own.push leg).inbox → peer'.opened.getLast? = peer.opened.getLast?)
    (hanswered : Quiet peer'.inbox →
      Quiet peer.inbox ∨ ∃ q k, own.opened.getLast? = some q ∧ leg = .response q.1 k) :
    Crossed (own.push leg) peer' := by
  cases h with
  | @waiting n m k k' l r answers last pending inbox quiet early answered =>
    have hinbox : (own.push leg).inbox = l ++ .initiate m k' :: (r ++ [leg]) := by
      rw [Side.push, inbox, List.append_assoc]
      rfl
    refine .waiting answers last pending hinbox quiet early fun hq => ?_
    rcases hanswered hq with hq | ⟨q, k₁, hopened, rfl⟩
    · obtain ⟨k₁, hk⟩ := answered hq
      exact ⟨k₁, List.mem_append_left _ hk⟩
    · rw [last] at hopened
      cases hopened
      exact ⟨k₁, List.mem_append_right _ (List.mem_singleton.mpr rfl)⟩
  | answered answers last pending session =>
    refine .answered answers last pending fun hq => ?_
    rw [hlast hq]
    exact session (quiet_append.mp hq).1

theorem Ordered.phase_opens (h : Ordered own peer) (fresh : n ∉ own.opened.map Prod.fst) :
    Phase (own.opening n k) (peer.push (.initiate n k)) := by
  have hlast : (own.opening n k).opened.getLast? = some (n, k) := List.getLast?_concat
  have hbusy : ¬Quiet (peer.push (.initiate n k)).inbox := fun hq =>
    not_quiet_initiate (quiet_append.mp hq).2
  by_cases hquiet : Quiet own.inbox
  · -- all that the other side opened was taken in: the new exchange is the last word
    exact .led ⟨rfl, hquiet, .posted hlast rfl rfl quiet_nil fun _ hq =>
      h.phase.answered_of_quiet hquiet hq⟩
  · obtain ⟨l, m, k', r, hinbox, hl⟩ := exists_first hquiet
    have hearly : ∀ k, .response n k ∉ l := fun k hk =>
      h.posted.not_mem_of_fresh fresh k (hinbox ▸ List.mem_append_left _ hk)
    have hown : Crossed (own.opening n k) (peer.push (.initiate n k)) :=
      .waiting rfl hlast rfl hinbox hl hearly fun hq => absurd hq hbusy
    refine .crossed hown ?_
    cases h.phase with
    | idle inbox => exact absurd (inbox ▸ quiet_nil) hquiet
    | led h => exact absurd h.quiet hquiet
    | follows hled =>
      cases hled.lead with
      | @posted n₀ k₀ _ _ last pending inbox =>
        have hmem : .initiate n₀ k₀ ∈ own.inbox :=
          inbox ▸ List.mem_append_right _ List.mem_cons_self
        exact .waiting hled.answers last pending rfl hled.quiet
          (h.posted'.not_mem_of_initiate h.nodup' hmem) fun hq => absurd hq hquiet
      | answered _ _ quiet | settled _ _ quiet => exact absurd quiet hquiet
    | crossed _ h' => exact h'.push (fun hq => absurd hq hbusy) fun hq => absurd hq hquiet

theorem Ordered.phase_answers (h : Ordered own peer) {drawn : List κ} {rest : List (Leg κ)}
    (hinbox : own.inbox = .initiate n k' :: rest) (hk : Answers own k drawn) :
    Phase (own.answering k k' drawn rest) (peer.push (.response n k)) := by
  have hbusy : ¬Quiet own.inbox := by
    rw [hinbox]
    exact not_quiet_initiate
  have hpush : Quiet (peer.push (.response n k)).inbox ↔ Quiet peer.inbox := by simp [Side.push]
  have hlast : Quiet rest → peer.opened.getLast? = some (n, k') :=
    h.posted'.getLast?_of_quiet hinbox
  cases h.phase with
  | idle inbox => exact absurd (inbox ▸ quiet_nil) hbusy
  | led h => exact absurd h.quiet hbusy
  | follows hled =>
    cases hled.lead with
    | @posted n₀ k₀ l r last pending inbox quiet answered =>
      rw [hinbox] at inbox
      cases l with
      | nil =>
        obtain ⟨heq, rfl⟩ := List.cons.inj inbox
        cases heq
        -- nothing is under way here, as a response to it would have come before the initiate
        have hpost : ∀ k'', .response n k'' ∈ peer.inbox → k'' = k := fun k'' hk'' =>
          absurd hk'' (h.posted'.not_mem_of_initiate h.nodup'
            (by rw [hinbox]; exact List.mem_cons_self) k'')
        refine .follows ⟨hled.answers, hpush.mpr hled.quiet, .answered pending rfl quiet rfl
          (List.mem_append_right _ (List.mem_singleton.mpr rfl)) fun k'' hk'' => ?_⟩
        rcases List.mem_append.mp hk'' with hk'' | hk''
        · exact hpost k'' hk''
        · cases List.mem_singleton.mp hk''
          rfl
      | cons leg l =>
        obtain ⟨rfl, rfl⟩ := List.cons.inj inbox
        exact .follows ⟨hled.answers, hpush.mpr hled.quiet,
          .posted last pending rfl quiet fun _ hq => absurd hq (by simp [Side.answering])⟩
    | answered _ _ quiet | settled _ _ quiet => exact absurd quiet hbusy
  | crossed hown hpeer =>
    have hpeer' : Crossed (peer.push (.response n k)) (own.answering k k' drawn rest) :=
      hpeer.push (fun _ => rfl) fun hq => .inr ⟨_, k, hlast hq, rfl⟩
    refine .crossed ?_ hpeer'
    cases hown with
    | @waiting n₀ m k₀ k₁ l r answers last pending =>
      have hsame : k = k₀ := by
        cases hk with
        | fresh h => rw [h] at pending; cases pending
        | crossing h => rw [h] at pending; cases pending; rfl
      refine .answered (by simp [Side.answering]) last rfl fun hq =>
        ⟨k, _, rfl, hlast hq, fun _ => hsame, fun htwo => ?_⟩
      simp [Side.answering, answers] at htwo
    | @answered n₀ k₀ answers last pending =>
      have hmem : k₀ ∈ own.keys := h.sourced.opened _ (List.mem_of_getLast? last)
      refine .answered (by simp [Side.answering]) last rfl fun hq =>
        ⟨k, _, rfl, hlast hq, fun hone => absurd (Nat.succ.inj hone) answers, fun _ => ?_⟩
      cases hk with
      | fresh => exact (List.singleton_sublist.mpr hmem).append (List.Sublist.refl [k])
      | crossing h => rw [h] at pending; cases pending

theorem Ordered.phase_completes (h : Ordered own peer) {rest : List (Leg κ)}
    (hinbox : own.inbox = .response n k' :: rest) (hpending : own.pending = some (n, k)) :
    Phase (own.completing k k' rest) peer := by
  have hmem : .response n k' ∈ own.inbox := hinbox ▸ List.mem_cons_self
  cases h.phase with
  | idle inbox => rw [hinbox] at inbox; cases inbox
  | led hled =>
    have hrest : Quiet rest := by
      have := hled.quiet
      rwa [hinbox, quiet_response] at this
    refine .led ⟨hled.answers, hrest, ?_⟩
    cases hled.lead with
    | @posted n₀ k₀ _ _ last pending inbox =>
      rw [hpending] at pending
      cases pending
      exact absurd hmem (h.posted.not_mem_of_initiate h.nodup
        (inbox ▸ List.mem_append_right _ List.mem_cons_self) k')
    | answered pending idle quiet session _ unique =>
      rw [hpending] at pending
      cases pending
      rw [← unique k' hmem] at session
      exact .settled rfl idle quiet rfl session
    | settled pending => rw [hpending] at pending; cases pending
  | follows hled =>
    cases hled.lead with
    | @posted n₀ k₀ l r last pending inbox quiet =>
      rw [hinbox] at inbox
      cases l with
      | nil => cases inbox
      | cons leg l =>
        obtain ⟨-, rfl⟩ := List.cons.inj inbox
        exact .follows ⟨hled.answers, hled.quiet, .posted last pending rfl quiet nofun⟩
    | answered _ idle | settled _ idle => rw [hpending] at idle; cases idle
  | crossed hown =>
    cases hown with
    | @waiting n₀ m k₀ k₁ l r answers last pending inbox _ early =>
      rw [hpending] at pending
      cases pending
      rw [hinbox] at inbox
      cases l with
      | nil => cases inbox
      | cons leg l =>
        obtain ⟨rfl, -⟩ := List.cons.inj inbox
        exact absurd List.mem_cons_self (early k')
    | answered _ _ pending => rw [hpending] at pending; cases pending

section Dropping
variable {rest : List (Leg κ)} (hinbox : own.inbox = .response n k' :: rest)
  (hpending : ∀ k, own.pending ≠ some (n, k))
include hinbox

theorem quiet_inbox_iff : Quiet own.inbox ↔ Quiet rest := by rw [hinbox, quiet_response]

theorem Crossed.drops_peer (h : Crossed peer own) : Crossed peer (own.dropping rest) := by
  cases h with
  | waiting answers last pending inbox quiet early answered =>
    exact .waiting answers last pending inbox quiet early fun hq =>
      answered ((quiet_inbox_iff hinbox).mpr hq)
  | answered answers last pending session => exact .answered answers last pending session

include hpending

/-- A response to what is under way is not the one that is dropped. -/
theorem mem_rest_of_pending {m : UInt32} {k₀ k₁ : κ} (hm : own.pending = some (m, k₀))
    (hmem : .response m k₁ ∈ own.inbox) : .response m k₁ ∈ rest := by
  rw [hinbox] at hmem
  rcases List.mem_cons.mp hmem with heq | hmem
  · cases heq
    exact absurd hm (hpending k₀)
  · exact hmem

theorem Lead.drops_peer (h : Lead peer own) : Lead peer (own.dropping rest) := by
  cases h with
  | @posted n₀ k₀ l r last pending inbox quiet answered =>
    rw [hinbox] at inbox
    cases l with
    | nil => cases inbox
    | cons leg l =>
      obtain ⟨rfl, rfl⟩ := List.cons.inj inbox
      refine .posted last pending rfl quiet fun q hq => ?_
      obtain ⟨k₁, hk₁⟩ := answered q hq
      rcases List.mem_cons.mp hk₁ with heq | hk₁
      · cases heq
        exact absurd hq (hpending q.2)
      · exact ⟨k₁, hk₁⟩
  | answered pending idle quiet session mem unique =>
    exact .answered pending idle ((quiet_inbox_iff hinbox).mp quiet) session mem unique
  | settled pending idle quiet session session' =>
    exact .settled pending idle ((quiet_inbox_iff hinbox).mp quiet) session session'

theorem Lead.drops (h : Lead own peer) : Lead (own.dropping rest) peer := by
  cases h with
  | posted last pending inbox quiet answered => exact .posted last pending inbox quiet answered
  | answered pending idle quiet session mem unique =>
    refine .answered pending idle quiet session (mem_rest_of_pending hinbox hpending pending mem)
      fun k₁ hk₁ => unique k₁ ?_
    rw [hinbox]
    exact List.mem_cons_of_mem _ hk₁
  | settled pending idle quiet session session' =>
    exact .settled pending idle quiet session session'

theorem Crossed.drops (h : Crossed own peer) : Crossed (own.dropping rest) peer := by
  cases h with
  | @waiting n₀ m k₀ k₁ l r answers last pending inbox quiet early answered =>
    have hanswered : Quiet peer.inbox → ∃ k, .response n₀ k ∈ rest := fun hq => by
      obtain ⟨k₂, hk₂⟩ := answered hq
      exact ⟨k₂, mem_rest_of_pending hinbox hpending pending hk₂⟩
    rw [hinbox] at inbox
    cases l with
    | nil => cases inbox
    | cons leg l =>
      obtain ⟨rfl, rfl⟩ := List.cons.inj inbox
      exact .waiting answers last pending rfl (quiet_response.mp quiet)
        (fun k hk => early k (List.mem_cons_of_mem _ hk)) hanswered
  | answered answers last pending session =>
    exact .answered answers last pending fun hq => session ((quiet_inbox_iff hinbox).mpr hq)

theorem Ordered.phase_drops (h : Ordered own peer) : Phase (own.dropping rest) peer := by
  cases h.phase with
  | idle inbox => rw [hinbox] at inbox; cases inbox
  | led h =>
    exact .led ⟨h.answers, (quiet_inbox_iff hinbox).mp h.quiet, h.lead.drops hinbox hpending⟩
  | follows h => exact .follows ⟨h.answers, h.quiet, h.lead.drops_peer hinbox hpending⟩
  | crossed h h' => exact .crossed (h.drops hinbox hpending) (h'.drops_peer hinbox)

end Dropping

/-- Every step keeps the two sides in order, if the number of an exchange that it opens is new. -/
theorem Ordered.step (h : Ordered own peer) (hstep : Step own peer own' peer')
    (hnodup : (own'.opened.map Prod.fst).Nodup) : Ordered own' peer' where
  nodup := hnodup
  nodup' := hstep.opened_peer ▸ h.nodup'
  posted := hstep.posted h.posted
  posted' := hstep.posted' h.posted'
  sourced := hstep.sourced h.sourced
  sourced' := hstep.sourced' h.sourced' h.sourced
  phase := by
    cases hstep with
    | @opens n k =>
      rw [Side.opening, List.map_append, List.nodup_append] at hnodup
      refine h.phase_opens fun hmem => ?_
      exact hnodup.2.2 n hmem n (List.mem_singleton.mpr rfl) rfl
    | answers inbox keys => exact h.phase_answers inbox keys
    | completes inbox pending => exact h.phase_completes inbox pending
    | drops inbox pending => exact h.phase_drops inbox pending

/-! ### What both sides come to -/

/-- A side that has done nothing. -/
def Side.start : Side κ := ⟨none, none, [], [], 0, []⟩

theorem ordered_start : Ordered (Side.start : Side κ) .start where
  nodup := .nil
  nodup' := .nil
  posted := ⟨[], rfl, Nat.le_refl 0, nofun⟩
  posted' := ⟨[], rfl, Nat.le_refl 0, nofun⟩
  sourced := ⟨nofun, nofun, nofun, nofun⟩
  sourced' := ⟨nofun, nofun, nofun, nofun⟩
  phase := .idle rfl rfl rfl rfl rfl rfl

/-- A side answers no more initiates than the other side opened exchanges. -/
theorem Ordered.answers_le (h : Ordered own peer) : own.answers ≤ peer.opened.length := by
  obtain ⟨taken, hopened, hanswers, -⟩ := h.posted'
  rw [hopened, List.length_append]
  omega

/-- Whether two sides that answered so many initiates since they last opened an exchange come to one
session: one of them answered none, or their last exchanges met each other only. -/
def Meets (a b : Nat) : Prop := a = 0 ∨ b = 0 ∨ a = 1 ∧ b = 1

instance (a b : Nat) : Decidable (Meets a b) := inferInstanceAs (Decidable (_ ∨ _ ∨ _ ∧ _))

/-- The sessions of both sides once nothing is on the way. Each is with keys that the other side
drew. Where the sides do not meet, one of them has moved on from the keys it sent to others. -/
theorem Ordered.sessions (h : Ordered own peer) (hown : own.inbox = []) (hpeer : peer.inbox = [])
    (hopened : own.opened ≠ [] ∨ peer.opened ≠ []) :
    ∃ k₁ k₁' k₂ k₂', own.session = some (k₁, k₂') ∧ peer.session = some (k₂, k₁') ∧
      (Meets own.answers peer.answers → k₁' = k₁ ∧ k₂' = k₂) ∧
      (¬Meets own.answers peer.answers →
        [k₁', k₁].Sublist own.keys ∨ [k₂', k₂].Sublist peer.keys) := by
  have hquiet : Quiet own.inbox := hown ▸ quiet_nil
  have hquiet' : Quiet peer.inbox := hpeer ▸ quiet_nil
  cases h.phase with
  | idle _ _ _ _ opened opened' => exact absurd hopened (by simp [opened, opened'])
  | led h =>
    cases h.lead with
    | posted _ _ inbox => simp [hpeer] at inbox
    | answered _ _ _ _ mem => simp [hown] at mem
    | @settled k k' _ _ _ session session' =>
      exact ⟨k, k, k', k', session, session', fun _ => ⟨rfl, rfl⟩,
        fun hn => absurd (.inl h.answers) hn⟩
  | follows h =>
    cases h.lead with
    | posted _ _ inbox => simp [hown] at inbox
    | answered _ _ _ _ mem => simp [hpeer] at mem
    | @settled k k' _ _ _ session session' =>
      exact ⟨k', k', k, k, session', session, fun _ => ⟨rfl, rfl⟩,
        fun hn => absurd (.inr (.inl h.answers)) hn⟩
  | crossed hc hc' =>
    cases hc with
    | waiting _ _ _ inbox => simp [hown] at inbox
    | @answered n B answers last _ session =>
      cases hc' with
      | waiting _ _ _ inbox => simp [hpeer] at inbox
      | @answered n' A answers' last' _ session' =>
        obtain ⟨k₁, q, hs, hq, hone, htwo⟩ := session hquiet
        obtain ⟨k₂, q', hs', hq', hone', htwo'⟩ := session' hquiet'
        rw [last'] at hq
        rw [last] at hq'
        cases hq
        cases hq'
        refine ⟨k₁, B, k₂, A, hs, hs', fun hm => ?_, fun hm => ?_⟩
        · rcases hm with hm | hm | ⟨hm, hm'⟩
          · exact absurd hm answers
          · exact absurd hm answers'
          · exact ⟨(hone hm).symm, (hone' hm').symm⟩
        · by_cases hown : own.answers = 1
          · have : peer.answers ≠ 1 := fun hpeer => hm (.inr (.inr ⟨hown, hpeer⟩))
            exact .inr (htwo' (by omega))
          · exact .inl (htwo (by omega))

end SecureSession.Crossing
