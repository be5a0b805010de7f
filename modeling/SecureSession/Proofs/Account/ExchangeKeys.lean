import Mathlib.Data.List.Induction
import Mathlib.Data.List.Nodup
import Mathlib.Data.List.Pairwise
import SecureSession.Proofs.Account.Failure
import SecureSession.Proofs.Account.Yields

/-! # Keys of exchanges

Where no key pair is drawn twice, the keys drawn for an exchange make one session at most, over any
run of an account. An exchange under way is the one drawn last at its address, whose keys no other
address has and no session was made with (`SingleUse`); a leg that completes it, as the answer to an
initiate or as the response to ours, ends it in the commit that makes the session. What fails, and
what is stale, leaves it under way. -/

namespace SecureSession

/-! ### What a turn draws and completes -/

/-- The leg of an exchange that a request is to take in, with its sender. -/
def Request.legAt? : Request → Option (Address × KeyExchangeMessage)
  | receive a _ m => m.leg?.map (a, ·)
  | _ => none

/-- How a step of a handshake ended, if the result is that of one. -/
def Reply.status? : Except SessionError Reply → Option HandshakeStatus
  | .ok (outcome o) => some o.status
  | _ => none

namespace Account

variable (suite : Suite) (A : Account)

/-- The exchange that a request completes, by its result. -/
def completing (q : Request) (result : Except SessionError Reply) : Option PendingExchange :=
  if Reply.status? result = some .established then
    q.legAt?.bind fun e => A.party.completing? suite (A.contents.record e.1) e.2
  else none

/-- The exchange with new keys that a request opens or answers, by its result. Keys drawn for a
request that then fails are left out. -/
def drawing (q : Request) (result : Except SessionError Reply) : Option PendingExchange :=
  match Reply.status? result with
  | some .initiated => some (A.party.opening suite)
  | some .established => q.legAt?.bind fun e =>
    if e.2.isInitiate && (A.contents.record e.1).pending.isNone then
      some (A.party.answering suite e.2.sequence)
    else none
  | _ => none

/-- The exchange that a turn completes. -/
def completedAt (t : Turn) : Option PendingExchange :=
  (A.facing t).completing suite t.request (A.take suite t).1

/-- The exchange with new keys that a turn opens or answers. -/
def drawnAt (t : Turn) : Option PendingExchange :=
  (A.facing t).drawing suite t.request (A.take suite t).1

/-- The session that a turn makes by a leg of an exchange. -/
def sessionAt (t : Turn) : Option SessionState :=
  if Reply.status? (A.take suite t).1 = some .established then
    t.request.legAt?.bind fun e => ((A.take suite t).2.contents.record e.1).current
  else none

/-- What the turns of a run come to, each by the account it finds. -/
def gather {β : Type} (f : Account → Turn → Option β) : Account → List Turn → List β
  | _, [] => []
  | A, t :: l => (f A t).toList ++ gather f (A.take suite t).2 l

variable {suite : Suite} {A : Account}

theorem gather_append {β : Type} (f : Account → Turn → Option β) :
    ∀ (l l' : List Turn) (A : Account),
    gather suite f A (l ++ l') = gather suite f A l ++ gather suite f (A.after suite l) l'
  | [], _, _ => rfl
  | t :: l, l', A => by
    rw [List.cons_append, gather, gather, gather_append f l l', List.append_assoc, after_cons]

theorem gather_snoc {β : Type} (f : Account → Turn → Option β) (l : List Turn) (t : Turn)
    (A : Account) :
    gather suite f A (l ++ [t]) = gather suite f A l ++ (f (A.after suite l) t).toList := by
  rw [gather_append, gather, gather, List.append_nil]

end Account

/-! ### Turns -/

namespace Contents

/-- What a turn does to the exchanges under way, with the exchange it draws
and the one it completes. -/
inductive Uses (c c' : Contents) : Option PendingExchange → Option PendingExchange → Prop
  | kept (h : c.OpensNone c') : Uses c c' none none
  | opened {a : Address} {q : PendingExchange} (h : c' = c.put a ((c.record a).setPending q)) :
    Uses c c' (some q) none
  /-- An initiate is answered with new keys. -/
  | answered {a : Address} {q : PendingExchange} (hnone : (c.record a).pending = none)
    (h : c.OpensNone c') (hended : (c'.record a).pending = none) : Uses c c' (some q) (some q)
  /-- The exchange under way is completed, perhaps under the number of the other side. -/
  | completed {a : Address} {p q : PendingExchange} (hp : (c.record a).pending = some p)
    (hkeys : q.publicKeys = p.publicKeys) (h : c.OpensNone c')
    (hended : (c'.record a).pending = none) :
    Uses c c' none (some q)

variable {c c' : Contents}

theorem opensNone_of_pending (h : ∀ a, (c'.record a).pending = (c.record a).pending) :
    c.OpensNone c' :=
  fun a _ hq => (h a).symm.trans hq

theorem opensNone_archiveAt (c : Contents) (l : List Address) : c.OpensNone (c.archiveAt l) := by
  refine opensNone_of_pending fun a => ?_
  simp only [archiveAt]
  split
  · exact SessionRecord.pending_archive _
  · rfl

theorem opensNone_complete (c : Contents) (now : UInt64) (a : Address) (q : PendingExchange)
    (m : KeyExchangeMessage) (ratchet : RatchetState) :
    c.OpensNone (c.complete now a q m ratchet) :=
  opensNone_install (fun _ h => by cases h) now _

theorem pending_complete_self (c : Contents) (now : UInt64) (a : Address) (q : PendingExchange)
    (m : KeyExchangeMessage) (ratchet : RatchetState) :
    ((c.complete now a q m ratchet).record a).pending = none := pending_install_self ..

end Contents

namespace Account

variable {suite : Suite} {A : Account} {q : Request} {result : Except SessionError Reply}

/-- Unless an exchange is opened or a leg makes a session, nothing is drawn or completed. -/
theorem uses_of_quiet {c : Contents} (hopens : A.contents.OpensNone c)
    (hinitiated : Reply.status? result ≠ some .initiated)
    (hestablished : Reply.status? result = some .established → q.legAt? = none) :
    A.contents.Uses c (A.drawing suite q result) (A.completing suite q result) := by
  have hdrawing : A.drawing suite q result = none := by
    unfold drawing
    split
    · exact absurd ‹_› hinitiated
    · rw [hestablished ‹_›]
      rfl
    · rfl
  have hcompleting : A.completing suite q result = none := by
    unfold completing
    split
    · rw [hestablished ‹_›]
      rfl
    · rfl
  rw [hdrawing, hcompleting]
  exact .kept hopens

theorem status?_eq_none {reply : Reply} (h : ∀ o, reply ≠ .outcome o) :
    Reply.status? (.ok reply) = none := by
  cases reply with
  | outcome o => exact absurd rfl (h o)
  | _ => rfl

/-- A leg that completes an exchange answers an initiate with new keys, or completes
the exchange under way. -/
theorem uses_complete {a : Address} {thread : UInt64} {m : HandshakeMessage}
    {leg : KeyExchangeMessage} {q : PendingExchange} (hleg : m.leg? = some leg)
    (hq : A.party.completing? suite (A.contents.record a) leg = some q)
    (actions : List SessionAction) (ratchet : RatchetState) (now : UInt64) :
    A.contents.Uses (A.contents.complete now a q leg ratchet)
      (A.drawing suite (.receive a thread m) (.ok (.outcome ⟨.established, actions⟩)))
      (A.completing suite (.receive a thread m) (.ok (.outcome ⟨.established, actions⟩))) := by
  have hopens := A.contents.opensNone_complete now a q leg ratchet
  have hended := A.contents.pending_complete_self now a q leg ratchet
  have hcompleting : A.completing suite (.receive a thread m)
      (.ok (.outcome ⟨.established, actions⟩)) = some q := by
    simp [completing, Request.legAt?, hleg, Reply.status?, hq]
  have hdrawing : A.drawing suite (.receive a thread m) (.ok (.outcome ⟨.established, actions⟩)) =
      if leg.isInitiate && (A.contents.record a).pending.isNone then
        some (A.party.answering suite leg.sequence) else none := by
    simp [drawing, Request.legAt?, hleg, Reply.status?]
  rw [hcompleting, hdrawing]
  unfold Party.completing? at hq
  cases hpending : (A.contents.record a).pending with
  | none =>
    split at hq
    · rename_i hinitiate
      rw [hpending] at hq
      cases hq
      rw [hinitiate]
      exact .answered hpending hopens hended
    · rw [Party.answered?, hpending] at hq
      cases hq
  | some p =>
    rw [Option.isNone_some, Bool.and_false, if_neg (by simp)]
    refine .completed hpending ?_ hopens hended
    split at hq
    · rw [hpending] at hq
      cases hq
      rfl
    · rw [Party.answered?, hpending] at hq
      rw [Option.some.inj (Option.filter_eq_some_iff.mp hq).1]

theorem Yields.uses {c : Contents} (h : A.Yields suite q result c) (hstore : q.isStore = false) :
    A.contents.Uses c (A.drawing suite q result) (A.completing suite q result) := by
  have hsame : A.contents.OpensNone A.contents := fun _ _ h => h
  cases h with
  | failed e => exact uses_of_quiet hsame nofun nofun
  | @dropped a thread m status hdropped =>
    refine uses_of_quiet hsame (fun h => ?_) fun h => ?_ <;> cases h <;> cases hdropped
  | opened => exact .opened rfl
  | completed hleg hq hratchet => exact uses_complete hleg hq _ _ _
  | built hleg hnew =>
    refine uses_of_quiet (Contents.opensNone_install (fun _ h => h) _ _) nofun fun _ => ?_
    simp [Request.legAt?, hleg]
  | used hnew =>
    exact uses_of_quiet (Contents.opensNone_install (fun _ h => h) _ _) nofun fun _ => rfl
  | saved =>
    exact uses_of_quiet (Contents.opensNone_of_pending fun _ => Contents.pending_save ..)
      nofun nofun
  | confirmed => exact uses_of_quiet hsame nofun nofun
  | kept hreply =>
    refine uses_of_quiet hsame ?_ ?_ <;> rw [status?_eq_none hreply] <;> exact nofun
  | stored => cases hstore
  | deleted l hreply =>
    refine uses_of_quiet (fun a q h => ?_) ?_ ?_
    · dsimp only at h
      split at h
      · cases h
      · exact h
    all_goals rw [status?_eq_none hreply]; exact nofun
  | archived l hreply =>
    refine uses_of_quiet (A.contents.opensNone_archiveAt l) ?_
      ?_ <;> rw [status?_eq_none hreply] <;>
      exact nofun

theorem uses_take (suite : Suite) (A : Account) {t : Turn} (ht : t.request.isStore = false) :
    A.contents.Uses (A.take suite t).2.contents (A.drawnAt suite t) (A.completedAt suite t) :=
  (yields_take suite A t).uses ht

end Account

/-! ### Keys in use -/

/-- The exchanges under way, those drawn so far and those completed so far: keys under
way were drawn, are under way at one address only, and made no session; keys that made
a session made no other. -/
structure Contents.SingleUse (c : Contents) (drawn used : List PendingExchange) : Prop where
  underway : ∀ a q, (c.record a).pending = some q → ∃ d ∈ drawn, d.publicKeys = q.publicKeys
  apart : ∀ a b q q', (c.record a).pending = some q → (c.record b).pending = some q' →
    q.publicKeys = q'.publicKeys → a = b
  source : ∀ u ∈ used, ∃ d ∈ drawn, d.publicKeys = u.publicKeys
  unused : ∀ a q, (c.record a).pending = some q → ∀ u ∈ used, u.publicKeys ≠ q.publicKeys
  once : (used.map PendingExchange.publicKeys).Nodup

namespace Contents.SingleUse

variable {c c' : Contents} {drawn used : List PendingExchange} {a : Address} {q : PendingExchange}

theorem mono (h : c.SingleUse drawn used) (hopens : c.OpensNone c') : c'.SingleUse drawn used where
  underway a q hq := h.underway a q (hopens a q hq)
  apart a b q q' hq hq' := h.apart a b q q' (hopens a q hq) (hopens b q' hq')
  source := h.source
  unused a q hq := h.unused a q (hopens a q hq)
  once := h.once

/-- An exchange with keys never drawn before is put under way. -/
theorem opened (h : c.SingleUse drawn used) (hnew : ∀ d ∈ drawn, d.publicKeys ≠ q.publicKeys) :
    (c.put a ((c.record a).setPending q)).SingleUse (drawn ++ [q]) used := by
  have hcases (b : Address) (q' : PendingExchange)
      (hq' : ((c.put a ((c.record a).setPending q)).record b).pending = some q') :
      b = a ∧ q' = q ∨ b ≠ a ∧ (c.record b).pending = some q' := by
    by_cases hb : b = a
    · subst hb
      rw [record_put_self] at hq'
      exact .inl ⟨rfl, (Option.some.inj hq').symm⟩
    · rw [record_put_of_ne _ hb] at hq'
      exact .inr ⟨hb, hq'⟩
  -- keys under way before were drawn before
  have hfresh (b : Address) (q' : PendingExchange) (hq' : (c.record b).pending = some q') :
      q'.publicKeys ≠ q.publicKeys := by
    obtain ⟨d, hd, hkeys⟩ := h.underway b q' hq'
    rw [← hkeys]
    exact hnew d hd
  refine ⟨fun b q' hq' => ?_, fun b b' q₁ q₂ hq₁ hq₂ hsame => ?_, fun u hu => ?_,
    fun b q' hq' u hu => ?_, h.once⟩
  · rcases hcases b q' hq' with ⟨-, rfl⟩ | ⟨-, hq'⟩
    · exact ⟨q', by simp, rfl⟩
    · obtain ⟨d, hd, hkeys⟩ := h.underway b q' hq'
      exact ⟨d, List.mem_append_left _ hd, hkeys⟩
  · rcases hcases b q₁ hq₁ with ⟨rfl, rfl⟩ | ⟨-, hold₁⟩ <;>
      rcases hcases b' q₂ hq₂ with ⟨rfl, rfl⟩ | ⟨-, hold₂⟩
    · rfl
    · exact absurd hsame.symm (hfresh b' q₂ hold₂)
    · exact absurd hsame (hfresh b q₁ hold₁)
    · exact h.apart b b' q₁ q₂ hold₁ hold₂ hsame
  · obtain ⟨d, hd, hkeys⟩ := h.source u hu
    exact ⟨d, List.mem_append_left _ hd, hkeys⟩
  · rcases hcases b q' hq' with ⟨-, rfl⟩ | ⟨-, hq'⟩
    · obtain ⟨d, hd, hkeys⟩ := h.source u hu
      rw [← hkeys]
      exact hnew d hd
    · exact h.unused b q' hq' u hu

/-- The exchange under way at an address makes a session and ends. -/
theorem completed {p : PendingExchange} (h : c.SingleUse drawn used)
    (hp : (c.record a).pending = some p) (hkeys : q.publicKeys = p.publicKeys)
    (hopens : c.OpensNone c') (hended : (c'.record a).pending = none) :
    c'.SingleUse drawn (used ++ [q]) := by
  refine ⟨(h.mono hopens).underway, (h.mono hopens).apart, fun u hu => ?_,
    fun b q' hq' u hu => ?_, ?_⟩
  · rcases List.mem_append.mp hu with hu | hu
    · exact h.source u hu
    · obtain rfl := List.mem_singleton.mp hu
      rw [hkeys]
      exact h.underway a p hp
  · rcases List.mem_append.mp hu with hu | hu
    · exact (h.mono hopens).unused b q' hq' u hu
    · obtain rfl := List.mem_singleton.mp hu
      rw [hkeys]
      intro hsame
      -- no other address had these keys under way
      obtain rfl := h.apart a b p q' hp (hopens b q' hq') hsame
      rw [hended] at hq'
      cases hq'
  · rw [List.map_append, List.nodup_append]
    refine ⟨h.once, by simp, fun keys hkeys' keys' hmem => ?_⟩
    obtain ⟨u, hu, rfl⟩ := List.mem_map.mp hkeys'
    rw [List.map_singleton, List.mem_singleton] at hmem
    rw [hmem, hkeys]
    exact h.unused a p hp u hu

/-- An exchange with keys never drawn before makes a session without being under way. -/
theorem answered (h : c.SingleUse drawn used) (hnew : ∀ d ∈ drawn, d.publicKeys ≠ q.publicKeys)
    (hopens : c.OpensNone c') (hended : (c'.record a).pending = none) :
    c'.SingleUse (drawn ++ [q]) (used ++ [q]) := by
  refine (h.opened (a := a) hnew).completed (by rw [record_put_self]; rfl) rfl
    (fun b q' hq' => ?_) hended
  have hne : b ≠ a := fun hb => by rw [hb, hended] at hq'; cases hq'
  rw [record_put_of_ne _ hne]
  exact hopens b q' hq'

/-- What a turn does keeps this, where the keys it draws were not drawn before. -/
theorem step {drawn' used' : Option PendingExchange} (h : c.SingleUse drawn used)
    (huses : c.Uses c' drawn' used')
    (hnew : ∀ q ∈ drawn', ∀ d ∈ drawn, d.publicKeys ≠ q.publicKeys) :
    c'.SingleUse (drawn ++ drawn'.toList) (used ++ used'.toList) := by
  cases huses with
  | kept hopens => simpa using h.mono hopens
  | opened hput =>
    rw [hput]
    simpa using h.opened (hnew _ rfl)
  | answered hnone hopens hended => exact h.answered (hnew _ rfl) hopens hended
  | completed hp hkeys hopens hended => simpa using h.completed hp hkeys hopens hended

end Contents.SingleUse

/-! ### Keys drawn once -/

section Drawn
variable {c : Contents} {drawn used : List PendingExchange}
  (hkeys : (drawn.flatMap PendingExchange.publicKeys).Nodup)
include hkeys

/-- Exchanges drawn without a repeated key have the same keys or none in common. -/
theorem publicKeys_disjoint {d d' : PendingExchange} (hd : d ∈ drawn) (hd' : d' ∈ drawn)
    (hne : d.publicKeys ≠ d'.publicKeys) : d.publicKeys.Disjoint d'.publicKeys := by
  have : Std.Symm (Function.onFun List.Disjoint PendingExchange.publicKeys) :=
    ⟨fun _ _ h _ hq hp => h hp hq⟩
  exact (List.nodup_flatMap.mp hkeys).2.forall hd hd' fun h => hne (congrArg _ h)

theorem Contents.SingleUse.disjoint (h : c.SingleUse drawn used) {a : Address}
    {q u : PendingExchange} (hq : (c.record a).pending = some q) (hu : u ∈ used) :
    q.publicKeys.Disjoint u.publicKeys := by
  obtain ⟨d, hd, hsame⟩ := h.underway a q hq
  obtain ⟨d', hd', hsame'⟩ := h.source u hu
  have hne : u.publicKeys ≠ q.publicKeys := h.unused a q hq u hu
  rw [← hsame, ← hsame'] at hne
  rw [← hsame, ← hsame']
  exact publicKeys_disjoint hkeys hd hd' hne.symm

theorem Contents.SingleUse.nodup_ephemeral (h : c.SingleUse drawn used) :
    (used.map (·.ephemeral.publicKey)).Nodup := by
  refine List.Nodup.map_on (fun u hu u' hu' heq => ?_) (List.Nodup.of_map _ h.once)
  refine List.inj_on_of_nodup_map h.once hu hu' ?_
  obtain ⟨d, hd, hsame⟩ := h.source u hu
  obtain ⟨d', hd', hsame'⟩ := h.source u' hu'
  rw [← hsame, ← hsame']
  by_contra hne
  have hdisjoint := publicKeys_disjoint hkeys hd hd' hne
  rw [hsame, hsame'] at hdisjoint
  refine hdisjoint (a := u.ephemeral.publicKey) ?_ ?_
  · simp [PendingExchange.publicKeys]
  · simp [PendingExchange.publicKeys, heq]

end Drawn

namespace Account

variable {suite : Suite} {A : Account}

/-! ### Runs -/

theorem singleUse_after (suite : Suite) {A : Account}
    (hstart : ∀ a, (A.contents.record a).pending = none) (l : List Turn)
    (hstore : ∀ t ∈ l, t.request.isStore = false)
    (hkeys : ((gather suite (drawnAt suite) A l).flatMap PendingExchange.publicKeys).Nodup) :
    (A.after suite l).contents.SingleUse (gather suite (drawnAt suite) A l)
      (gather suite (completedAt suite) A l) := by
  induction l using List.reverseRecOn with
  | nil =>
    refine ⟨fun a q hq => ?_, fun a b q q' hq => ?_, nofun, fun a q hq => ?_, List.nodup_nil⟩ <;>
      exact absurd (hq.symm.trans (hstart a)) (by simp)
  | append_singleton l t ih =>
    rw [gather_snoc, List.flatMap_append, List.nodup_append] at hkeys
    obtain ⟨hbefore, -, happart⟩ := hkeys
    have h := ih (fun t ht => hstore t (List.mem_append_left _ ht)) hbefore
    have huses := uses_take suite (A.after suite l) (hstore t (by simp))
    rw [gather_snoc, gather_snoc, after_append]
    refine h.step huses fun q hq d hd hsame => ?_
    have hmem : q.base.publicKey ∈ ((A.after suite l).drawnAt suite t).toList.flatMap
        PendingExchange.publicKeys :=
      List.mem_flatMap.mpr ⟨q, Option.mem_toList.mpr hq, by simp [PendingExchange.publicKeys]⟩
    have hmem' : q.base.publicKey ∈ (gather suite (drawnAt suite) A l).flatMap
        PendingExchange.publicKeys :=
      List.mem_flatMap.mpr ⟨d, hd, by rw [hsame]; simp [PendingExchange.publicKeys]⟩
    exact happart _ hmem' _ hmem rfl

/-- A leg that makes a session completes an exchange, and the session is made of it. -/
theorem completes_of_established {t : Turn} {a : Address} {leg : KeyExchangeMessage}
    (hleg : t.request.legAt? = some (a, leg))
    (hdone : Reply.status? (A.take suite t).1 = some .established) :
    ((A.take suite t).2.contents.record a).pending = none ∧ ∃ q ratchet,
      A.completedAt suite t = some q ∧
      suite.initialState (Party.exchangeParameters q leg) = .ok ratchet ∧
      A.sessionAt suite t = some (.fresh q.identity.publicKey leg.identityKey ratchet) := by
  have hyields := yields_take suite A t
  unfold completedAt completing sessionAt
  rw [if_pos hdone, if_pos hdone, hleg]
  generalize (A.take suite t).1 = result at hyields hdone
  generalize (A.take suite t).2.contents = c at hyields ⊢
  generalize t.request = q at hyields hleg
  cases hyields with
  | failed | saved | confirmed | stored => cases hdone
  | @dropped a' thread m status hdropped =>
    cases hdone
    cases hdropped
  | opened => cases hdone
  | @completed a' thread m leg' q ratchet actions hleg' hq hratchet =>
    obtain ⟨rfl, rfl⟩ : a' = a ∧ leg' = leg := by simpa [Request.legAt?, hleg'] using hleg
    refine ⟨Contents.pending_complete_self .., q, ratchet, hq, hratchet, ?_⟩
    exact Contents.current_install_self ..
  | built hnone => simp [Request.legAt?, hnone] at hleg
  | used => cases hleg
  | kept hreply | deleted l hreply | archived l hreply =>
    rw [status?_eq_none hreply] at hdone
    cases hdone

/-- The ratchet key of a session is that of the exchange it is made of. -/
theorem localKey_sessionAt (hsuite : suite.KeepsKeys) (A : Account) (t : Turn) :
    (A.sessionAt suite t).map (·.ratchet.localKey) =
      (A.completedAt suite t).map (·.ephemeral.publicKey) := by
  by_cases hdone : Reply.status? (A.take suite t).1 = some .established
  · cases hleg : t.request.legAt? with
    | none => simp [sessionAt, completedAt, completing, hleg]
    | some e =>
      obtain ⟨-, q, ratchet, hq, hratchet, hs⟩ := completes_of_established (a := e.1) hleg hdone
      rw [hq, hs]
      exact congrArg some (hsuite _ _ hratchet).1
  · simp [sessionAt, completedAt, completing, hdone]

theorem map_gather {β γ δ : Type} {f : Account → Turn → Option β} {g : Account → Turn → Option γ}
    {p : β → δ} {q : γ → δ} (h : ∀ A t, (f A t).map p = (g A t).map q) :
    ∀ (l : List Turn) (A : Account),
      (gather suite f A l).map p = (gather suite g A l).map q
  | [], _ => rfl
  | t :: l, A => by
    simp only [gather, List.map_append, map_gather h l, ← Option.toList_map, h A t]

/-- A turn that fails, or drops a message, changes nothing stored. -/
theorem contents_eq_of_refused {t : Turn} (h : (∃ e, (A.take suite t).1 = .error e) ∨
      ∃ o, (A.take suite t).1 = .ok (.outcome o) ∧ o.status.isDropped = true) :
    (A.take suite t).2.contents = A.contents := by
  have hcomes := comes_take suite A t
  have hunchanged : (A.facing t).Unchanged (A.take suite t).2 := by
    rcases h with ⟨e, he⟩ | ⟨o, ho, hdropped⟩
    · rw [he] at hcomes
      exact hcomes.unchanged_of_error
    · rw [ho] at hcomes
      exact (hcomes.unchanged_of_dropped hdropped).1
  have hvault : (A.take suite t).2.vault = A.vault :=
    hunchanged.vault_eq (keeps_take suite A t).account
  rw [contents, contents, hvault]

/-- Over any run of an account that starts with no exchange under way and stores no records as they
are given, if no public key is drawn twice for its exchanges: no two of the sessions made by legs of
exchanges share a ratchet key; a leg that makes a session makes it of an exchange that is no longer
under way, and none of that exchange's keys is ever under way again, at any address; and a turn that
fails or drops a message leaves every exchange under way. -/
theorem exchange_keys_used_once (suite : Suite) (hsuite : suite.KeepsKeys) {A : Account}
    (hstart : ∀ a, (A.contents.record a).pending = none) (l : List Turn)
    (hstore : ∀ t ∈ l, t.request.isStore = false)
    (hkeys : ((gather suite (drawnAt suite) A l).flatMap PendingExchange.publicKeys).Nodup) :
    ((gather suite (sessionAt suite) A l).map (·.ratchet.localKey)).Nodup ∧
    (∀ l₁ t l₂ a leg, l = l₁ ++ t :: l₂ → t.request.legAt? = some (a, leg) →
      Reply.status? ((A.after suite l₁).take suite t).1 = some .established →
      ((A.after suite (l₁ ++ [t])).contents.record a).pending = none ∧ ∃ q ratchet,
        (A.after suite l₁).completedAt suite t = some q ∧
        suite.initialState (Party.exchangeParameters q leg) = .ok ratchet ∧
        (A.after suite l₁).sessionAt suite t =
          some (.fresh q.identity.publicKey leg.identityKey ratchet) ∧
        ∀ l₃ b q', l₃ <+: l₂ →
          ((A.after suite (l₁ ++ t :: l₃)).contents.record b).pending = some q' →
          q'.publicKeys.Disjoint q.publicKeys) ∧
    ∀ l₁ t, ((∃ e, ((A.after suite l₁).take suite t).1 = .error e) ∨
        ∃ o, ((A.after suite l₁).take suite t).1 = .ok (.outcome o) ∧ o.status.isDropped = true) →
      (A.after suite (l₁ ++ [t])).contents = (A.after suite l₁).contents := by
  refine ⟨?_, fun l₁ t l₂ a leg hl hleg hdone => ?_, fun l₁ t h => ?_⟩
  · rw [map_gather (localKey_sessionAt hsuite)]
    exact (singleUse_after suite hstart l hstore hkeys).nodup_ephemeral hkeys
  · obtain ⟨hended, q, ratchet, hq, hratchet, hs⟩ := completes_of_established hleg hdone
    rw [after_append]
    refine ⟨hended, q, ratchet, hq, hratchet, hs, fun l₃ b q' hl₃ hq' => ?_⟩
    obtain ⟨l₄, rfl⟩ := hl₃
    subst hl
    have hsplit : l₁ ++ t :: (l₃ ++ l₄) = (l₁ ++ t :: l₃) ++ l₄ := by simp
    have hkeys' : ((gather suite (drawnAt suite) A (l₁ ++ t :: l₃)).flatMap
        PendingExchange.publicKeys).Nodup := by
      rw [hsplit, gather_append, List.flatMap_append] at hkeys
      exact hkeys.of_append_left
    have h := singleUse_after suite hstart (l₁ ++ t :: l₃)
      (fun t' ht' => hstore t' (hsplit ▸ List.mem_append_left _ ht')) hkeys'
    refine h.disjoint hkeys' hq' ?_
    rw [gather_append, gather, hq]
    simp
  · rw [after_append]
    exact contents_eq_of_refused h

/-- An exchange is opened with Bob, and another one in its place fails to be committed; a response
to that is stale, and one to the first completes it. An initiate of Carol's is answered, and one of
hers that crosses ours is answered with our keys. -/
def exchangesWithBobAndCarol : List Turn :=
  [⟨.initiate ⟨"bob", 1⟩ 7, ⟨.counter 40, 5⟩, .never⟩,
    ⟨.initiate ⟨"bob", 1⟩ 7, ⟨.counter 43, 6⟩, Faults.never.arm⟩,
    ⟨.receive ⟨"bob", 1⟩ 7 (.response (sampleLeg 0x2b2b2b2b 20 21 2 .response)),
      ⟨.counter 46, 7⟩, .never⟩,
    ⟨.receive ⟨"bob", 1⟩ 7 (.response (sampleLeg 0x28282828 20 21 2 .response)),
      ⟨.counter 46, 8⟩, .never⟩,
    ⟨.receive ⟨"carol", 1⟩ 7 (.initiate (sampleLeg 9 30 31 3 .initiate)), ⟨.counter 46, 9⟩, .never⟩,
    ⟨.initiate ⟨"carol", 1⟩ 7, ⟨.counter 48, 10⟩, .never⟩,
    ⟨.receive ⟨"carol", 1⟩ 7 (.initiate (sampleLeg 10 32 33 3 .initiate)),
      ⟨.counter 51, 11⟩, .never⟩]

/-- Three sessions are made, under three ratchet keys. -/
theorem exchange_keys_used_once_bob_carol :
    let A := sample .rejectChanged .empty
    (∀ a, (A.contents.record a).pending = none) ∧
    (∀ t ∈ exchangesWithBobAndCarol, t.request.isStore = false) ∧
    ((gather .plain (drawnAt .plain) A exchangesWithBobAndCarol).flatMap
      PendingExchange.publicKeys).Nodup ∧
    (gather .plain (sessionAt .plain) A exchangesWithBobAndCarol).length = 3 ∧
    ((gather .plain (sessionAt .plain) A exchangesWithBobAndCarol).map
      (·.ratchet.localKey)).Nodup := by
  intro A
  have hstart : ∀ a, (A.contents.record a).pending = none := fun a => by
    rw [contents, vault_sample, Vault.record_eq_empty rfl]
    rfl
  have hstore : ∀ t ∈ exchangesWithBobAndCarol, t.request.isStore = false := by decide
  have hkeys : ((gather .plain (drawnAt .plain) A exchangesWithBobAndCarol).flatMap
      PendingExchange.publicKeys).Nodup := by decide +kernel
  exact ⟨hstart, hstore, hkeys, by decide +kernel,
    (exchange_keys_used_once .plain Suite.keepsKeys_plain hstart _ hstore hkeys).1⟩

end Account

end SecureSession
