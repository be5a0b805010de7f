import Mathlib.Data.List.Forall2
import SecureSession.Proofs.Simulation.Players
import SecureSession.Proofs.Simulation.Exchanges

/-! # Pairs of devices as two sides

Two devices of a world that open exchanges with each other do what two players do (`World.Pair`):
their records, and the messages between them, are as the sides tell. Every call on the pair
succeeds, and plays the players (`World.Pair.plays`). -/

namespace SecureSession

open Crossing

/-! ### Devices -/

/-- Whether a message carries a leg, with exchanges as keys. -/
inductive Carries : Leg PendingExchange → HandshakeMessage → Prop
  | initiate {q : PendingExchange} : Carries (.initiate q.sequence q) (.initiate (q.leg .initiate))
  | response {n : UInt32} {q : PendingExchange} {flags : ExchangeFlags} :
    Carries (.response n q) (.response (({ q with sequence := n } : PendingExchange).leg flags))

namespace Device

/-- Whether a device is as a player, with a peer whose identity it trusts. -/
structure Shows (suite : Suite) (d : Device) (peer : Address) (their : PublicKey) (a : Player) :
    Prop where
  unarmed : d.isArmed = false
  identity : d.party.identity = a.identity
  environment : d.party.environment = a.environment
  trusts : d.trusts peer their = true
  pending : (d.contents.record peer).pending = a.side.pending.map Prod.snd
  number : ∀ n k, a.side.pending = some (n, k) → k.sequence = n
  session : ∀ k k', a.side.session = some (k, k') → ∃ ratchet,
    suite.initialState (Party.exchangeParameters k (k'.leg .initiate)) = .ok ratchet ∧
      (d.contents.record peer).current =
      some (.fresh k.identity.publicKey k'.identity.publicKey ratchet)
  keys : ∀ k ∈ a.side.keys, k.IsSound suite ∧ k.identity = a.identity

section Shows
variable {suite : Suite} {d d' : Device} {peer : Address} {their : PublicKey} {a b : Player}

theorem Shows.opening_eq (h : d.Shows suite peer their a) :
    d.party.opening suite = a.opening suite := by
  rw [Party.opening, Player.opening, h.identity, h.environment]

/-- An exchange is opened with the peer. -/
theorem Shows.opens (h : d.Shows suite peer their a) (hd : d.IsSound suite) (thread : UInt64)
    (b : Player) :
    ∃ o, (d.initiate suite peer thread).1 = .ok o ∧
      SessionAction.sent o.actions = [(peer, .initiate ((a.opening suite).leg .initiate))] ∧
      (d.initiate suite peer thread).2.Shows suite peer their (a.opens suite b).1 := by
  obtain ⟨o, ho, hkeeps, hcontents, -, hsent⟩ :=
    (comes_initiate hd peer thread).of_unarmed h.unarmed
  have henvironment := environment_initiate hd peer thread
  rw [h.environment] at henvironment
  rw [Party.opened, h.opening_eq] at hcontents hsent
  refine ⟨o, ho, hsent,
    ⟨hkeeps.unarmed h.unarmed, hkeeps.identity.trans h.identity, henvironment, ?_, ?_, ?_, ?_, ?_⟩⟩
  · rw [Device.trusts, hcontents, hkeeps.trust]
    exact h.trusts
  · rw [hcontents, Contents.record_put_self]
    rfl
  · intro n k hk
    cases hk
    rfl
  · intro k k' hk
    obtain ⟨ratchet, hratchet, hcurrent⟩ := h.session k k' hk
    refine ⟨ratchet, hratchet, ?_⟩
    rw [hcontents, Contents.record_put_self]
    exact hcurrent
  · intro k hk
    rcases List.mem_append.mp hk with hk | hk
    · exact h.keys k hk
    · rw [List.mem_singleton.mp hk, ← h.opening_eq]
      exact ⟨Party.isSound_opening hd.identity, h.identity⟩

/-- What completing an exchange leaves. -/
theorem shows_complete {a' : Player} (h : d.Shows suite peer their a) (hkeeps : d.Keeps d')
    (k k' : PendingExchange) {now : UInt64} {q : PendingExchange} {m : KeyExchangeMessage}
    {ratchet : RatchetState} (hcontents : d'.contents = d.contents.complete now peer q m ratchet)
    (hratchet : suite.initialState (Party.exchangeParameters k (k'.leg .initiate)) = .ok ratchet)
    (hq : q.identity = k.identity) (hm : m.identityKey = k'.identity.publicKey)
    (htheir : m.identityKey = their) (hidentity : a'.identity = a.identity)
    (henvironment : d'.party.environment = a'.environment) (hpending : a'.side.pending = none)
    (hsession : a'.side.session = some (k, k'))
    (hkeys : ∀ k ∈ a'.side.keys, k.IsSound suite ∧ k.identity = a.identity) :
    d'.Shows suite peer their a' := by
  refine ⟨hkeeps.unarmed h.unarmed, (hkeeps.identity.trans h.identity).trans hidentity.symm,
    henvironment, ?_, ?_, ?_, ?_, hidentity ▸ hkeys⟩
  · rw [Device.trusts, hcontents, ← htheir]
    exact Contents.trusts_install_self _ now peer _
      (.fresh q.identity.publicKey m.identityKey ratchet) _
  · rw [hcontents, Contents.complete, Contents.pending_install_self, hpending]
    rfl
  · intro n k₁ hk
    rw [hpending] at hk
    cases hk
  · intro k₁ k₁' hk
    rw [hsession] at hk
    cases hk
    refine ⟨ratchet, hratchet, ?_⟩
    rw [hcontents, Contents.complete, Contents.current_install_self, hq, hm]

/-- What dropping a response leaves. -/
theorem shows_drop (h : d.Shows suite peer their a) (hkeeps : d.Keeps d')
    (rest : List (Leg PendingExchange)) (hsame : d'.contents = d.contents)
    (henvironment : d'.party.environment = a.environment) :
    d'.Shows suite peer their { a with side := a.side.dropping rest } := by
  refine ⟨hkeeps.unarmed h.unarmed, hkeeps.identity.trans h.identity, henvironment, ?_, ?_,
    h.number, ?_, h.keys⟩
  · rw [Device.trusts, hsame, hkeeps.trust]
    exact h.trusts
  · rw [hsame]
    exact h.pending
  · rw [hsame]
    exact h.session

section Takes
variable (hs : suite.Completes) (h : d.Shows suite peer their a) (hd : d.IsSound suite)
  {e : Envelope} (hsource : e.link.source = peer) {m : HandshakeMessage}
  (hread : HandshakeMessage.decode e.kind e.payload = .ok m) (hsound : m.IsSound suite) {n : UInt32}
  {k' : PendingExchange} (hkey : k'.identity.publicKey = their) (rest : List (Leg PendingExchange))
include hs h hd hsource hread hsound hkey

/-- An initiate of the peer is answered. -/
theorem Shows.takes_initiate (b : Player) (hm : Carries (.initiate n k') m) :
    ∃ o k m', (d.receive suite e).1 = .ok o ∧ o.status = .established ∧
      SessionAction.sent o.actions = [(peer, m')] ∧ Carries (.response n k) m' ∧
      (a.answers suite b n k' rest).2 = b.push (.response n k) ∧
      (d.receive suite e).2.Shows suite peer their (a.answers suite b n k' rest).1 := by
  obtain ⟨f, htakes, hcomes⟩ := comes_receive hd hread hsound
  rw [hsource] at htakes
  cases hm
  have htrusted : d.trusts peer (k'.leg .initiate).identityKey = true := by
    rw [← h.trusts, ← hkey]
    rfl
  have henvironment :=
    environment_receive_initiate hd hread hsound (by rw [hsource]; exact htrusted)
  rw [hsource, h.pending, h.environment] at henvironment
  cases htakes with
  | untrustedInitiate hno => exact absurd (hno.symm.trans htrusted) (by simp)
  | underivable hno => exact absurd hs.starts hno
  | @answered _ q ratchet now hq hratchet =>
    obtain ⟨o, ho, hkeeps, hcontents, hstatus, hsent⟩ := hcomes.of_unarmed h.unarmed
    rw [h.pending] at hq hsent
    cases hpending : a.side.pending with
    | none =>
      rw [hpending] at hq hsent henvironment
      have hanswer : q = a.environment.exchange suite a.identity k'.sequence := by
        rw [← h.environment, ← h.identity]
        exact hq
      subst hanswer
      rw [Player.answers, hpending]
      refine ⟨o, _, _, ho, hstatus, hsent, .response, rfl,
        shows_complete h hkeeps _ k' hcontents hratchet rfl rfl hkey rfl henvironment rfl rfl
          fun k hk => ?_⟩
      rcases List.mem_append.mp hk with hk | hk
      · exact h.keys k hk
      · rw [List.mem_singleton.mp hk]
        exact ⟨⟨suite.owns_keyPair _, suite.owns_keyPair _, h.identity ▸ hd.identity⟩, rfl⟩
    | some p =>
      rw [hpending] at hq hsent henvironment
      have hanswer : q = { p.2 with sequence := k'.sequence } := hq
      subst hanswer
      rw [Player.answers, hpending]
      refine ⟨o, p.2, _, ho, hstatus, hsent, .response, rfl,
        shows_complete h hkeeps p.2 k' hcontents hratchet rfl rfl hkey rfl henvironment rfl rfl
          fun k hk => ?_⟩
      exact h.keys k (by simpa [Side.answering] using hk)

/-- A response of the peer completes the exchange it answers, or is dropped. -/
theorem Shows.takes_response (hm : Carries (.response n k') m) :
    ∃ o, (d.receive suite e).1 = .ok o ∧ SessionAction.sent o.actions = [] ∧
      (d.receive suite e).2.Shows suite peer their (a.completes n k' rest) ∧
      ((∃ k, a.side.pending = some (n, k)) → o.status = .established) ∧
      ((∀ k, a.side.pending ≠ some (n, k)) →
        o.status = .stale ∧ (d.receive suite e).2.contents = d.contents) := by
  obtain ⟨f, htakes, hcomes⟩ := comes_receive hd hread hsound
  rw [hsource] at htakes
  cases hm with | @response _ _ flags =>
  have henvironment := environment_receive_response hd hread hsound
  rw [h.environment] at henvironment
  cases htakes with
  | untrustedResponse hno =>
    have htrusted : d.trusts peer k'.identity.publicKey = true := by rw [hkey]; exact h.trusts
    exact absurd (hno.symm.trans htrusted) (by simp)
  | underivable hno => exact absurd hs.starts hno
  | @completed _ q ratchet now hpending hsequence hratchet =>
    obtain ⟨o, ho, hkeeps, hcontents, hstatus, hsent⟩ := hcomes.of_unarmed h.unarmed
    rw [h.pending] at hpending
    obtain ⟨⟨n', k⟩, hown, rfl⟩ := Option.map_eq_some_iff.mp hpending
    have hn : n' = n := (h.number n' k hown).symm.trans hsequence
    have hmatches : a.side.pending = some (n, k) := by rw [hown, hn]
    refine ⟨o, ho, hsent, ?_, fun _ => hstatus, fun hnone => absurd hmatches (hnone k)⟩
    rw [Player.completes, hown]
    dsimp only
    rw [if_pos hn]
    exact shows_complete h hkeeps k k' hcontents hratchet rfl rfl hkey rfl henvironment
      rfl rfl h.keys
  | stale hstale =>
    obtain ⟨o, ho, hkeeps, hcontents, hstatus, hsent⟩ := hcomes.of_unarmed h.unarmed
    have hsame : (d.receive suite e).2.contents = d.contents := hcontents
    have hshows := shows_drop h hkeeps rest hsame henvironment
    have hother : ∀ p, a.side.pending = some p → p.1 ≠ n := fun p hp hn =>
      hstale p.2 (by rw [h.pending, hp]; rfl) ((h.number p.1 p.2 hp).trans hn)
    refine ⟨o, ho, hsent, ?_, fun hk => absurd rfl (hother _ hk.choose_spec),
      fun _ => ⟨hstatus, hsame⟩⟩
    rw [Player.completes]
    cases hpending : a.side.pending with
    | none => exact hshows
    | some p =>
      dsimp only
      rw [if_neg (hother p hpending)]
      exact hshows

end Takes

end Shows

end Device

/-! ### Worlds -/

namespace World

/-- Whether a device of a world, and what is on the way to it from another, are as a player. -/
structure Stands (suite : Suite) (w : World) (x y : Address) (their : PublicKey)
    (a : Player) : Prop where
  device : ∃ d, w.devices.get? x = some d ∧ d.Shows suite y their a
  inbox : List.Forall₂ Carries a.side.inbox (w.network.messages ⟨y, x⟩)

/-- Whether two devices of a world, and what is on the way between them, are as two players. -/
structure Pair (suite : Suite) (w : World) (x y : Address) (p : Player × Player) : Prop where
  sound : w.IsSound suite
  first : w.Stands suite x y p.2.identity.publicKey p.1
  second : w.Stands suite y x p.1.identity.publicKey p.2
  sourced : Sourced p.1.side p.2.side
  sourced' : Sourced p.2.side p.1.side

/-- What a moment adds to what a side did. -/
structure Moment.Adds (suite : Suite) (m : Moment) (x y : Address) (s s' : Side PendingExchange) :
    Prop where
  opened : s'.opened = s.opened ++ (m.opening suite x y).toList.map fun q => (q.sequence, q)
  keys : s'.keys = s.keys ++ m.drawn suite x y
  answers : s'.answers = m.count x y s.answers

/-- Whether a call succeeds, and makes a pair another pair by what its moment adds. -/
def Pair.Plays (suite : Suite) (w : World) (c : Call) (x y : Address)
    (p p' : Player × Player) : Prop :=
  ∃ status w', c.run suite w = .ok status w' ∧ w'.Pair suite x y p' ∧
    Moment.Adds suite ⟨w, c⟩ x y p.1.side p'.1.side ∧
    Moment.Adds suite ⟨w, c⟩ y x p.2.side p'.2.side

section Pair
variable {suite : Suite} {w w' : World} {x y : Address} {their : PublicKey} {a : Player}
  {p p' : Player × Player} {s s' : Side PendingExchange}

theorem Pair.swap (h : w.Pair suite x y p) : w.Pair suite y x p.swap :=
  ⟨h.sound, h.second, h.first, h.sourced', h.sourced⟩

theorem Pair.Plays.swap {c : Call} (h : Pair.Plays suite w c x y p p') :
    Pair.Plays suite w c y x p.swap p'.swap := by
  obtain ⟨status, w', hrun, hpair, hs, ht⟩ := h
  exact ⟨status, w', hrun, hpair.swap, ht, hs⟩

/-- A device stands while it and the messages to it stay. -/
theorem Stands.of_eq (h : w.Stands suite x y their a) (hd : w'.devices.get? x = w.devices.get? x)
    (hm : w'.network.messages ⟨y, x⟩ = w.network.messages ⟨y, x⟩) : w'.Stands suite x y their a :=
  ⟨hd ▸ h.device, hm ▸ h.inbox⟩

/-- A leg on the way to a device. -/
theorem Stands.push (h : w.Stands suite x y their a) (hd : w'.devices.get? x = w.devices.get? x)
    {leg : Leg PendingExchange} {m : HandshakeMessage} (hm : Carries leg m)
    (hmessages : w'.network.messages ⟨y, x⟩ = w.network.messages ⟨y, x⟩ ++ [m]) :
    w'.Stands suite x y their (a.push leg) where
  device := by
    obtain ⟨d, hget, hshows⟩ := h.device
    exact ⟨d, hd ▸ hget,
      ⟨hshows.1, hshows.2, hshows.3, hshows.4, hshows.5, hshows.6, hshows.7, hshows.8⟩⟩
  inbox := hmessages ▸ List.rel_append h.inbox (.cons hm .nil)

theorem posted_singleton (a b : Address) (m : HandshakeMessage) (l : Link) :
    Network.posted a l [(b, m)] = if l = ⟨a, b⟩ then [m] else [] := by
  rw [Network.posted, List.filterMap_cons]
  by_cases h : l = ⟨a, b⟩ <;> simp [h]

/-- A call that opens no exchange and takes in no initiate adds nothing to what a side did. -/
theorem Moment.adds_of_none {c : Call} (hinitiate : c ≠ .initiate x y)
    (hanswering : (⟨w, c⟩ : Moment).initiate? x y = none) (hopened : s'.opened = s.opened)
    (hkeys : s'.keys = s.keys) (hanswers : s'.answers = s.answers) :
    Moment.Adds suite ⟨w, c⟩ x y s s' where
  opened := by rw [hopened, opening_of_ne hinitiate]; exact (List.append_nil _).symm
  keys := by
    rw [hkeys, drawn, opening_of_ne hinitiate, answering, hanswering]
    exact (List.append_nil _).symm
  answers := by
    rw [hanswers, count_of_ne hinitiate, hanswering]
    rfl

/-- A call on other devices leaves a pair as it is. -/
theorem Pair.untouched (h : w.Pair suite x y p) (hs : suite.KeepsKeys) {c : Call}
    (hx : ¬c.Touches x) (hy : ¬c.Touches y) : (w.after suite c).Pair suite x y p where
  sound := h.sound.after hs c
  first :=
    h.first.of_eq ((c.ends hs h.sound).device x hx) ((c.ends hs h.sound).messages ⟨y, x⟩ hy hx)
  second :=
    h.second.of_eq ((c.ends hs h.sound).device y hy) ((c.ends hs h.sound).messages ⟨x, y⟩ hx hy)
  sourced := h.sourced
  sourced' := h.sourced'

/-! ### Opening -/

theorem Pair.plays_initiate (h : w.Pair suite x y p) (hne : x ≠ y) :
    Pair.Plays suite w (.initiate x y) x y p (p.1.opens suite p.2) := by
  obtain ⟨d, hd, hshows⟩ := h.first.device
  have hsound := (h.sound.devices x d hd).2
  have hopening : (⟨w, .initiate x y⟩ : Moment).opening suite x y = some (p.1.opening suite) := by
    rw [Moment.opening_initiate hd, hshows.opening_eq]
  obtain ⟨thread, w', hrun, hacted⟩ := initiate_spec h.sound y hd
  obtain ⟨o, ho, hsent, hshows'⟩ := hshows.opens hsound thread p.2
  rw [ho] at hrun hacted
  have hmessages : ∀ l, w'.network.messages l = w.network.messages l ++
      if l = ⟨x, y⟩ then [.initiate ((p.1.opening suite).leg .initiate)] else [] := fun l => by
    rw [hacted.messages, sentBy, hsent, posted_singleton]
  have hstep := Player.step_opens suite p.1 p.2
  refine ⟨some o.status, w', map_finish x _ w' some _ hrun,
    ⟨hacted.sound, ⟨⟨_, hacted.device, hshows'⟩, ?_⟩,
      h.second.push (hacted.others y hne.symm) .initiate ?_,
      hstep.sourced h.sourced, hstep.sourced' h.sourced' h.sourced⟩, ⟨?_, ?_, ?_⟩,
    Moment.adds_of_none ?_ (Moment.initiate?_of_ne ?_) rfl rfl rfl⟩
  · rw [hmessages, if_neg (by simp [hne]), List.append_nil]
    exact h.first.inbox
  · rw [hmessages, if_pos rfl]
  · rw [hopening]
    rfl
  · rw [Moment.drawn, hopening, Moment.answering_of_ne (by simp)]
    rfl
  · exact (if_pos rfl).symm
  · simp [hne]
  · simp

/-! ### Taking in -/

/-- The identity that a leg on the way to the first device carries. -/
theorem Pair.identity_of_inbox (h : w.Pair suite x y p) {leg : Leg PendingExchange}
    {rest : List (Leg PendingExchange)} (hinbox : p.1.side.inbox = leg :: rest) :
    leg.key.identity.publicKey = p.2.identity.publicKey := by
  obtain ⟨e, -, hshows⟩ := h.second.device
  have hmem := h.sourced.inbox leg (hinbox ▸ List.mem_cons_self)
  rw [(hshows.keys _ hmem).2]

section Deliver
variable (h : w.Pair suite x y p) (hs : suite.Completes) (hne : x ≠ y)
include h hs

/-- The oldest message on the way to the first device carries the oldest leg,
and is delivered to it. -/
theorem Pair.delivers {leg : Leg PendingExchange} {rest : List (Leg PendingExchange)}
    (hinbox : p.1.side.inbox = leg :: rest) : ∃ d e m ms w', w.devices.get? x = some d ∧
      d.Shows suite y p.2.identity.publicKey p.1 ∧ d.IsSound suite ∧
      w.network.messages ⟨y, x⟩ = m :: ms ∧ Carries leg m ∧ List.Forall₂ Carries rest ms ∧
      e.link.source = y ∧ HandshakeMessage.decode e.kind e.payload = .ok m ∧ m.IsSound suite ∧
      deliver suite ⟨y, x⟩ w =
        finish x (((d.receive suite e).1.map HandshakeOutcome.status).map some) w' ∧
      Acted suite x (d.receive suite e).2 (sentBy (d.receive suite e).1) (w.pop ⟨y, x⟩) w' := by
  obtain ⟨d, hd, hshows⟩ := h.first.device
  obtain ⟨m, ms, hm, hrest, hms⟩ := List.forall₂_cons_left_iff.mp (hinbox ▸ h.first.inbox)
  obtain ⟨e, w', hlink, hread, hmsound, hrun, hacted⟩ := deliver_spec hs.keepsKeys h.sound hms hd
  exact ⟨d, e, m, ms, w', hd, hshows, (h.sound.devices x d hd).2, hms, hm, hrest,
    by rw [hlink], hread, hmsound, hrun, hacted⟩

section Plays
include hne

theorem Pair.plays_deliver_initiate {n : UInt32} {k' : PendingExchange}
    {rest : List (Leg PendingExchange)} (hinbox : p.1.side.inbox = .initiate n k' :: rest) :
    Pair.Plays suite w (.deliver ⟨y, x⟩) x y p (p.1.takes suite p.2) := by
  obtain ⟨d, e, m, ms, w', hd, hshows, hsound, hms, hm, hrest, hlink, hread, hmsound,
    hrun, hacted⟩ :=
    h.delivers hs hinbox
  have hkey : k'.identity.publicKey = p.2.identity.publicKey := h.identity_of_inbox hinbox
  obtain ⟨o, k, m', ho, -, hsent, hm', hpeer, hshows'⟩ :=
    hshows.takes_initiate hs hsound hlink hread hmsound hkey rest p.2 hm
  rw [ho] at hrun hacted
  have hmessages : ∀ l, w'.network.messages l =
      (if l = ⟨y, x⟩ then ms else w.network.messages l) ++
        if l = ⟨x, y⟩ then [m'] else [] := fun l => by
    rw [hacted.messages_of_pop h.sound hms, sentBy, hsent, posted_singleton]
  have hin : w'.network.messages ⟨y, x⟩ = ms := by
    rw [hmessages, if_pos rfl, if_neg (by simp [hne]), List.append_nil]
  have hout : w'.network.messages ⟨x, y⟩ = w.network.messages ⟨x, y⟩ ++ [m'] := by
    rw [hmessages, if_pos rfl, if_neg (by simp [hne])]
  obtain ⟨hsourced, hsourced'⟩ := Player.sourced_takes suite h.sourced h.sourced'
  rw [Player.takes_initiate hinbox] at hsourced hsourced' ⊢
  obtain ⟨hidentity, hrest'⟩ : (p.1.answers suite p.2 n k' rest).1.identity = p.1.identity ∧
    (p.1.answers suite p.2 n k' rest).1.side.inbox = rest := Player.answers_fst
  have hfirst : w'.Stands suite x y p.2.identity.publicKey (p.1.answers suite p.2 n k' rest).1 :=
    ⟨⟨_, hacted.device, hshows'⟩, by rw [hrest', hin]; exact hrest⟩
  have hsecond : w'.Stands suite y x p.1.identity.publicKey (p.2.push (.response n k)) :=
    h.second.push (hacted.others y hne.symm) hm' hout
  rw [← hpeer, ← hidentity] at hsecond
  have htheir : (p.1.answers suite p.2 n k' rest).2.identity = p.2.identity := by rw [hpeer]; rfl
  rw [← htheir] at hfirst
  refine ⟨some o.status, w', hrun, ⟨hacted.sound, hfirst, hsecond, hsourced, hsourced'⟩,
    ⟨?_, ?_, ?_⟩, ?_⟩
  · rw [Moment.opening_of_ne (by simp)]
    cases hpending : p.1.side.pending <;> simp [Player.answers, hpending, Side.answering]
  · cases hm
    rw [Moment.drawn, Moment.opening_of_ne (by simp), Moment.answering_deliver hms hd,
      hshows.pending, Party.answering, hshows.environment, hshows.identity]
    cases hpending : p.1.side.pending <;> simp [Player.answers, hpending, Side.answering,
      PendingExchange.leg]
  · cases hm
    rw [Moment.count_of_ne (by simp), Moment.initiate?_deliver hms]
    cases hpending : p.1.side.pending <;> simp [Player.answers, hpending, Side.answering]
  · rw [hpeer]
    exact Moment.adds_of_none (by simp) (Moment.initiate?_of_ne (by simp [hne])) rfl rfl rfl

theorem Pair.plays_deliver_response {n : UInt32} {k' : PendingExchange}
    {rest : List (Leg PendingExchange)} (hinbox : p.1.side.inbox = .response n k' :: rest) :
    Pair.Plays suite w (.deliver ⟨y, x⟩) x y p (p.1.takes suite p.2) := by
  obtain ⟨d, e, m, ms, w', hd, hshows, hsound, hms, hm, hrest, hlink, hread, hmsound,
    hrun, hacted⟩ :=
    h.delivers hs hinbox
  have hkey : k'.identity.publicKey = p.2.identity.publicKey := h.identity_of_inbox hinbox
  obtain ⟨o, ho, hsent, hshows', -⟩ :=
    hshows.takes_response hs hsound hlink hread hmsound hkey rest hm
  rw [ho] at hrun hacted
  have hmessages : ∀ l, w'.network.messages l = if l = ⟨y, x⟩ then ms else w.network.messages l :=
    fun l => by
      rw [hacted.messages_of_pop h.sound hms, sentBy, hsent]
      exact List.append_nil _
  have hnone : (⟨w, .deliver ⟨y, x⟩⟩ : Moment).initiate? x y = none :=
    Moment.initiate?_deliver_of_ne fun k ms' hms' => by
      rw [hms] at hms'
      cases hm
      cases hms'
  obtain ⟨hsourced, hsourced'⟩ := Player.sourced_takes suite h.sourced h.sourced'
  rw [Player.takes_response hinbox] at hsourced hsourced' ⊢
  obtain ⟨hidentity, hrest', hopened, hkeys, hanswers⟩ := p.1.completes_eq n k' rest
  have hfirst : w'.Stands suite x y p.2.identity.publicKey (p.1.completes n k' rest) :=
    ⟨⟨_, hacted.device, hshows'⟩, by rw [hrest', hmessages, if_pos rfl]; exact hrest⟩
  have hsecond : w'.Stands suite y x p.1.identity.publicKey p.2 :=
    h.second.of_eq (hacted.others y hne.symm) (by rw [hmessages, if_neg (by simp [hne])])
  rw [← hidentity] at hsecond
  exact ⟨some o.status, w', hrun, ⟨hacted.sound, hfirst, hsecond, hsourced, hsourced'⟩,
    Moment.adds_of_none (by simp) hnone hopened hkeys hanswers,
    Moment.adds_of_none (by simp) (Moment.initiate?_of_ne (by simp [hne])) rfl rfl rfl⟩

theorem Pair.plays_deliver : Pair.Plays suite w (.deliver ⟨y, x⟩) x y p (p.1.takes suite p.2) := by
  rcases hinbox : p.1.side.inbox with _ | ⟨⟨n, k⟩ | ⟨n, k⟩, rest⟩
  · have hms : w.network.messages ⟨y, x⟩ = [] :=
      List.forall₂_nil_left_iff.mp (hinbox ▸ h.first.inbox)
    have hqueue := (h.sound.network.messages_eq_nil ⟨y, x⟩).mp hms
    rw [show p.1.takes suite p.2 = p by rw [Player.takes, hinbox]]
    refine ⟨none, w, deliver_nil hqueue, h,
      Moment.adds_of_none (by simp) (Moment.initiate?_deliver_of_ne fun k ms hms' => ?_)
        rfl rfl rfl,
      Moment.adds_of_none (by simp) (Moment.initiate?_of_ne (by simp [hne])) rfl rfl rfl⟩
    rw [hms] at hms'
    cases hms'
  · exact h.plays_deliver_initiate hs hne hinbox
  · exact h.plays_deliver_response hs hne hinbox

end Plays

/-- A response to the exchange under way establishes a session. -/
theorem Pair.established {n : UInt32} {k k' : PendingExchange} {rest : List (Leg PendingExchange)}
    (hinbox : p.1.side.inbox = .response n k' :: rest) (hpending : p.1.side.pending = some (n, k)) :
    (⟨w, .deliver ⟨y, x⟩⟩ : Moment).answer suite = some .established := by
  obtain ⟨d, e, m, ms, w', hd, hshows, hsound, -, hm, -, hlink, hread, hmsound, hrun, -⟩ :=
    h.delivers hs hinbox
  obtain ⟨o, ho, -, -, hstatus, -⟩ := hshows.takes_response hs hsound hlink hread hmsound
    (h.identity_of_inbox hinbox) rest hm
  rw [ho] at hrun
  rw [Moment.answer, show Call.run suite (.deliver ⟨y, x⟩) w = .ok (some o.status) w' from hrun]
  exact congrArg some (hstatus ⟨k, hpending⟩)

/-- An initiate establishes a session. -/
theorem Pair.established_of_initiate {n : UInt32} {k' : PendingExchange}
    {rest : List (Leg PendingExchange)} (hinbox : p.1.side.inbox = .initiate n k' :: rest) :
    (⟨w, .deliver ⟨y, x⟩⟩ : Moment).answer suite = some .established := by
  obtain ⟨d, e, m, ms, w', hd, hshows, hsound, -, hm, -, hlink, hread, hmsound, hrun, -⟩ :=
    h.delivers hs hinbox
  obtain ⟨o, k, m', ho, hstatus, -⟩ := hshows.takes_initiate hs hsound hlink hread hmsound
    (h.identity_of_inbox hinbox) rest p.2 hm
  rw [ho] at hrun
  rw [Moment.answer, show Call.run suite (.deliver ⟨y, x⟩) w = .ok (some o.status) w' from hrun]
  exact congrArg some hstatus

/-- A response to anything but the exchange under way is stale, and the record of the other device
stays as it is. -/
theorem Pair.stale {n : UInt32} {k' : PendingExchange} {rest : List (Leg PendingExchange)}
    (hinbox : p.1.side.inbox = .response n k' :: rest)
    (hpending : ∀ k, p.1.side.pending ≠ some (n, k)) :
    (⟨w, .deliver ⟨y, x⟩⟩ : Moment).answer suite = some .stale ∧
      (w.after suite (.deliver ⟨y, x⟩)).session x y = w.session x y := by
  obtain ⟨d, e, m, ms, w', hd, hshows, hsound, -, hm, -, hlink, hread, hmsound, hrun, hacted⟩ :=
    h.delivers hs hinbox
  obtain ⟨o, ho, -, -, -, hstale⟩ := hshows.takes_response hs hsound hlink hread hmsound
    (h.identity_of_inbox hinbox) rest hm
  obtain ⟨hstatus, hcontents⟩ := hstale hpending
  rw [ho] at hrun
  have hrun' : Call.run suite (.deliver ⟨y, x⟩) w = .ok (some o.status) w' := hrun
  refine ⟨?_, ?_⟩
  · rw [Moment.answer, hrun']
    exact congrArg some hstatus
  · rw [after, hrun', ending, session_eq hacted.sound hacted.device,
      session_eq h.sound hd, hcontents]

end Deliver

/-! ### Calls on a pair -/

/-- Whether a call opens an exchange between two devices or delivers a
message from one to the other. -/
def Call.IsBetween (c : Call) (x y : Address) : Prop :=
  c = .initiate x y ∨ c = .initiate y x ∨ c = .deliver ⟨x, y⟩ ∨ c = .deliver ⟨y, x⟩

instance (c : Call) (x y : Address) : Decidable (c.IsBetween x y) :=
  inferInstanceAs (Decidable (_ ∨ _ ∨ _ ∨ _))

/-- Whether a call is between two devices, or has nothing to do with them. -/
def Call.IsBetweenOrApart (c : Call) (x y : Address) : Prop :=
  c.IsBetween x y ∨ ¬c.Touches x ∧ ¬c.Touches y

/-- Every call between two devices succeeds and is played by the players. -/
theorem Pair.plays (h : w.Pair suite x y p) (hs : suite.Completes) (hne : x ≠ y) {c : Call}
    (hc : c.IsBetween x y) : Pair.Plays suite w c x y p (Player.play suite x y c p) := by
  rw [Player.play]
  rcases hc with rfl | rfl | rfl | rfl
  · rw [if_pos rfl]
    exact h.plays_initiate hne
  · rw [if_neg (by simp [hne]), if_pos rfl]
    exact (h.swap.plays_initiate hne.symm).swap
  · rw [if_neg (by simp), if_neg (by simp), if_neg (by simp [hne]), if_pos rfl]
    exact (h.swap.plays_deliver hs hne.symm).swap
  · rw [if_neg (by simp), if_neg (by simp), if_pos rfl]
    exact h.plays_deliver hs hne

end Pair

end World

end SecureSession
