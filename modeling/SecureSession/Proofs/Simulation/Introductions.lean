import Mathlib.Data.List.Forall2
import SecureSession.Proofs.Simulation.Offers

/-! # Introductions

A device introduces itself to a peer that is offline: it makes offers with bundles of the peer, and
tells of them in first messages. What both devices store, and the messages between them, are as the
progress of the run tells (`World.Introduces`), and every call keeps it so. -/

namespace SecureSession

/-! ### Devices -/

namespace Device

/-- Whether a device, which was `d`, has made some offers to a peer, which was `e` and whose
identity it trusts: its live session is that of the last offer. -/
structure Makes (suite : Suite) (d' : Device) (peer : Address) (d e : Device)
    (made : Nat) : Prop where
  unarmed : d'.isArmed = false
  identity : d'.party.identity = d.party.identity
  environment : d'.party.environment = d.party.environment.afterExchanges suite made
  trusts : d'.trusts peer e.party.identity.publicKey = true
  idle : made = 0 → (d'.contents.record peer).current = none
  session : ∀ i, made = i + 1 → ∃ ratchet,
    suite.initialState ((d.nthOffer suite e i).sourceParameters d.party.identity
      e.party.identity.publicKey) = .ok ratchet ∧
    (d'.contents.record peer).current = some ((d.nthOffer suite e i).sourceState
      d.party.identity.publicKey e.party.identity.publicKey ratchet)

/-- Whether a device, which was `e`, has given the prekeys for some offers of a peer, which was `d`
and whose identity it trusts, and taken up none but the first `taken` of them: the prekeys of later
ones are held, and its live session is that of the last one it took up. -/
structure Accepts (suite : Suite) (e' : Device) (peer : Address) (d e : Device) (made taken : Nat) :
    Prop where
  unarmed : e'.isArmed = false
  identity : e'.party.identity = e.party.identity
  lastResort : e'.party.lastResort = e.party.lastResort
  environment : e'.party.environment = e.party.environment.afterKeyPairs suite made
  nextPreKey : e'.nextPreKey = e.nextPreKey + UInt32.ofNat made
  trusts : e'.trusts peer d.party.identity.publicKey = true
  held : ∀ i < made, taken ≤ i + 1 → e'.party.prekeys.held.get? (d.nthOffer suite e i).prekeyId =
    if i < taken ∧ (d.nthOffer suite e i).prekeyId ≠ e.party.lastResort then none
    else some (d.nthOffer suite e i).prekey
  session : ∀ i, taken = i + 1 → ∃ ratchet,
    suite.initialState ((d.nthOffer suite e i).targetParameters e.party.identity
      d.party.identity.publicKey) = .ok ratchet ∧
    (e'.contents.record peer).current = some (.fresh e.party.identity.publicKey
      d.party.identity.publicKey ratchet)

variable {suite : Suite} {d e d' e' : Device} {peer : Address} {made taken : Nat}

/-- The next offer is the one drawn from the environments of both devices. -/
theorem offer_eq_nthOffer {x y : Address} (h : d'.Makes suite y d e made)
    (h' : e'.Accepts suite x d e made taken) : d'.offer suite e' = d.nthOffer suite e made := by
  rw [offer, nthOffer, h.environment, h'.environment, h'.nextPreKey]

/-! ### The device that makes offers -/

section Makes
variable (h : d'.Makes suite peer d e made)
include h

/-- The keys that a device computes its end of the next offer from. -/
theorem Makes.bundleParameters_eq (device : UInt32) (identity : PublicKey) :
    d'.party.bundleParameters (d'.party.environment.keyPair suite).1
      ((d'.party.environment.keyPair suite).2.keyPair suite).1
      ((d.nthOffer suite e made).bundle device identity) =
    (d.nthOffer suite e made).sourceParameters d.party.identity identity := by
  rw [h.environment, ← h.identity]
  rfl

/-- The session that a device makes with the next offer. -/
theorem Makes.bundleState_eq (device : UInt32) (identity : PublicKey) (ratchet : RatchetState) :
    d'.party.bundleState (d'.party.environment.keyPair suite).1
      ((d.nthOffer suite e made).bundle device identity) ratchet =
    (d.nthOffer suite e made).sourceState d.party.identity.publicKey identity ratchet := by
  rw [h.environment, ← h.identity]
  rfl

variable (hd : d'.IsSound suite)
include hd

/-- An offer is made with the bundle of the peer. -/
theorem Makes.useBundle (hs : suite.Starts) (hidentity : suite.Owns e.party.identity)
    {b : PreKeyBundle}
    (hb : b = (d.nthOffer suite e made).bundle peer.device e.party.identity.publicKey)
    (thread : UInt64) :
    ∃ o, (d'.useBundle suite peer thread b).1 = .ok o ∧ o.status = .established ∧
      SessionAction.sent o.actions = [] ∧
      (d'.useBundle suite peer thread b).2.Makes suite peer d e (made + 1) := by
  have hsound : ((d.nthOffer suite e made).sourceParameters d.party.identity
      e.party.identity.publicKey).IsSound suite :=
    Offer.isSound_sourceParameters (Offer.isSound_draw ..) hidentity.isPublic
  obtain ⟨ratchet, hratchet⟩ := hs _ hsound
  have hdevice : b.deviceId = peer.device := by rw [hb]; rfl
  have htrusts : d'.trusts peer b.identityKey = true := by rw [hb]; exact h.trusts
  have hstarts : suite.initialState (d'.party.bundleParameters
      (d'.party.environment.keyPair suite).1
      ((d'.party.environment.keyPair suite).2.keyPair suite).1 b) = .ok ratchet := by
    rw [hb, h.bundleParameters_eq]
    exact hratchet
  obtain ⟨now, ⟨o, hok, hstatus, hsent⟩, hkeeps, hcontents, -⟩ :=
    achieves_useBundle hd h.unarmed hdevice htrusts thread hstarts
  have henvironment := environment_useBundle hd hdevice htrusts thread
  rw [h.environment] at henvironment
  rw [congrArg (d'.party.bundleState _ · ratchet) hb, h.bundleState_eq] at hcontents
  refine ⟨o, hok, hstatus, hsent, ⟨hkeeps.unarmed h.unarmed, hkeeps.identity.trans h.identity,
    henvironment, ?_, fun hnone => absurd hnone (Nat.succ_ne_zero made), fun i hi => ?_⟩⟩
  · rw [Device.trusts, hcontents]
    exact Contents.trusts_install_self _ now peer _ ((d.nthOffer suite e made).sourceState _
      e.party.identity.publicKey ratchet) _
  · obtain rfl : made = i := Nat.succ.inj hi
    exact ⟨ratchet, hratchet, by rw [hcontents, Contents.current_install_self]⟩

/-- A device that has made no offer has no first message to send. -/
theorem Makes.firstMessage?_zero (text : Bytes) (hnone : made = 0) :
    d'.firstMessage? peer text = .ok none := by
  rw [firstMessage?_eq hd.readable, h.idle hnone]
  rfl

/-- The first message of a device tells of its last offer. -/
theorem Makes.firstMessage?_succ (hs : suite.KeepsKeys) (text : Bytes) {i : Nat}
    (hi : made = i + 1) :
    ∃ m, d'.firstMessage? peer text = .ok (some m) ∧
      (d.nthOffer suite e i).Announces d.party.identity.publicKey (.bundle m) := by
  obtain ⟨ratchet, hratchet, hcurrent⟩ := h.session i hi
  rw [firstMessage?_eq hd.readable, hcurrent]
  exact ⟨_, rfl, .bundle rfl rfl rfl (hs _ _ hratchet).1⟩

end Makes

/-! ### The device that takes them up -/

/-- A device publishes the prekey of another offer. -/
theorem Accepts.publishNext (h : e'.Accepts suite peer d e made taken) (hcount : made < 2 ^ 32)
    (htaken : taken ≤ made) : (e'.publishNext suite).2.Accepts suite peer d e (made + 1) taken := by
  have hget : ∀ id, (e'.publishNext suite).2.party.prekeys.held.get? id =
      if id = (d.nthOffer suite e made).prekeyId then some (d.nthOffer suite e made).prekey
      else e'.party.prekeys.held.get? id := by
    intro id
    have hinsert : (e'.publishNext suite).2.party.prekeys.held.get? id =
        if id = e'.nextPreKey then some (e'.party.environment.keyPair suite).1
        else e'.party.prekeys.held.get? id := SortedMap.get?_insert ..
    rw [hinsert, h.nextPreKey, h.environment]
    rfl
  refine ⟨h.unarmed, h.identity, h.lastResort, ?_, ?_, h.trusts, fun i hi hle => ?_, h.session⟩
  · show (e'.party.environment.keyPair suite).2 = _
    rw [h.environment]
    rfl
  · show e'.nextPreKey + 1 = _
    rw [h.nextPreKey, UInt32.ofNat_add, UInt32.add_assoc]
    rfl
  · rw [hget]
    rcases Nat.lt_succ_iff_lt_or_eq.mp hi with hi | rfl
    · rw [if_neg (prekeyId_nthOffer_ne suite d e (hi.trans hcount) hcount (Nat.ne_of_lt hi))]
      exact h.held i hi hle
    · rw [if_pos rfl, if_neg fun hlt => absurd hlt.1 (Nat.not_lt.mpr htaken)]

/-- A session just built is active where its ratchet can send. -/
theorem isActive_of_fresh {r : SessionRecord} {own their : PublicKey} {ratchet : RatchetState}
    (hcurrent : r.current = some (.fresh own their ratchet)) (hsend : ratchet.canSend = true) :
    r.isActive = true := by
  unfold SessionRecord.isActive SessionRecord.canSend SessionRecord.version
  rw [hcurrent, Option.any_some, SessionState.canSend, SessionState.fresh, hsend]
  rfl

/-- A device that comes out of a message with an effect has come as far as the effect tells. -/
theorem Accepts.achieves (h : e'.Accepts suite peer d e made taken) {i : Nat} {f : Effect}
    {r : Except SessionError HandshakeOutcome × Device} (hr : e'.Achieves f r)
    (henvironment : r.2.party.environment = e'.party.environment)
    (htrusts : f.contents.trusts e'.party.trust.policy peer.name d.party.identity.publicKey = true)
    (hheld : ∀ j < made, i + 1 ≤ j + 1 →
      (f.consumed.elim e'.party.prekeys e'.party.prekeys.discard).held.get?
        (d.nthOffer suite e j).prekeyId =
      if j < i + 1 ∧ (d.nthOffer suite e j).prekeyId ≠ e.party.lastResort then none
      else some (d.nthOffer suite e j).prekey)
    (hsession : ∃ ratchet, suite.initialState ((d.nthOffer suite e i).targetParameters
        e.party.identity d.party.identity.publicKey) = .ok ratchet ∧
      (f.contents.record peer).current = some (.fresh e.party.identity.publicKey
        d.party.identity.publicKey ratchet)) :
    r.2.Accepts suite peer d e made (i + 1) where
  unarmed := hr.keeps.unarmed h.unarmed
  identity := hr.keeps.identity.trans h.identity
  lastResort := hr.lastResort.trans h.lastResort
  environment := henvironment.trans h.environment
  nextPreKey := hr.nextPreKey.trans h.nextPreKey
  trusts := by
    rw [Device.trusts, hr.contents, hr.keeps.trust]
    exact htrusts
  held j hj hle := by
    rw [hr.prekeys]
    exact hheld j hj hle
  session j hj := by
    obtain rfl : i = j := Nat.succ.inj hj
    rw [hr.contents]
    exact hsession

section Receive
variable (hs : suite.Completes) (h : e'.Accepts suite peer d e made taken) (he : e'.IsSound suite)
  {i : Nat} (hi : i < made) (hle : taken ≤ i + 1)
include h he hi hle

/-- Once the prekey of an offer is used up, it is gone unless it is that of last resort, and those
of later offers are held. -/
theorem Accepts.held_usedUp (hcount : made < 2 ^ 32)
    (hheld : e'.party.prekeys.held.get? (d.nthOffer suite e i).prekeyId =
      some (d.nthOffer suite e i).prekey) {j : Nat} (hj : j < made)
    (hij : i + 1 ≤ j + 1) :
    ((e'.party.usedUp (d.nthOffer suite e i).prekeyId).elim e'.party.prekeys
        e'.party.prekeys.discard).held.get? (d.nthOffer suite e j).prekeyId =
      if j < i + 1 ∧ (d.nthOffer suite e j).prekeyId ≠ e.party.lastResort then none
      else some (d.nthOffer suite e j).prekey := by
  rw [Party.usedUp, h.lastResort]
  -- no later offer has the number of this one, so nothing but its own prekey goes
  rcases Nat.eq_or_lt_of_le (Nat.le_of_succ_le_succ hij) with rfl | hlt
  · split_ifs with hlast hno hno
    · exact absurd hlast hno.2
    · exact hheld
    · exact PreKeys.get?_discard_self (by rw [he.fault]; nofun)
    · exact absurd ⟨Nat.lt_succ_self _, hlast⟩ hno
  · have hother := h.held j hj (by omega)
    rw [if_neg (not_and_of_not_left _ (by omega))] at hother
    rw [if_neg (not_and_of_not_left _ (by omega))]
    split_ifs
    · exact hother
    · exact (PreKeys.get?_discard_of_ne (prekeyId_nthOffer_ne suite d e (hj.trans hcount)
        (hi.trans hcount) (Nat.ne_of_gt hlt))).trans hother

variable {l : Envelope} (hsource : l.link.source = peer)
  {m : HandshakeMessage} (hread : HandshakeMessage.decode l.kind l.payload = .ok m)
  (hm : (d.nthOffer suite e i).Announces d.party.identity.publicKey m)
include hs hsource hread hm

/-- A message about an offer that was taken up is a duplicate once the prekey is gone. -/
theorem Accepts.receive_of_gone
    (hgone : i < taken ∧ (d.nthOffer suite e i).prekeyId ≠ e.party.lastResort) :
    ∃ o, (e'.receive suite l).1 = .ok o ∧ o.status = .duplicate ∧
      SessionAction.sent o.actions = [] ∧
      (e'.receive suite l).2.Accepts suite peer d e made (i + 1) := by
  -- messages come in order, so the offer can only be the one taken up last, whose session is live
  obtain rfl : taken = i + 1 := Nat.le_antisymm hle hgone.1
  have hheld := h.held i hi le_rfl
  rw [if_pos hgone] at hheld
  obtain ⟨ratchet, hratchet, hcurrent⟩ := h.session i rfl
  have hactive := isActive_of_fresh hcurrent (hs.keepsKeys _ _ hratchet).2.2
  cases hm with | bundle prekeyId base identityKey ephemeral =>
  rw [← prekeyId] at hheld
  have hdropped :=
    achieves_receive_of_gone he h.unarmed hread hheld (by rw [hsource]; exact hactive)
  obtain ⟨o, hok, hstatus, hsent⟩ := hdropped.outcome
  exact ⟨o, hok, hstatus, hsent, h.achieves hdropped (environment_receive_bundle hread) h.trusts
    h.held (h.session i rfl)⟩

/-- A message about an offer whose prekey is held makes the session of the offer. -/
theorem Accepts.receive_of_held (hidentity : suite.Owns d.party.identity) (hcount : made < 2 ^ 32)
    (hfresh : ¬(i < taken ∧ (d.nthOffer suite e i).prekeyId ≠ e.party.lastResort)) :
    ∃ o, (e'.receive suite l).1 = .ok o ∧ o.status = .established ∧
      SessionAction.sent o.actions = [] ∧
      (e'.receive suite l).2.Accepts suite peer d e made (i + 1) := by
  have hheld := h.held i hi hle
  rw [if_neg hfresh] at hheld
  have hsound : ((d.nthOffer suite e i).targetParameters e.party.identity
      d.party.identity.publicKey).IsSound suite :=
    Offer.isSound_targetParameters (Offer.isSound_draw ..) hidentity.isPublic
  obtain ⟨ratchet, hratchet⟩ := hs.starts _ hsound
  have hused : ∀ j < made, i + 1 ≤ j + 1 → _ := fun j hj =>
    h.held_usedUp he hi hle hcount hheld hj
  cases hm with | @bundle m prekeyId base identityKey ephemeral =>
  have hparameters : e'.party.messageParameters (d.nthOffer suite e i).prekey m =
      (d.nthOffer suite e i).targetParameters e.party.identity d.party.identity.publicKey := by
    rw [Party.messageParameters, base, identityKey, ephemeral, h.identity]
    rfl
  rw [← prekeyId] at hheld hused
  obtain ⟨now, hmade⟩ := achieves_receive_of_held he h.unarmed hread hheld
    (by rw [hsource, identityKey]; exact h.trusts) (by rw [hparameters]; exact hratchet)
  rw [hsource, identityKey, h.identity] at hmade
  obtain ⟨o, hok, hstatus, hsent⟩ := hmade.outcome
  exact ⟨o, hok, hstatus, hsent, h.achieves hmade (environment_receive_bundle hread)
    (Contents.trusts_install_self _ now peer _ (.fresh _ d.party.identity.publicKey ratchet) _)
    hused
    ⟨ratchet, hratchet, Contents.current_install_self ..⟩⟩

end Receive

end Device

/-! ### Worlds -/

namespace World

/-- Whether a device of a world introduces itself to another, and has come so far since
the two were `d` and `e`. -/
structure Introduces (suite : Suite) (w : World) (x : Address) (d : Device) (y : Address)
    (e : Device) (p : Progress) : Prop where
  sound : w.IsSound suite
  source : ∃ d', w.devices.get? x = some d' ∧ d'.Makes suite y d e p.made
  target : ∃ e', w.devices.get? y = some e' ∧ e'.Accepts suite x d e p.made p.taken
  underway : List.Forall₂ (fun i m => (d.nthOffer suite e i).Announces d.party.identity.publicKey m)
    p.underway (w.network.messages ⟨x, y⟩)
  order : p.InOrder

variable {suite : Suite} {w : World} {x y : Address} {d e : Device} {p : Progress}

section State
variable (h : w.Introduces suite x d y e p)
include h

theorem Introduces.owns_source : suite.Owns d.party.identity := by
  obtain ⟨d', hd', hmakes⟩ := h.source
  have howns := (h.sound.devices x d' hd').2.identity
  rwa [hmakes.identity] at howns

theorem Introduces.owns_target : suite.Owns e.party.identity := by
  obtain ⟨e', he', haccepts⟩ := h.target
  have howns := (h.sound.devices y e' he').2.identity
  rwa [haccepts.identity] at howns

/-- Nothing is underway where nothing is on the way. -/
theorem Introduces.underway_eq_nil : p.underway = [] ↔ w.network.queue ⟨x, y⟩ = [] := by
  rw [← h.sound.network.messages_eq_nil]
  have hlength := h.underway.length_eq
  rw [← List.length_eq_zero_iff, hlength, List.length_eq_zero_iff]

/-- A link without messages delivers nothing. -/
theorem Introduces.deliver_nil (hquiet : w.network.queue ⟨x, y⟩ = []) :
    Call.run suite (.deliver ⟨x, y⟩) w = .ok none w ∧ p.take = p := by
  refine ⟨World.deliver_nil hquiet, ?_⟩
  rw [Progress.take, h.underway_eq_nil.mpr hquiet]

end State

section Calls
variable (h : w.Introduces suite x d y e p) (hs : suite.Completes)
include h hs

/-- A device makes another offer. -/
theorem Introduces.establish (hne : x ≠ y) (hcount : p.made < 2 ^ 32) :
    (⟨w, .establishFromBundle x y⟩ : Moment).offer suite x y = some (d.nthOffer suite e p.made) ∧
      ∃ w', Call.run suite (.establishFromBundle x y) w = .ok (some .established) w' ∧
        w'.Introduces suite x d y e p.offer := by
  obtain ⟨d', hd', hmakes⟩ := h.source
  obtain ⟨e', he', haccepts⟩ := h.target
  obtain ⟨-, hsound⟩ := h.sound.devices x d' hd'
  obtain ⟨haddress, hsound'⟩ := h.sound.devices y e' he'
  have hoffer := Device.offer_eq_nthOffer hmakes haccepts
  refine ⟨by rw [Moment.offer_establish hd' he', hoffer], ?_⟩
  have hbundle : (e'.publishNext suite).1 =
      (d.nthOffer suite e p.made).bundle y.device e.party.identity.publicKey := by
    rw [← hoffer, ← haccepts.identity, ← haddress]
    rfl
  obtain ⟨thread, w', hrun, hacted⟩ := establishFromBundle_spec hs.keepsKeys h.sound hne hd' he'
  obtain ⟨o, hok, hstatus, hsent, hmakes'⟩ :=
    hmakes.useBundle hsound hs.starts h.owns_target hbundle thread
  rw [hok] at hrun hacted
  rw [sentBy, hsent] at hacted
  have hcall : Call.run suite (.establishFromBundle x y) w = _ := map_finish x _ w' some _ hrun
  refine ⟨w', ?_,
    ⟨hacted.sound, ⟨_, hacted.device, hmakes'⟩, ⟨(e'.publishNext suite).2, ?_, ?_⟩, ?_,
    h.order.offer⟩⟩
  · rw [hcall, ← hstatus]
    rfl
  · rw [hacted.others y hne.symm]
    exact SortedMap.get?_insert_self ..
  · exact haccepts.publishNext hcount h.order.taken_le_made
  · rw [hacted.messages]
    show List.Forall₂ _ p.underway (w.network.messages ⟨x, y⟩ ++ [])
    rw [List.append_nil]
    exact h.underway

/-- A device tells of its last offer, if it has made one. -/
theorem Introduces.send : ∃ w', Call.run suite (.sendFirstMessage x y) w = .ok none w' ∧
    w'.Introduces suite x d y e p.post := by
  obtain ⟨d', hd', hmakes⟩ := h.source
  obtain ⟨e', he', haccepts⟩ := h.target
  obtain ⟨-, hsound⟩ := h.sound.devices x d' hd'
  obtain ⟨m, sent, w', hfirst, hrun, hsound', hdevices, hmessages⟩ :=
    sendFirstMessage_spec h.sound hd' y
  have hcall : Call.run suite (.sendFirstMessage x y) w = .ok none w' := by
    rw [Call.run, WorldStep.bind_eq, hrun]
    rfl
  have hout := hmessages ⟨x, y⟩
  rw [if_pos rfl] at hout
  have horder := h.order.post
  unfold Progress.post at horder ⊢
  split_ifs at horder ⊢ with hnone
  · cases (hmakes.firstMessage?_zero hsound greeting hnone).symm.trans hfirst
    refine ⟨w', hcall, ⟨hsound', ⟨d', (hdevices x).trans hd', hmakes⟩,
      ⟨e', (hdevices y).trans he', haccepts⟩, ?_, horder⟩⟩
    rw [hout, Option.toList_none, List.map_nil, List.append_nil]
    exact h.underway
  · obtain ⟨i, hi⟩ := Nat.exists_eq_succ_of_ne_zero hnone
    obtain ⟨m', hm', hannounces⟩ := hmakes.firstMessage?_succ hsound hs.keepsKeys greeting hi
    cases hm'.symm.trans hfirst
    refine ⟨w', hcall, ⟨hsound', ⟨d', (hdevices x).trans hd', hmakes⟩,
      ⟨e', (hdevices y).trans he', haccepts⟩, ?_, horder⟩⟩
    rw [hout]
    refine List.rel_append h.underway (.cons ?_ .nil)
    rw [hi]
    exact hannounces

/-- The oldest message makes a session or is a duplicate. -/
theorem Introduces.deliver (hne : x ≠ y) (hcount : p.made < 2 ^ 32)
    (hbusy : w.network.queue ⟨x, y⟩ ≠ []) :
    ∃ status w', Call.run suite (.deliver ⟨x, y⟩) w = .ok (some status) w' ∧
      (status = .established ∨ status = .duplicate) ∧ w'.Introduces suite x d y e p.take := by
  obtain ⟨d', hd', hmakes⟩ := h.source
  obtain ⟨e', he', haccepts⟩ := h.target
  obtain ⟨-, hsound'⟩ := h.sound.devices y e' he'
  obtain ⟨m, ms, hms⟩ := List.exists_cons_of_ne_nil
    fun hnil => hbusy ((h.sound.network.messages_eq_nil ⟨x, y⟩).mp hnil)
  obtain ⟨i, rest, hannounces, hrest, hunderway⟩ :=
    List.forall₂_cons_right_iff.mp (hms ▸ h.underway)
  have hle := h.order.taken_le i (hunderway ▸ List.mem_cons_self)
  have hlt := h.order.lt_made i (hunderway ▸ List.mem_cons_self)
  obtain ⟨l, w', hlink, hread, -, hrun, hacted⟩ := deliver_spec hs.keepsKeys h.sound hms he'
  have hsource : l.link.source = x := congrArg Link.source hlink
  obtain ⟨o, hok, hstatus, hsent, haccepts'⟩ : ∃ o, (e'.receive suite l).1 = .ok o ∧
      (o.status = .established ∨ o.status = .duplicate) ∧ SessionAction.sent o.actions = [] ∧
      (e'.receive suite l).2.Accepts suite x d e p.made (i + 1) := by
    -- the prekey of last resort outlives its use, and makes the session once more
    by_cases hgone : i < p.taken ∧ (d.nthOffer suite e i).prekeyId ≠ e.party.lastResort
    · obtain ⟨o, hok, hstatus, hafter⟩ :=
        haccepts.receive_of_gone hs hsound' hlt hle hsource hread hannounces hgone
      exact ⟨o, hok, .inr hstatus, hafter⟩
    · obtain ⟨o, hok, hstatus, hafter⟩ := haccepts.receive_of_held hs hsound' hlt hle hsource hread
        hannounces h.owns_source hcount hgone
      exact ⟨o, hok, .inl hstatus, hafter⟩
  rw [hok] at hrun hacted
  rw [sentBy, hsent] at hacted
  have horder := h.order.take
  have htake : p.take = { p with underway := rest, taken := i + 1 } := by
    rw [Progress.take, hunderway]
  rw [htake] at horder ⊢
  refine ⟨o.status, w', hrun, hstatus, ⟨hacted.sound, ⟨d', (hacted.others x hne).trans hd', hmakes⟩,
    ⟨_, hacted.device, haccepts'⟩, ?_, horder⟩⟩
  rw [hacted.messages_of_pop h.sound hms, if_pos rfl]
  show List.Forall₂ _ rest (ms ++ [])
  rw [List.append_nil]
  exact hrest

end Calls

end World

end SecureSession
