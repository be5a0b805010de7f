import SecureSession.Proofs.Simulation.Exchanges

/-! # What calls add

Whatever is under way or on the way after a call was so before, or is of the call's making: a device
has opened the exchange, has sent an initiate for it, or has answered an initiate and holds the
session of the two (`World.Call.grows`). -/

namespace SecureSession

namespace World

/-- The exchange that a device has under way with another. -/
def pending? (w : World) (x y : Address) : Option PendingExchange :=
  (w.devices.get? x).bind fun d => (d.contents.record y).pending

/-- Whether a device holds a live session with another. -/
def Holds (w : World) (x y : Address) (s : SessionState) : Prop :=
  ∃ r, w.session x y = .ok r ∧ r.current = some s

section Devices
variable {suite : Suite} {w : World} {x y : Address} {d : Device}

theorem pending?_eq (hd : w.devices.get? x = some d) (y : Address) :
    w.pending? x y = (d.contents.record y).pending := by
  rw [pending?, hd]
  rfl

theorem holds_of_current (h : w.IsSound suite) (hd : w.devices.get? x = some d) {s : SessionState}
    (hs : (d.contents.record y).current = some s) : w.Holds x y s :=
  ⟨_, session_eq h hd y, hs⟩

end Devices

/-! ### Growth -/

/-- Whether all exchanges under way and all messages on the way in a world are so in another, or of
the given kinds. -/
structure Grows (opens : Address → Address → PendingExchange → Prop)
    (sends : Link → HandshakeMessage → Prop) (w w' : World) : Prop where
  pending : ∀ x y q, w'.pending? x y = some q → w.pending? x y = some q ∨ opens x y q
  messages : ∀ l m, m ∈ w'.network.messages l → m ∈ w.network.messages l ∨ sends l m

section Grows
variable {suite : Suite} {opens : Address → Address → PendingExchange → Prop}
  {sends : Link → HandshakeMessage → Prop} {w w' w'' : World} {a : Address} {d : Device}

theorem Grows.refl (w : World) : Grows opens sends w w := ⟨fun _ _ _ => .inl, fun _ _ => .inl⟩

theorem Grows.trans (h : Grows opens sends w w') (h' : Grows opens sends w' w'') :
    Grows opens sends w w'' where
  pending x y q hq := (h'.pending x y q hq).elim (h.pending x y q) .inr
  messages l m hm := (h'.messages l m hm).elim (h.messages l m) .inr

theorem Same.grows (h : w.Same w') : Grows opens sends w w' where
  pending x y q hq := by
    rw [pending?, h.devices] at hq
    exact .inl hq
  messages l m hm := by
    rw [h.network] at hm
    exact .inl hm

theorem grows_setDevice (hd : ∀ y q, (d.contents.record y).pending = some q →
    w.pending? a y = some q ∨ opens a y q) : Grows opens sends w (w.setDevice a d) where
  pending x y q hq := by
    rw [pending?, setDevice, SortedMap.get?_insert] at hq
    split at hq
    · subst x
      exact hd y q hq
    · exact .inl hq
  messages _ _ := .inl

theorem Acted.grows {sent : List (Address × HandshakeMessage)} (h : Acted suite a d sent w w')
    (hd : ∀ y q, (d.contents.record y).pending = some q → w.pending? a y = some q ∨ opens a y q)
    (hsent : ∀ x ∈ sent, sends ⟨a, x.1⟩ x.2) : Grows opens sends w w' where
  pending x y q hq := by
    by_cases hx : x = a
    · subst hx
      rw [pending?_eq h.device] at hq
      exact hd y q hq
    · rw [pending?, h.others x hx] at hq
      exact .inl hq
  messages l m hm := by
    rw [h.messages] at hm
    rcases List.mem_append.mp hm with hm | hm
    · exact .inl hm
    · obtain ⟨x, hx, hlink⟩ := List.mem_filterMap.mp hm
      split at hlink
      · cases hlink
        subst l
        exact .inr (hsent x hx)
      · cases hlink

theorem grows_pop (h : w.IsSound suite) (l : Link) : Grows opens sends w (w.pop l) where
  pending _ _ _ := .inl
  messages l' m hm := by
    refine .inl ?_
    rcases hms : w.network.messages l with _ | ⟨m', ms⟩
    · rw [pop, Network.deliver_nil ((h.network.messages_eq_nil l).mp hms)] at hm
      exact hm
    · rw [pop, Network.messages_deliver h.network hms] at hm
      split at hm
      · subst l'
        rw [hms]
        exact List.mem_cons_of_mem _ hm
      · exact hm

theorem ending_finish {α : Type} (a : Address) (r : Except SessionError α) (w : World) :
    ending (finish a r w) = w := by
  cases r <;> rfl

/-- A device that takes the place of one that has all its exchanges under way. -/
theorem grows_setDevice_of_opensNone {d' : Device} (hd : w.devices.get? a = some d)
    (hnone : d.contents.OpensNone d'.contents) : Grows opens sends w (w.setDevice a d') :=
  grows_setDevice fun y q hq => .inl (by rw [pending?_eq hd]; exact hnone y q hq)

theorem grows_useDevice {α : Type} {f : Device → α × Device}
    (hf : ∀ d : Device, d.contents.OpensNone (f d).2.contents) :
    Grows opens sends w (ending (useDevice a f w)) := by
  cases hd : w.devices.get? a with
  | none => rw [useDevice_unknown hd]; exact .refl w
  | some d => rw [useDevice_eq hd]; exact grows_setDevice_of_opensNone hd (hf d)

theorem grows_onDevice {α : Type} (h : w.IsSound suite)
    {f : Device → Except SessionError α × Device}
    (hf : ∀ d : Device, d.IsSound suite → d.contents.OpensNone (f d).2.contents) :
    Grows opens sends w (ending (onDevice a f w)) := by
  cases hd : w.devices.get? a with
  | none => rw [onDevice_unknown hd]; exact .refl w
  | some d =>
    rw [onDevice_eq hd, ending_finish]
    exact grows_setDevice_of_opensNone hd (hf d (h.devices a d hd).2)

end Grows

/-! ### What a call sends -/

/-- Whether a device takes in an initiate of another, answers it with an exchange and holds the
session of the two. -/
structure Moment.Answers (suite : Suite) (m : Moment) (x y : Address) (i : KeyExchangeMessage)
    (q : PendingExchange) : Prop where
  taken : m.initiate? x y = some i
  status : m.answer suite = some .established
  sound : q.IsSound suite
  sequence : q.sequence = i.sequence
  session : ∃ ratchet, suite.initialState (Party.exchangeParameters q i) = .ok ratchet ∧
    (m.after suite).Holds x y (.fresh q.identity.publicKey i.identityKey ratchet)

/-- The messages that the call of a moment puts on a link. -/
inductive Moment.Sends (suite : Suite) (m : Moment) (l : Link) : HandshakeMessage → Prop
  | initiate {q : PendingExchange} (h : m.opening suite l.source l.target = some q) :
    Sends suite m l (.initiate (q.leg .initiate))
  | response {i : KeyExchangeMessage} {q : PendingExchange} {flags : ExchangeFlags}
    (h : m.Answers suite l.source l.target i q) : Sends suite m l (.response (q.leg flags))
  | bundle {b : PreKeyMessage} : Sends suite m l (.bundle b)

section Calls
variable {suite : Suite} {w : World}

/-- Whether a world grows by what a call opens and sends. -/
def Call.Adds (suite : Suite) (w : World) (c : Call) (w' : World) : Prop :=
  Grows (fun x y q => (⟨w, c⟩ : Moment).opening suite x y = some q) (Moment.Sends suite ⟨w, c⟩) w w'

theorem adds_initiate (h : w.IsSound suite) (source target : Address) :
    Call.Adds suite w (.initiate source target) (ending (initiate suite source target w)) := by
  cases hd : w.devices.get? source with
  | none =>
    obtain ⟨id, w₁, hthread, hsame⟩ := threadId_spec source.name target.name w
    rw [initiate_eq source target hthread, act_unknown (by rw [hsame.devices]; exact hd)]
    exact hsame.grows
  | some d =>
    obtain ⟨thread, w', hrun, hacted⟩ := initiate_spec h target hd
    have hopening : (⟨w, .initiate source target⟩ : Moment).opening suite source target =
      some (d.party.opening suite) := Moment.opening_initiate hd
    have hcomes := Device.comes_initiate (h.devices source d hd).2 target thread
    rw [hrun, ending_finish]
    refine hacted.grows (fun y q hq => ?_) fun x hx => ?_
    · rw [pending?_eq hd]
      rcases hcomes.contents_cases with hcontents | hcontents <;> rw [hcontents] at hq
      · exact .inl hq
      · by_cases hy : y = target
        · subst hy
          rw [Party.opened, Contents.record_put_self] at hq
          cases hq
          exact .inr hopening
        · rw [Party.opened, Contents.record_put_of_ne _ hy] at hq
          exact .inl hq
    · obtain ⟨f, hf, hx⟩ := mem_sentBy hcomes hx
      cases hf
      rw [Party.opened, List.mem_singleton] at hx
      subst hx
      exact .initiate hopening

theorem adds_deliver (hs : suite.KeepsKeys) (h : w.IsSound suite) (l : Link) :
    Call.Adds suite w (.deliver l) (ending (deliver suite l w)) := by
  rcases hms : w.network.messages l with _ | ⟨m, ms⟩
  · rw [deliver_nil ((h.network.messages_eq_nil l).mp hms)]
    exact .refl w
  obtain ⟨e, rest, hq, -⟩ := h.network.queue_of_messages hms
  refine (grows_pop h l).trans ?_
  cases hd : w.devices.get? l.target with
  | none => rw [deliver_unknown hq hd]; exact .refl _
  | some d =>
    have hsound := (h.devices _ d hd).2
    obtain ⟨f, r, d', w', htakes, hcomes, hrun, hacted⟩ := takes_spec hs h hms hd
    rw [hrun, ending_finish]
    have hnone : d.contents.OpensNone d'.contents := hcomes.opensNone fun f' hf => by
      subst hf
      exact htakes.opensNone
    refine hacted.grows (fun y q hq => .inl ?_) fun x hx => ?_
    · rw [pending?_eq (w := w.pop l) hd]
      exact hnone y q hq
    -- only a device that is not struck sends an answer, and it has made the session then
    cases hcomes with
    | refused | struck => cases hx
    | @done f o d' keeps contents status sent =>
      rw [sentBy, sent] at hx
      cases htakes with
      | @answered i q ratchet now hq hratchet =>
        rw [List.mem_singleton] at hx
        subst hx hq
        have hrun' : Call.run suite (.deliver l) w = .ok (some o.status) w' := hrun
        refine .response ⟨Moment.initiate?_deliver hms, ?_, ?_, ?_, ratchet, hratchet, ?_⟩
        · rw [Moment.answer, hrun']
          exact congrArg some status
        · exact Party.isSound_answer hsound.identity (hsound.contents.record l.source).pending
            i.sequence
        · cases (d.contents.record l.source).pending <;> rfl
        · rw [Moment.after, World.after, hrun']
          refine holds_of_current hacted.sound hacted.device ?_
          rw [contents, Contents.complete, Contents.current_install_self]
      | completed | stale | duplicate | built | legacy => cases hx

/-! ### Calls that open and answer nothing -/

section Plain
variable {opens : Address → Address → PendingExchange → Prop}
  {sends : Link → HandshakeMessage → Prop}

theorem grows_establishFromBundle (hs : suite.KeepsKeys) (h : w.IsSound suite)
    (source target : Address) :
    Grows opens sends w (ending (establishFromBundle suite source target w)) := by
  obtain ⟨id, w₁, hthread, hsame⟩ := threadId_spec source.name target.name w
  refine hsame.grows.trans ?_
  have h₁ := hsame.isSound h
  cases ht : w₁.devices.get? target with
  | none =>
    simp only [establishFromBundle, WorldStep.bind_eq, hthread, useDevice_unknown ht]
    exact .refl w₁
  | some d =>
    rw [establishFromBundle_eq source target hthread ht]
    have hpublish : d.contents.OpensNone (d.publishNext suite).2.contents := fun _ _ hq => hq
    refine (grows_setDevice_of_opensNone ht hpublish).trans ?_
    cases hd : (w₁.setDevice target (d.publishNext suite).2).devices.get? source with
    | none => rw [act_unknown hd]; exact .refl _
    | some e =>
      obtain ⟨f, r, e', w', huses, hcomes, hact, hacted, -⟩ := useBundle_spec hs h₁ ht hd id
      rw [hact, ending_finish]
      refine hacted.grows (fun y q hq => .inl ?_) fun x hx => ?_
      · rw [pending?_eq hd]
        refine hcomes.opensNone (fun f' hf => ?_) y q hq
        subst hf
        exact huses.opensNone
      · obtain ⟨f', hf, hx⟩ := mem_sentBy hcomes hx
        subst hf
        cases huses
        cases hx

theorem grows_sendFirstMessage (h : w.IsSound suite) (source target : Address)
    (hsends : ∀ b, sends ⟨source, target⟩ (.bundle b)) :
    Grows opens sends w (ending (sendFirstMessage source target w)) := by
  obtain ⟨id, w₁, hthread, hsame⟩ := threadId_spec source.name target.name w
  have h₁ := hsame.isSound h
  refine hsame.grows.trans ?_
  simp only [sendFirstMessage, WorldStep.bind_eq, hthread]
  cases hd : w₁.devices.get? source with
  | none => rw [onDevice_unknown hd]; exact .refl w₁
  | some d =>
    obtain ⟨m, hfirst, hm⟩ :=
      Device.firstMessage?_spec (h₁.devices source d hd).2 target length_greeting
    rw [onDevice_eq hd, hfirst]
    have hset : Grows opens sends w₁ (w₁.setDevice source d) :=
      grows_setDevice_of_opensNone hd fun _ _ hq => hq
    refine hset.trans ?_
    cases m with
    | none => exact .refl _
    | some m =>
      obtain ⟨payload, hencode, hdecode⟩ := HandshakeMessage.decode_encode (hm m rfl).sendable
      cases hencode
      refine ⟨fun _ _ _ => .inl, fun l m' hm' => ?_⟩
      have hmem : m' ∈ ((w₁.setDevice source d).network.send
        ⟨⟨source, target⟩, id, .prekey, m.encode⟩).messages l := hm'
      rw [Network.messages_send _ hdecode] at hmem
      split at hmem
      · subst l
        rcases List.mem_append.mp hmem with hmem | hmem
        · exact .inl hmem
        · rw [List.mem_singleton.mp hmem]
          exact .inr (hsends m)
      · exact .inl hmem

theorem grows_rotateIdentity (w : World) (name : String) :
    Grows opens sends w (ending (rotateIdentity suite name w)) := by
  obtain ⟨identity, w₁, hdraw, hsame, -⟩ := drawIdentity_spec suite w
  rw [rotateIdentity, WorldStep.bind_eq, hdraw]
  refine hsame.grows.trans ?_
  have hfold : ∀ (l : List Address) (w : World), Grows opens sends w (l.foldl (fun w a =>
      { w with devices := w.devices.modify a (·.rotateIdentity identity) }) w) := by
    intro l
    induction l with
    | nil => exact .refl
    | cons a l ih =>
      intro w
      have hstep : Grows opens sends w { w with
          devices := w.devices.modify a (·.rotateIdentity identity) } := by
        refine ⟨fun x y q hq => .inl ?_, fun _ _ => .inl⟩
        rw [pending?, SortedMap.get?_modify] at hq
        split at hq
        · subst x
          rw [pending?]
          cases hd : w.devices.get? a with
          | none => rw [hd] at hq; cases hq
          | some d => rw [hd] at hq; exact hq
        · exact hq
      exact hstep.trans (ih _)
  exact hfold _ w₁

theorem grows_addDevice (w : World) (identity : KeyPair) (a : Address) :
    Grows opens sends w (ending (addDevice identity a w)) := by
  have hset : Grows opens sends w
      (w.setDevice a (.create a w.environment.fork.1 w.config identity)) :=
    grows_setDevice fun y q hq => by cases hq
  exact ⟨hset.pending, hset.messages⟩

theorem grows_addAccount (w : World) (name : String) (devices : Nat) :
    Grows opens sends w (ending (addAccount suite name devices w)) := by
  obtain ⟨identity, w₁, hdraw, hsame, -⟩ := drawIdentity_spec suite w
  have hforM : ∀ (l : List Address) (w : World),
      Grows opens sends w (ending (l.forM (addDevice identity) w)) := by
    intro l
    induction l with
    | nil => exact .refl
    | cons a l ih => exact fun w => (grows_addDevice w identity a).trans (ih _)
  refine hsame.grows.trans ?_
  simp only [addAccount, WorldStep.bind_eq, hdraw]
  have hall := hforM ((List.range (max 1 devices)).map fun i => ⟨name, UInt32.ofNat (i + 1)⟩) w₁
  split <;> rename_i heq <;> rw [heq] at hall <;> exact hall

end Plain

/-! ### Every call -/

/-- Whatever is under way or on the way after a call was so before, or is of
the making of the call. -/
theorem Call.grows (hs : suite.KeepsKeys) (h : w.IsSound suite) (c : Call) :
    c.Adds suite w (w.after suite c) := by
  rw [World.after]
  cases c with
  | addAccount name devices =>
    rw [Call.run, ending_map]
    exact grows_addAccount w name devices
  | threadId a b =>
    obtain ⟨id, w', hthread, hsame⟩ := threadId_spec a b w
    rw [Call.run, ending_map, hthread]
    exact hsame.grows
  | establishFromBundle source target =>
    rw [Call.run, ending_map]
    exact grows_establishFromBundle hs h source target
  | sendFirstMessage source target =>
    rw [Call.run, ending_map]
    exact grows_sendFirstMessage h source target fun _ => .bundle
  | acknowledge source target =>
    rw [Call.run, ending_map]
    exact grows_onDevice h fun d hd => (Device.acknowledge_spec hd target).2.2.1
  | initiate source target =>
    rw [Call.run, ending_map]
    exact adds_initiate h source target
  | deliver l => exact adds_deliver hs h l
  | rotateIdentity name =>
    rw [Call.run, ending_map]
    exact grows_rotateIdentity w name
  | failNextCommit a =>
    rw [Call.run, ending_map]
    exact grows_useDevice fun _ _ _ hq => hq
  | advance milliseconds =>
    refine Same.grows ?_
    exact ⟨rfl, rfl, rfl⟩

end Calls

end World

end SecureSession
