import SecureSession.Proofs.Simulation.Call

/-! # Calls keep worlds sound

Every call on a sound world ends as `World.Ends` says, with the devices that the call touches and
needs (`World.Call.ends`). -/

namespace SecureSession.World

variable {suite : Suite} {touches needs : Address → Prop} {w : World}

/-! ### Steps of a handshake -/

theorem ends_map {α β : Type} {x : WorldStep α} (f : α → β) (h : Ends suite touches needs w (x w)) :
    Ends suite touches needs w ((do return f (← x) : WorldStep β) w) := by
  have hbind := WorldStep.bind_eq x (fun a => (pure (f a) : WorldStep β)) w
  refine h.of_eq ?_ fun e w' he => ?_
  · rw [hbind]; cases x w <;> rfl
  · rw [hbind] at he
    cases hx : x w with
    | ok a w => rw [hx] at he; cases he
    | error e w => rw [hx] at he; cases he; rfl

theorem ends_initiate (h : w.IsSound suite) (source target : Address) :
    Ends suite (· = source) (fun a => a = source ∨ a = target) w
      (initiate suite source target w) := by
  cases hd : w.devices.get? source with
  | none =>
    obtain ⟨id, w₁, hthread, hsame⟩ := threadId_spec source.name target.name w
    rw [initiate_eq source target hthread, act_unknown (by rw [hsame.devices]; exact hd)]
    exact (ends_unknown (hsame.isSound h) (.inl rfl)
      (by rw [hsame.devices]; exact hd)).of_same hsame
  | some d =>
    have hsound := (h.devices source d hd).2
    obtain ⟨thread, w', heq, hacted⟩ := initiate_spec h target hd
    have hcomes := Device.comes_initiate hsound target thread
    rw [heq]
    refine hacted.ends (fun e he => ?_) rfl fun x hx => ⟨.inl rfl, .inr ?_⟩
    · exact (Device.succeeds_initiate hsound target thread).fails e (error_of_map_status he)
    · obtain ⟨f, hf, hx⟩ := mem_sentBy hcomes hx
      cases hf
      rw [Party.opened, List.mem_singleton] at hx
      rw [hx]

/-- The answer to a message goes back where the message came from. -/
theorem recipient_of_takes {p : Party} {c : Contents} {a : Address} {m : HandshakeMessage}
    {f : Effect} (h : p.Takes suite c a m (.ok f)) {x : Address × HandshakeMessage}
    (hx : x ∈ f.sent) : x.1 = a := by
  cases h with
  | answered =>
    rw [List.mem_singleton] at hx
    rw [hx]
  | completed | stale | duplicate | built | legacy => cases hx

theorem ends_deliver (hs : suite.KeepsKeys) (h : w.IsSound suite) (l : Link) :
    Ends suite (· = l.target) (fun a => l ∈ w.network.busyLinks ∧ (a = l.source ∨ a = l.target)) w
      (deliver suite l w) := by
  cases hq : w.network.queue l with
  | nil =>
    rw [deliver_nil hq]
    exact ends_same h ⟨rfl, rfl, rfl⟩ none
  | cons e rest =>
    have hbusy : l ∈ w.network.busyLinks :=
      Network.mem_busyLinks_of_queue (hq ▸ List.cons_ne_nil e rest)
    obtain ⟨-, m, hread, hm⟩ := h.network l e (by rw [hq]; exact List.mem_cons_self)
    have hms := Network.messages_of_queue hq hread
    -- to take the message off changes nothing but the link, which goes to the device touched
    have hpop : Ends suite (· = l.target)
        (fun a => l ∈ w.network.busyLinks ∧ (a = l.source ∨ a = l.target)) w
          (.ok () (w.pop l)) := by
      refine ⟨isSound_pop h l, fun _ _ he => (nomatch he), fun _ ha => ha, fun _ _ => rfl,
        fun l' _ ht => ?_, fun l' hl => ?_⟩
      · refine (Network.messages_deliver h.network hms l').trans (if_neg fun hl => ht ?_)
        rw [hl]
      · exact .inl (Network.mem_busyLinks_deliver hl)
    refine hpop.trans ?_
    cases hd : w.devices.get? l.target with
    | none =>
      rw [deliver_unknown hq hd]
      exact ends_unknown (isSound_pop h l) ⟨hbusy, .inr rfl⟩ hd
    | some d =>
      have hsound := (h.devices _ d hd).2
      obtain ⟨e, w', hlink, hread, hm, heq, hacted⟩ := deliver_spec hs h hms hd
      obtain ⟨f, htakes, hcomes⟩ := Device.comes_receive hsound hread hm
      rw [heq]
      refine hacted.ends (fun error he => ?_) rfl fun x hx => ⟨⟨hbusy, .inr rfl⟩, hbusy, .inl ?_⟩
      · refine (Device.succeeds_receive hsound hs hread hm).fails error (error_of_map_status ?_)
        cases hr : (d.receive suite e).1 with
        | ok o => rw [hr] at he; cases he
        | error e' => rw [hr] at he; exact congrArg _ (Except.error.inj he)
      · obtain ⟨f', hf, hx⟩ := mem_sentBy hcomes hx
        subst hf
        rw [recipient_of_takes htakes hx, hlink]

/-! ### Calls that send nothing -/

theorem ends_setDevice (h : w.IsSound suite) {a : Address} {d : Device} (haddress : d.address = a)
    (hd : d.IsSound suite) {α : Type} (x : α) :
    Ends suite (· = a) needs w (.ok x (w.setDevice a d)) :=
  (acted_setDevice h haddress hd).ends (r := .ok x) (fun _ he => nomatch he) rfl
    fun _ hx => nomatch hx

theorem ends_useDevice {α : Type} (h : w.IsSound suite) {a : Address} (hneeds : needs a)
    {f : Device → α × Device}
    (hf : ∀ d : Device, d.IsSound suite → (f d).2.address = d.address ∧ (f d).2.IsSound suite) :
    Ends suite (· = a) needs w (useDevice a f w) := by
  cases hd : w.devices.get? a with
  | none =>
    rw [useDevice_unknown hd]
    exact ends_unknown h hneeds hd
  | some d =>
    obtain ⟨haddress, hsound⟩ := h.devices a d hd
    rw [useDevice_eq hd]
    exact ends_setDevice h ((hf d hsound).1.trans haddress) (hf d hsound).2 _

theorem ends_onDevice {α : Type} (h : w.IsSound suite) {a : Address} (hneeds : needs a)
    {f : Device → Except SessionError α × Device}
    (hf : ∀ d : Device, d.IsSound suite → (f d).2.address = d.address ∧ (f d).2.IsSound suite ∧
      ∀ e, (f d).1 = .error e → e.IsExplained suite) :
    Ends suite (· = a) needs w (onDevice a f w) := by
  cases hd : w.devices.get? a with
  | none =>
    rw [onDevice_unknown hd]
    exact ends_unknown h hneeds hd
  | some d =>
    obtain ⟨haddress, hsound⟩ := h.devices a d hd
    obtain ⟨hkept, hafter, hfails⟩ := hf d hsound
    rw [onDevice_eq hd]
    exact (acted_setDevice h (hkept.trans haddress) hafter).ends hfails rfl fun _ hx => nomatch hx

theorem ends_rotateIdentity (h : w.IsSound suite) (name : String) :
    Ends suite (·.name = name) needs w (rotateIdentity suite name w) := by
  obtain ⟨identity, w₁, hdraw, hsame, hown⟩ := drawIdentity_spec suite w
  rw [rotateIdentity, WorldStep.bind_eq, hdraw]
  refine Ends.of_same hsame ?_
  have h₁ := hsame.isSound h
  have hfold : ∀ (l : List Address), (∀ a ∈ l, a.name = name) → ∀ w : World, w.IsSound suite →
      Ends suite (·.name = name) needs w (.ok () (l.foldl (fun w a =>
        { w with devices := w.devices.modify a (·.rotateIdentity identity) }) w)) := by
    intro l
    induction l with
    | nil => exact fun _ w h => ends_same h ⟨rfl, rfl, rfl⟩ ()
    | cons a l ih =>
      intro hl w h
      have hstep : Ends suite (·.name = name) needs w
          (.ok () { w with devices := w.devices.modify a (·.rotateIdentity identity) }) := by
        cases hd : w.devices.get? a with
        | none =>
          have hmodify : w.devices.modify a (·.rotateIdentity identity) = w.devices := by
            rw [SortedMap.modify, hd]
          rw [hmodify]
          exact ends_same h ⟨rfl, rfl, rfl⟩ ()
        | some d =>
          have hmodify : w.devices.modify a (·.rotateIdentity identity) =
              w.devices.insert a (d.rotateIdentity identity) := by
            rw [SortedMap.modify, hd]
          rw [hmodify]
          obtain ⟨haddress, hsound⟩ := h.devices a d hd
          have hset : Ends suite (· = a) needs w
              (.ok () (w.setDevice a (d.rotateIdentity identity))) :=
            ends_setDevice h (d := d.rotateIdentity identity) haddress
              (hsound.rotateIdentity hown) ()
          exact hset.mono (fun b hb => by rw [hb]; exact hl a List.mem_cons_self) fun _ hn => hn
      exact hstep.trans (ih (fun b hb => hl b (List.mem_cons_of_mem _ hb)) _ hstep.sound)
  refine hfold _ (fun a ha => ?_) w₁ h₁
  simpa using (List.mem_filter.mp ha).2

/-! ### Bundles and first messages -/

theorem ends_establishFromBundle (hs : suite.KeepsKeys) (h : w.IsSound suite)
    (source target : Address) :
    Ends suite (fun a => a = source ∨ a = target) (fun a => a = source ∨ a = target) w
      (establishFromBundle suite source target w) := by
  obtain ⟨id, w₁, hthread, hsame⟩ := threadId_spec source.name target.name w
  have h₁ := hsame.isSound h
  refine Ends.of_same hsame ?_
  cases ht : w₁.devices.get? target with
  | none =>
    simp only [establishFromBundle, WorldStep.bind_eq, hthread, useDevice_unknown ht]
    exact ends_unknown h₁ (.inr rfl) ht
  | some d =>
    rw [establishFromBundle_eq source target hthread ht]
    obtain ⟨haddress, hsound⟩ := h₁.devices target d ht
    have hpublish : Ends suite (fun a => a = source ∨ a = target)
        (fun a => a = source ∨ a = target) w₁
        (.ok () (w₁.setDevice target (d.publishNext suite).2)) :=
      (ends_setDevice h₁ (d := (d.publishNext suite).2) haddress hsound.publishNext ()).mono
        (fun _ => .inr) fun _ hn => hn
    refine hpublish.trans ?_
    have h₂ : (w₁.setDevice target (d.publishNext suite).2).IsSound suite := hpublish.sound
    cases hd : (w₁.setDevice target (d.publishNext suite).2).devices.get? source with
    | none =>
      rw [act_unknown hd]
      exact ends_unknown h₂ (.inl rfl) hd
    | some e =>
      obtain ⟨f, r, e', w', huses, hcomes, hact, hacted, hfails⟩ := useBundle_spec hs h₁ ht hd id
      rw [hact]
      refine hacted.ends (fun error herror => hfails error (error_of_map_status herror)) (.inl rfl)
        fun x hx => ?_
      obtain ⟨f', hf, hx⟩ := mem_sentBy hcomes hx
      subst hf
      cases huses
      cases hx

theorem length_greeting : greeting.length < 2 ^ 62 := by decide

/-- A sound message put on its link. -/
theorem ends_send (h : w.IsSound suite) {l : Link} {m : PreKeyMessage}
    (hm : (HandshakeMessage.bundle m).IsSound suite) (thread : UInt64) {α : Type} (x : α) :
    Ends suite (· = l.source) (fun a => a = l.source ∨ a = l.target) w
      (.ok x { w with network := w.network.send ⟨l, thread, .prekey, m.encode⟩ }) := by
  obtain ⟨payload, hencode, hdecode⟩ := HandshakeMessage.decode_encode hm.sendable
  cases hencode
  refine ⟨⟨h.devices, ?_, h.outbox⟩, fun _ _ he => (nomatch he), fun _ ha => ha, fun _ _ => rfl,
    fun l' hl _ => ?_, fun l' hl => ?_⟩
  · have hall : ∀ e ∈ [(⟨l, thread, .prekey, m.encode⟩ : Envelope)], ∃ m,
        HandshakeMessage.decode e.kind e.payload = .ok m ∧ m.IsSound suite := by
      intro e he
      rw [List.mem_singleton.mp he]
      exact ⟨_, hdecode, hm⟩
    exact h.network.sendAll hall
  · have hne : l' ≠ l := fun heq => hl (congrArg Link.source heq)
    rw [ending, Network.messages_send _ hdecode, if_neg hne]
  · rcases Network.mem_busyLinks_send hl with rfl | hl
    · exact .inr ⟨.inl rfl, .inr rfl⟩
    · exact .inl hl

/-- The first message on the session with a peer goes on its link, if there is one. -/
theorem sendFirstMessage_spec (h : w.IsSound suite) {x : Address} {d : Device}
    (hd : w.devices.get? x = some d) (y : Address) :
    ∃ m sent w', d.firstMessage? y greeting = .ok m ∧ sendFirstMessage x y w = .ok sent w' ∧
      w'.IsSound suite ∧ (∀ a, w'.devices.get? a = w.devices.get? a) ∧
      ∀ l, w'.network.messages l = w.network.messages l ++
        if l = ⟨x, y⟩ then m.toList.map .bundle else [] := by
  obtain ⟨id, w₁, hthread, hsame⟩ := threadId_spec x.name y.name w
  have h₁ := hsame.isSound h
  have hd₁ : w₁.devices.get? x = some d := by rw [hsame.devices]; exact hd
  obtain ⟨haddress, hsound⟩ := h₁.devices x d hd₁
  obtain ⟨m, hfirst, hm⟩ := Device.firstMessage?_spec hsound y length_greeting
  have hdevices : ∀ a, (w₁.setDevice x d).devices.get? a = w.devices.get? a := by
    intro a
    rw [setDevice, SortedMap.get?_insert]
    split_ifs with ha
    · rw [ha, hd]
    · rw [hsame.devices]
  have hrun : sendFirstMessage x y w = _ := WorldStep.bind_eq _ _ _
  rw [hthread] at hrun
  simp only [WorldStep.bind_eq, onDevice_eq hd₁, hfirst] at hrun
  cases m with
  | none =>
    refine ⟨none, false, _, hfirst, hrun, (h₁.setDevice haddress hsound), hdevices, fun l => ?_⟩
    rw [setDevice]
    simp [hsame.network]
  | some m =>
    have hset := h₁.setDevice haddress hsound
    have hsound' := (ends_send (l := ⟨x, y⟩) hset (hm m rfl) id true).sound
    obtain ⟨payload, hencode, hdecode⟩ := HandshakeMessage.decode_encode (hm m rfl).sendable
    cases hencode
    refine ⟨some m, true, _, hfirst, hrun, hsound', hdevices, fun l => ?_⟩
    refine (Network.messages_send _ hdecode l).trans ?_
    rw [setDevice, hsame.network]
    by_cases hl : l = ⟨x, y⟩ <;> simp [hl]

theorem ends_sendFirstMessage (h : w.IsSound suite) (source target : Address) :
    Ends suite (· = source) (fun a => a = source ∨ a = target) w
      (sendFirstMessage source target w) := by
  obtain ⟨id, w₁, hthread, hsame⟩ := threadId_spec source.name target.name w
  have h₁ := hsame.isSound h
  refine Ends.of_same hsame ?_
  simp only [sendFirstMessage, WorldStep.bind_eq, hthread]
  cases hd : w₁.devices.get? source with
  | none =>
    rw [onDevice_unknown hd]
    exact ends_unknown h₁ (.inl rfl) hd
  | some d =>
    obtain ⟨haddress, hsound⟩ := h₁.devices source d hd
    obtain ⟨m, hfirst, hm⟩ := Device.firstMessage?_spec hsound target length_greeting
    rw [onDevice_eq hd, hfirst]
    have hset : Ends suite (· = source) (fun a => a = source ∨ a = target) w₁
        (.ok () (w₁.setDevice source d)) := ends_setDevice h₁ haddress hsound ()
    refine hset.trans ?_
    cases m with
    | none => exact ends_same hset.sound ⟨rfl, rfl, rfl⟩ false
    | some m => exact ends_send (l := ⟨source, target⟩) hset.sound (hm m rfl) id true

/-! ### Accounts -/

theorem ends_addDevice (h : w.IsSound suite) {identity : KeyPair} (hi : suite.Owns identity)
    (a : Address) : Ends suite (· = a) needs w (addDevice identity a w) := by
  have hset : Ends suite (· = a) needs w (.ok () (w.setDevice a
      (.create a w.environment.fork.1 w.config identity))) :=
    ends_setDevice h (d := .create a w.environment.fork.1 w.config identity) rfl
      (Device.isSound_create a _ _ hi) ()
  refine ⟨⟨hset.sound.devices, hset.sound.network, fun b => ?_⟩, fun _ _ he => (nomatch he),
    hset.registered, hset.device, hset.messages, hset.busy⟩
  show (((w.recordings.insert a .empty).get? b).getD .empty).outbox = []
  rw [SortedMap.get?_insert]
  split
  · rfl
  · exact h.outbox b

theorem ends_forM_addDevice {identity : KeyPair} (hi : suite.Owns identity) {name : String} :
    ∀ (l : List Address), (∀ a ∈ l, a.name = name) → ∀ {w : World}, w.IsSound suite →
      Ends suite (·.name = name) needs w (l.forM (addDevice identity) w) ∧
        ∃ w', l.forM (addDevice identity) w = .ok () w'
  | [], _, w, h => ⟨ends_same h ⟨rfl, rfl, rfl⟩ (), w, rfl⟩
  | a :: l, hl, w, h => by
    have hstep : Ends suite (·.name = name) needs w (addDevice identity a w) :=
      (ends_addDevice h hi a).mono (fun b hb => by rw [hb]; exact hl a List.mem_cons_self)
        fun _ hn => hn
    obtain ⟨hends, w', hrest⟩ := ends_forM_addDevice hi l
      (fun b hb => hl b (List.mem_cons_of_mem _ hb)) hstep.sound
    exact ⟨hstep.trans hends, w', hrest⟩

/-- Accounts can always be registered. -/
theorem ends_addAccount (h : w.IsSound suite) (name : String) (devices : Nat) :
    Ends suite (·.name = name) needs w (addAccount suite name devices w) ∧
      ∃ l w', addAccount suite name devices w = .ok l w' := by
  obtain ⟨identity, w₁, hdraw, hsame, hown⟩ := drawIdentity_spec suite w
  have hnames : ∀ a ∈ (List.range (max 1 devices)).map fun i =>
      (⟨name, UInt32.ofNat (i + 1)⟩ : Address), a.name = name := by
    intro a ha
    obtain ⟨i, -, rfl⟩ := List.mem_map.mp ha
    rfl
  have hforM : Ends suite (·.name = name) needs w₁ _ ∧ _ :=
    ends_forM_addDevice hown _ hnames (hsame.isSound h)
  obtain ⟨hends, w', hrest⟩ := hforM
  obtain ⟨l, hadd⟩ : ∃ l, addAccount suite name devices w = .ok l w' := by
    refine ⟨(List.range (max 1 devices)).map fun i => ⟨name, UInt32.ofNat (i + 1)⟩, ?_⟩
    simp only [addAccount, WorldStep.bind_eq, hdraw, hrest]
    rfl
  refine ⟨Ends.of_same hsame (hends.of_eq ?_ fun e v he => ?_), l, w', hadd⟩
  · rw [hadd, hrest]; rfl
  · rw [hadd] at he; cases he

/-! ### Every call -/

/-- Every call on a sound world keeps it sound, fails by design or for want of a device, and leaves
alone what it does not touch. -/
theorem Call.ends (hs : suite.KeepsKeys) (h : w.IsSound suite) :
    ∀ c : Call, Ends suite c.Touches (c.Needs w) w (c.run suite w)
  | addAccount name devices => ends_map _ (ends_addAccount h name devices).1
  | threadId a b => by
    obtain ⟨id, w', hthread, hsame⟩ := threadId_spec a b w
    refine ends_map (x := World.threadId a b) _ ?_
    rw [hthread]
    exact ends_same h hsame id
  | establishFromBundle source target => ends_map some (ends_establishFromBundle hs h source target)
  | sendFirstMessage source target => ends_map _ (ends_sendFirstMessage h source target)
  | acknowledge source target => by
    refine ends_map (x := World.acknowledge source target) _
      (ends_onDevice h (.inl rfl) fun d hd => ?_)
    obtain ⟨hkeeps, hsound, -, hfails⟩ := Device.acknowledge_spec hd target
    exact ⟨hkeeps.address, hsound, hfails⟩
  | initiate source target => ends_map some (ends_initiate h source target)
  | deliver l => ends_deliver hs h l
  | rotateIdentity name =>
    ends_map (x := World.rotateIdentity suite name) _ (ends_rotateIdentity h name)
  | failNextCommit a => by
    have huse : Ends suite (· = a) (· = a) w (useDevice a (fun d => ((), d.failNextCommit)) w) := by
      refine ends_useDevice h ?_ fun d hd => ⟨rfl, hd.failNextCommit⟩
      rfl
    exact ends_map (x := World.failNextCommit a) _ huse
  | advance milliseconds => by
    show Ends suite _ _ w (.ok none { w with environment := w.environment.advance milliseconds })
    refine ends_same h ?_ none
    exact ⟨rfl, rfl, rfl⟩

end SecureSession.World
