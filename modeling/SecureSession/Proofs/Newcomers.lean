import SecureSession.Proofs.Simulation.Sending

/-! # Newcomers

A new account does not disturb the others. Its devices are given environments of their own, and the
others keep theirs; numbers of conversations and messages stay as they are. So a world stays beside
the one with the newcomer (`World.Beside`) while the others deal with each other, and their dealings
answer the same in both (`World.newcomers_do_not_disturb`). -/

namespace SecureSession.World

/-! ### Dealings -/

/-- What devices do to each other. -/
inductive Dealing
  | establishFromBundle (source target : Address)
  | sendFirstMessage (source target : Address)
  | acknowledge (source target : Address)
  | initiate (source target : Address)
  | deliver (l : Link)
  | deliverAll (limit : Nat)
  | failNextCommit (a : Address)
deriving DecidableEq

/-- What a dealing answers. -/
inductive Answer
  | status (status : HandshakeStatus)
  | flag (b : Bool)
  | delivered (status : Option HandshakeStatus)
  | count (n : Nat)
  | done
deriving DecidableEq

namespace Dealing

/-- The devices that a dealing is between. -/
def Mentions : Dealing → Address → Prop
  | establishFromBundle source target, a | sendFirstMessage source target, a
  | acknowledge source target, a | initiate source target, a => a = source ∨ a = target
  | deliver l, a => a = l.source ∨ a = l.target
  | failNextCommit b, a => a = b
  | deliverAll _, _ => False

/-- The step of a dealing. -/
def run (suite : Suite) : Dealing → WorldStep Answer
  | establishFromBundle source target =>
    return .status (← World.establishFromBundle suite source target)
  | sendFirstMessage source target => return .flag (← World.sendFirstMessage source target)
  | acknowledge source target => return .flag (← World.acknowledge source target)
  | initiate source target => return .status (← World.initiate suite source target)
  | deliver l => return .delivered (← World.deliver suite l)
  | deliverAll limit => return .count (← World.deliverAll suite limit)
  | failNextCommit a => do
    World.failNextCommit a
    return .done

end Dealing

/-- What some dealings answer one after the other, and the world after them.
They go on after a failure. -/
def play (suite : Suite) : World → List Dealing → List (Except WorldError Answer) × World
  | w, [] => ([], w)
  | w, c :: script =>
    let rest := play suite (ending (c.run suite w)) script
    (answer (c.run suite w) :: rest.1, rest.2)

/-! ### Worlds beside each other -/

/-- Whether the second of two worlds is the first but for the devices of an account that nothing
waits for or comes from. The clocks and random bytes of the worlds themselves are left open. -/
structure Beside (name : String) (w w' : World) : Prop where
  devices : ∀ a, a.name ≠ name → w'.devices.get? a = w.devices.get? a
  recordings : ∀ a, a.name ≠ name → w'.recordings.get? a = w.recordings.get? a
  network : w'.network = w.network
  threads : w'.threads = w.threads
  nextThread : w'.nextThread = w.nextThread
  tidy : w.IsTidy
  apart : ∀ l, ∀ e ∈ w.network.queue l, e.link = l ∧ l.source.name ≠ name ∧ l.target.name ≠ name

/-- Whether two steps end with the same answer or the same failure, in worlds beside each other. -/
inductive Alike (name : String) {α : Type} :
    EStateM.Result WorldError World α → EStateM.Result WorldError World α → Prop
  | ok (a : α) {w w' : World} (h : Beside name w w') : Alike name (.ok a w) (.ok a w')
  | error (e : WorldError) {w w' : World} (h : Beside name w w') :
    Alike name (.error e w) (.error e w')

/-- Whether a step ends alike in worlds beside each other. -/
def Ignores (name : String) {α : Type} (x : WorldStep α) : Prop :=
  ∀ ⦃w w'⦄, Beside name w w' → Alike name (x w) (x w')

variable {name : String} {w w' : World}

namespace Beside

theorem setDevice (h : Beside name w w') (a : Address) (d : Device) :
    Beside name (w.setDevice a d) (w'.setDevice a d) := by
  refine ⟨fun b hb => ?_, h.recordings, h.network, h.threads, h.nextThread,
    h.tidy.of_eq rfl rfl, h.apart⟩
  rw [World.setDevice, World.setDevice, SortedMap.get?_insert, SortedMap.get?_insert,
    h.devices b hb]

/-- Messages between other devices may be sent in both worlds. -/
theorem sendAll (h : Beside name w w') (es : List Envelope)
    (hes : ∀ e ∈ es, e.link.source.name ≠ name ∧ e.link.target.name ≠ name) :
    Beside name { w with network := w.network.sendAll es }
      { w' with network := w'.network.sendAll es } := by
  refine ⟨h.devices, h.recordings, ?_, h.threads, h.nextThread,
    ⟨h.tidy.outbox, h.tidy.network.sendAll es⟩, fun l e he => ?_⟩
  · show w'.network.sendAll es = w.network.sendAll es
    rw [h.network]
  · rcases Network.mem_queue_sendAll he with hmem | ⟨hmem, rfl⟩
    · exact h.apart l e hmem
    · exact ⟨rfl, hes e hmem⟩

/-- What a device has asked for may be recorded in both worlds. -/
theorem record (h : Beside name w w') (a : Address) {r : Recording} (hr : r.outbox = []) :
    Beside name { w with recordings := w.recordings.insert a r }
      { w' with recordings := w'.recordings.insert a r } := by
  refine ⟨h.devices, fun b hb => ?_, h.network, h.threads, h.nextThread,
    h.tidy.insert a hr, h.apart⟩
  dsimp only
  rw [SortedMap.get?_insert, SortedMap.get?_insert, h.recordings b hb]

theorem pop (h : Beside name w w') (l : Link) : Beside name (w.pop l) (w'.pop l) := by
  refine ⟨h.devices, h.recordings, ?_, h.threads, h.nextThread, h.tidy.pop l,
    fun l' e he => h.apart l' e (Network.mem_queue_deliver he)⟩
  rw [World.pop, World.pop, h.network]

end Beside

/-! ### Steps that ignore a newcomer -/

namespace Ignores

variable {α β : Type}

theorem pure (a : α) : Ignores name (Pure.pure a : WorldStep α) := fun _ _ h => .ok a h

theorem throw (e : WorldError) : Ignores name (MonadExcept.throw e : WorldStep α) :=
  fun _ _ h => .error e h

theorem bind {x : WorldStep α} {f : α → WorldStep β} (hx : Ignores name x)
    (hf : ∀ a, Ignores name (f a)) : Ignores name (x >>= f) := by
  intro w w' h
  rw [WorldStep.bind_eq, WorldStep.bind_eq]
  have hfirst := hx h
  generalize x w = r, x w' = r' at hfirst
  cases hfirst with
  | ok a h₁ => exact hf a h₁
  | error e h₁ => exact .error e h₁

theorem map {x : WorldStep α} (hx : Ignores name x) (f : α → β) :
    Ignores name (do return f (← x) : WorldStep β) := bind hx fun a => pure (f a)

theorem modifyGet {f : World → α × World} (hf : ∀ w w', Beside name w w' → (f w').1 = (f w).1 ∧
    Beside name (f w).2 (f w').2) : Ignores name (MonadStateOf.modifyGet f : WorldStep α) := by
  intro w w' h
  obtain ⟨hanswer, h₁⟩ := hf w w' h
  show Alike name (.ok (f w).1 (f w).2) (.ok (f w').1 (f w').2)
  rw [hanswer]
  exact .ok _ h₁

theorem useDevice {a : Address} (ha : a.name ≠ name) (f : Device → α × Device) :
    Ignores name (World.useDevice a f) := by
  intro w w' h
  have hsame := h.devices a ha
  cases hd : w.devices.get? a with
  | none =>
    rw [hd] at hsame
    rw [useDevice_unknown hd, useDevice_unknown hsame]
    exact .error _ h
  | some d =>
    rw [hd] at hsame
    rw [useDevice_eq hd, useDevice_eq hsame]
    exact .ok _ (h.setDevice a _)

theorem onDevice {a : Address} (ha : a.name ≠ name) (f : Device → Except SessionError α × Device) :
    Ignores name (World.onDevice a f) := by
  refine bind (useDevice ha f) fun r => ?_
  cases r with
  | ok x => exact pure x
  | error e => exact throw _

/-- What a device asks for is carried out alike, if it sends to devices that are not new. -/
theorem settle {a : Address} (ha : a.name ≠ name) {o : HandshakeOutcome}
    (ho : ∀ x ∈ SessionAction.sent o.actions, x.1.name ≠ name) :
    Ignores name (World.settle a o) := by
  refine modifyGet fun w w' h => ⟨rfl, ?_⟩
  have hrecording : w'.recording a = w.recording a := by
    rw [recording, recording, h.recordings a ha]
  -- nothing was left in the outbox, so what goes out is what this outcome sends
  have houtbox : (Dispatch.run (Recording.sink a) o.actions (w.recording a)).2.outbox =
      SessionAction.mail a o.actions := by
    rw [outbox_run, h.tidy.outbox, List.nil_append]
  have hsent := h.sendAll (SessionAction.mail a o.actions) fun e he => by
    obtain ⟨hsource, x, hx, htarget⟩ := SessionAction.source_of_mem_mail he
    rw [hsource, htarget]
    exact ⟨ha, ho x hx⟩
  dsimp only
  rw [hrecording, houtbox]
  exact hsent.record a rfl

theorem act {a peer : Address} (ha : a.name ≠ name) (hpeer : peer.name ≠ name)
    {f : Device → Except SessionError HandshakeOutcome × Device}
    (hf : ∀ d, Device.SendsTo peer (f d).1) : Ignores name (World.act a f) := by
  intro w w' h
  have hsame := h.devices a ha
  cases hd : w.devices.get? a with
  | none =>
    rw [hd] at hsame
    rw [act_unknown hd, act_unknown hsame]
    exact .error _ h
  | some d =>
    rw [hd] at hsame
    have hset := h.setDevice a (f d).2
    rw [World.act, WorldStep.bind_eq, WorldStep.bind_eq, onDevice_eq hd, onDevice_eq hsame]
    cases ho : (f d).1 with
    | error e => exact .error _ hset
    | ok o => exact settle ha (fun x hx => by rw [(hf d o ho x hx).1]; exact hpeer) hset

theorem threadId (a b : String) : Ignores name (World.threadId a b) := by
  refine modifyGet fun w w' h => ?_
  rw [h.threads, h.nextThread]
  dsimp only
  split
  · exact ⟨rfl, h⟩
  · exact ⟨rfl, h.devices, h.recordings, h.network, rfl, rfl, h.tidy.of_eq rfl rfl, h.apart⟩

variable (suite : Suite)

theorem deliver {l : Link} (hl : l.target.name ≠ name) : Ignores name (World.deliver suite l) := by
  intro w w' h
  cases hq : w.network.queue l with
  | nil =>
    rw [deliver_nil hq, deliver_nil (h.network ▸ hq)]
    exact .ok none h
  | cons e rest =>
    obtain ⟨hlink, hsource, -⟩ := h.apart l e (hq ▸ List.mem_cons_self)
    -- the answer goes back where the message came from, and nothing comes from the newcomer
    have hstep : Ignores name (do return some (← World.act l.target (Device.receive suite e))) :=
      map (act hl (hlink ▸ hsource) fun d => d.sendsTo_receive suite e) some
    rw [deliver_cons hq, deliver_cons (h.network ▸ hq)]
    exact hstep (h.pop l)

/-- Deliveries to devices that are not new go on alike, round by round: the newcomer has no
messages, so no round is longer. -/
theorem deliverRounds : ∀ (limit : Nat) {round : List Link}, (∀ l ∈ round, l.target.name ≠ name) →
    Ignores name (World.deliverRounds suite limit round)
  | 0, _, _ => pure 0
  | limit + 1, l :: round, hround => by
    obtain ⟨hl, hrest⟩ := List.forall_mem_cons.mp hround
    unfold World.deliverRounds
    exact bind (deliver suite hl) fun _ => map (deliverRounds limit hrest) (· + 1)
  | limit + 1, [], _ => by
    intro w w' h
    have hbusy : ∀ l ∈ w.network.busyLinks, l.target.name ≠ name := by
      intro l hl
      obtain ⟨e, he⟩ := List.exists_mem_of_ne_nil _ (h.tidy.network.queue_ne_nil hl)
      exact (h.apart l e he).2.2
    have hget : ∀ v : World, (get : WorldStep World) v = .ok v v := fun _ => rfl
    rw [World.deliverRounds, WorldStep.bind_eq, WorldStep.bind_eq, hget, hget]
    dsimp only
    rw [h.network]
    cases hlinks : w.network.busyLinks with
    | nil => exact .ok 0 h
    | cons l round =>
      rw [hlinks] at hbusy
      obtain ⟨hl, hrest⟩ := List.forall_mem_cons.mp hbusy
      exact bind (deliver suite hl) (fun _ => map (deliverRounds limit hrest) (· + 1)) h

end Ignores

/-! ### Scripts -/

/-- What devices do to each other ends alike with a newcomer whom they do not deal with. -/
theorem Dealing.ignores (suite : Suite) {c : Dealing} (hc : ∀ a, c.Mentions a → a.name ≠ name) :
    Ignores name (c.run suite) := by
  cases c with
  | establishFromBundle source target =>
    have hsource := hc source (.inl rfl)
    have htarget := hc target (.inr rfl)
    exact .map (.bind (.threadId _ _) fun _ => .bind (.useDevice htarget _) fun _ =>
      .act hsource htarget fun d => d.sendsTo_useBundle suite target _ _) _
  | sendFirstMessage source target =>
    have hsource := hc source (.inl rfl)
    have htarget := hc target (.inr rfl)
    refine .map (.bind (.threadId _ _) fun thread => .bind (.onDevice hsource _) fun first => ?_) _
    cases first with
    | none => exact .pure false
    | some m =>
      refine .bind (.modifyGet fun w w' h => ⟨rfl, ?_⟩) fun _ => .pure true
      exact h.sendAll [_] (List.forall_mem_singleton.mpr ⟨hsource, htarget⟩)
  | acknowledge source target => exact .map (.onDevice (hc source (.inl rfl)) _) _
  | initiate source target =>
    exact .map (.bind (.threadId _ _) fun thread =>
      .act (hc source (.inl rfl)) (hc target (.inr rfl)) fun d =>
        d.sendsTo_initiate suite target thread) _
  | deliver l => exact .map (.deliver suite (hc l.target (.inr rfl))) _
  | deliverAll limit =>
    exact .map (.deliverRounds suite limit fun l hl => absurd hl List.not_mem_nil) _
  | failNextCommit a => exact .map (.useDevice (hc a rfl) _) _

theorem Alike.answer_eq {α : Type} {r r' : EStateM.Result WorldError World α}
    (h : Alike name r r') : answer r' = answer r ∧ Beside name (ending r) (ending r') := by
  cases h with
  | ok a h => exact ⟨rfl, h⟩
  | error e h => exact ⟨rfl, h⟩

/-- A script is played alike in worlds beside each other. -/
theorem Beside.play (suite : Suite) : ∀ {script : List Dealing} {w w' : World}, Beside name w w' →
    (∀ c ∈ script, ∀ a, c.Mentions a → a.name ≠ name) →
      (w'.play suite script).1 = (w.play suite script).1 ∧
        Beside name (w.play suite script).2 (w'.play suite script).2
  | [], _, _, h, _ => ⟨rfl, h⟩
  | c :: script, w, w', h, hscript => by
    obtain ⟨hc, hrest⟩ := List.forall_mem_cons.mp hscript
    obtain ⟨hanswer, h₁⟩ := (c.ignores suite hc h).answer_eq
    obtain ⟨hanswers, h₂⟩ := Beside.play suite h₁ hrest
    refine ⟨?_, h₂⟩
    simp only [World.play, hanswer, hanswers]

/-! ### Registration -/

theorem Beside.forM_addDevice (identity : KeyPair) :
    ∀ {l : List Address}, (∀ a ∈ l, a.name = name) → ∀ {w' : World}, Beside name w w' →
      ∃ w'', l.forM (addDevice identity) w' = .ok () w'' ∧ Beside name w w''
  | [], _, w', h => ⟨w', rfl, h⟩
  | a :: l, hl, w', h => by
    obtain ⟨ha, hrest⟩ := List.forall_mem_cons.mp hl
    have hne : ∀ b : Address, b.name ≠ name → b ≠ a := fun b hb heq => hb (heq ▸ ha)
    have hadded : Beside name w (ending (addDevice identity a w')) :=
      ⟨fun b hb => (SortedMap.get?_insert_of_ne _ (hne b hb) _).trans (h.devices b hb),
        fun b hb => (SortedMap.get?_insert_of_ne _ (hne b hb) _).trans (h.recordings b hb),
        h.network, h.threads, h.nextThread, h.tidy, h.apart⟩
    exact hadded.forM_addDevice identity hrest

/-- A world with a newcomer is beside the one without. -/
theorem Beside.addAccount (suite : Suite) (h : Beside name w w') (devices : Nat) :
    ∃ addresses w'', World.addAccount suite name devices w' = .ok addresses w'' ∧
      Beside name w w'' := by
  have hnames : ∀ a ∈ (List.range (max 1 devices)).map fun i =>
      (⟨name, UInt32.ofNat (i + 1)⟩ : Address), a.name = name := by
    intro a ha
    obtain ⟨i, -, rfl⟩ := List.mem_map.mp ha
    rfl
  have hdraw : Beside name w (ending (drawIdentity suite w')) :=
    ⟨h.devices, h.recordings, h.network, h.threads, h.nextThread, h.tidy, h.apart⟩
  obtain ⟨w'', hrun, hbeside⟩ := hdraw.forM_addDevice (w'.environment.keyPair suite).1 hnames
  refine ⟨(List.range (max 1 devices)).map fun i => ⟨name, UInt32.ofNat (i + 1)⟩, w'', ?_, hbeside⟩
  have hidentity : drawIdentity suite w' =
      .ok (w'.environment.keyPair suite).1 (ending (drawIdentity suite w')) := rfl
  rw [World.addAccount, WorldStep.bind_eq, hidentity]
  dsimp only
  rw [WorldStep.bind_eq, hrun]
  rfl

theorem mem_addresses_iff {a : Address} : a ∈ w.addresses ↔ w.IsRegistered a := by
  rw [addresses, SortedMap.mem_keys_iff, IsRegistered, Option.isSome_iff_exists]

/-- In an attainable world, nothing comes from an account that is not registered. -/
theorem Attainable.beside {suite : Suite} (h : Attainable suite w)
    (hname : ∀ a ∈ w.addresses, a.name ≠ name)
    (hqueued : ∀ l, l.target.name = name → w.network.queue l = []) : Beside name w w := by
  refine ⟨fun _ _ => rfl, fun _ _ => rfl, rfl, rfl, rfl, h.isTidy, fun l e he => ?_⟩
  obtain ⟨hlink, hsource⟩ := h.isOrderly.addressed l e he
  refine ⟨hlink, hname _ (mem_addresses_iff.mpr hsource), fun htarget => ?_⟩
  rw [hqueued l htarget] at he
  cases he

/-! ### The result -/

/-- An account can be registered in any attainable world. If its name is new and no message waits
for it, then whatever the other devices do to each other answers the same, step by step, as without
the newcomer, and leaves them the same: their sessions, identities, prekeys and environments, what
they have asked for, the numbers of conversations and the messages on the network. -/
theorem newcomers_do_not_disturb (suite : Suite) {w : World} (hw : Attainable suite w)
    {name : String} (hname : ∀ a ∈ w.addresses, a.name ≠ name)
    (hqueued : ∀ l, l.target.name = name → w.network.queue l = []) (devices : Nat) :
    ∃ addresses w₂, addAccount suite name devices w = .ok addresses w₂ ∧
      ∀ script : List Dealing, (∀ c ∈ script, ∀ a, c.Mentions a → a ∈ w.addresses) →
        let after := w.play suite script
        let after₂ := w₂.play suite script
        after₂.1 = after.1 ∧
          (∀ a ∈ w.addresses, after₂.2.devices.get? a = after.2.devices.get? a ∧
            after₂.2.recordings.get? a = after.2.recordings.get? a) ∧
          after₂.2.threads = after.2.threads ∧ after₂.2.nextThread = after.2.nextThread ∧
          after₂.2.network = after.2.network := by
  obtain ⟨addresses, w₂, hadd, hbeside⟩ := (hw.beside hname hqueued).addAccount suite devices
  refine ⟨addresses, w₂, hadd, fun script hscript => ?_⟩
  obtain ⟨hanswers, h⟩ := hbeside.play suite fun c hc a ha => hname a (hscript c hc a ha)
  exact ⟨hanswers, fun a ha => ⟨h.devices a (hname a ha), h.recordings a (hname a ha)⟩,
    h.threads, h.nextThread, h.network⟩

section Crossing

/-- What Alice and Bob do to each other when their initiates have crossed and
a commit of hers fails. -/
def aliceAndBob : List Dealing := [
  .deliver ⟨⟨"alice", 1⟩, ⟨"bob", 1⟩⟩,
  .failNextCommit ⟨"alice", 1⟩,
  .deliverAll 9,
  .establishFromBundle ⟨"alice", 1⟩ ⟨"bob", 1⟩]

/-- Carol's three devices make no difference to Alice and Bob. -/
theorem newcomers_do_not_disturb_crossed :
    ∃ addresses w₂, addAccount .plain "carol" 3 crossed = .ok addresses w₂ ∧
      (w₂.play .plain aliceAndBob).1.map Except.toOption =
        [some (.delivered (some .established)), some .done, none, some (.status .established)] ∧
      (w₂.play .plain aliceAndBob).2.network = (crossed.play .plain aliceAndBob).2.network := by
  have hname : ∀ a ∈ crossed.addresses, a.name ≠ "carol" := by decide +kernel
  have hqueued : ∀ l, l.target.name = "carol" → crossed.network.queue l = [] := by
    have hbusy : ∀ l ∈ crossed.network.busyLinks, l.target.name ≠ "carol" := by decide +kernel
    intro l hl
    by_contra hq
    exact hbusy l (Network.mem_busyLinks_of_queue hq) hl
  have hscript : ∀ c ∈ aliceAndBob, ∀ a, c.Mentions a → a ∈ crossed.addresses := by
    have halice : (⟨"alice", 1⟩ : Address) ∈ crossed.addresses := by decide +kernel
    have hbob : (⟨"bob", 1⟩ : Address) ∈ crossed.addresses := by decide +kernel
    intro c hc a ha
    simp only [aliceAndBob, List.mem_cons, List.not_mem_nil, or_false] at hc
    rcases hc with rfl | rfl | rfl | rfl <;> simp only [Dealing.Mentions] at ha <;>
      rcases ha with rfl | rfl <;> assumption
  have hanswers : (crossed.play .plain aliceAndBob).1.map Except.toOption =
      [some (.delivered (some .established)), some .done, none, some (.status .established)] := by
    decide +kernel
  obtain ⟨addresses, w₂, hadd, hall⟩ :=
    newcomers_do_not_disturb .plain attainable_crossed hname hqueued 3
  obtain ⟨hsame, -, -, -, hnetwork⟩ := hall aliceAndBob hscript
  exact ⟨addresses, w₂, hadd, by rw [hsame]; exact hanswers, hnetwork⟩

end Crossing

end SecureSession.World
