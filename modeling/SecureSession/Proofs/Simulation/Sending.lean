import Mathlib.Data.List.Forall2
import SecureSession.Proofs.Handshake.Replies
import SecureSession.Proofs.Simulation.Attainable
import SecureSession.Proofs.Simulation.Operations

/-! # What devices send

A step of a handshake sends to the peer of the step only, and only messages that are read back as
they are. So what a device sends is at the back of its links to the recipients, each message once
and in order (`Network.Posts`), and every message in an attainable world is on its own link and
comes from a device that is there (`World.IsOrderly`). -/

namespace SecureSession

/-! ### Steps of a device -/

namespace Device

/-- Whether a step sends to a peer only, and only messages that are read back. -/
def SendsTo (peer : Address) (r : Except SessionError HandshakeOutcome) : Prop :=
  ∀ o, r = .ok o → ∀ x ∈ SessionAction.sent o.actions, x.1 = peer ∧ x.2.IsSendable

variable (suite : Suite) (d : Device)

theorem sendsTo_initiate (peer : Address) (thread : UInt64) :
    SendsTo peer (d.initiate suite peer thread).1 := by
  intro o ho x hx
  rcases hrun : d.party.initiate suite d.storage peer thread with ⟨r, p, s⟩
  have hr : r = .ok o := by rw [← ho, initiate, settle, hrun]
  subst hr
  obtain ⟨leg, hleg, hsent⟩ := Party.sent_of_initiate hrun
  rw [hsent, List.mem_singleton] at hx
  subst hx
  exact ⟨rfl, hleg⟩

theorem sendsTo_useBundle (peer : Address) (thread : UInt64) (b : PreKeyBundle) :
    SendsTo peer (d.useBundle suite peer thread b).1 := by
  intro o ho x hx
  rcases hrun : d.party.useBundle suite d.storage peer thread b with ⟨r, p, s⟩
  have hr : r = .ok o := by rw [← ho, useBundle, settle, hrun]
  subst hr
  rw [Party.sent_of_useBundle hrun] at hx
  cases hx

theorem sendsTo_receive (e : Envelope) : SendsTo e.link.source (d.receive suite e).1 := by
  intro o ho x hx
  rcases hrun : d.party.receivePayload suite d.storage e.link.source e.thread e.kind e.payload with
    ⟨r, p, s⟩
  have hr : r = .ok o := by rw [← ho, receive, settle, hrun]
  subst hr
  obtain ⟨m, -, hreplies⟩ := Party.replies_of_receivePayload hrun
  generalize SessionAction.sent o.actions = sent at hreplies hx
  cases hreplies with
  | none => cases hx
  | response hleg =>
    rw [List.mem_singleton] at hx
    subst hx
    exact ⟨rfl, hleg⟩

end Device

/-! ### Envelopes -/

/-- The message that an action sends to a device, with its conversation. -/
def SessionAction.sentTo? (target : Address) : SessionAction → Option (UInt64 × HandshakeMessage)
  | sendHandshake a thread m => if a = target then some (thread, m) else none
  | _ => none

/-- The messages that some actions send to a device, with their conversations. -/
def SessionAction.sentTo (target : Address) (actions : List SessionAction) :
    List (UInt64 × HandshakeMessage) := actions.filterMap (sentTo? target)

/-- Whether an envelope on a link is read as a message of a conversation. -/
structure Envelope.Carries (l : Link) (e : Envelope) (x : UInt64 × HandshakeMessage) : Prop where
  link : e.link = l
  thread : e.thread = x.1
  kind : e.kind = x.2.kind
  read : HandshakeMessage.decode e.kind e.payload = .ok x.2

/-- An envelope in the outbox of a device comes from an action that sends it. -/
theorem SessionAction.sendHandshake_of_mem_mail {source : Address} {actions : List SessionAction}
    {e : Envelope} (he : e ∈ mail source actions) :
    e.link.source = source ∧ ∃ m, sendHandshake e.link.target e.thread m ∈ actions := by
  obtain ⟨action, haction, he⟩ := List.mem_filterMap.mp he
  cases action with
  | sendHandshake target thread m =>
    simp only [envelope?, Envelope.ofMessage?] at he
    cases hencode : m.encode with
    | error error => simp [hencode] at he
    | ok payload =>
      simp only [hencode, Option.some.injEq] at he
      subst he
      exact ⟨rfl, m, haction⟩
  | securityUpdate thread => cases he
  | drainPending address => cases he
  | notify notice => cases he

theorem SessionAction.source_of_mem_mail {source : Address} {actions : List SessionAction}
    {e : Envelope} (he : e ∈ mail source actions) :
    e.link.source = source ∧ ∃ x ∈ sent actions, e.link.target = x.1 := by
  obtain ⟨hsource, m, hm⟩ := sendHandshake_of_mem_mail he
  exact ⟨hsource, (e.link.target, m), List.mem_filterMap.mpr ⟨_, hm, rfl⟩, rfl⟩

/-- The envelopes to a device carry the messages that are sent to it, one each and in order. -/
theorem SessionAction.forall₂_carries (source target : Address) (actions : List SessionAction)
    (h : ∀ x ∈ sent actions, x.2.IsSendable) :
    List.Forall₂ (Envelope.Carries ⟨source, target⟩)
      ((mail source actions).filter fun e => decide (⟨source, target⟩ = e.link))
      (sentTo target actions) := by
  induction actions with
  | nil => exact .nil
  | cons action rest ih =>
    have hrest : ∀ x ∈ sent rest, x.2.IsSendable := by
      intro x hx
      obtain ⟨b, hb, hbx⟩ := List.mem_filterMap.mp hx
      exact h x (List.mem_filterMap.mpr ⟨b, List.mem_cons_of_mem _ hb, hbx⟩)
    have hih := ih hrest
    cases action with
    | sendHandshake address thread m =>
      have hm : m.IsSendable := h (address, m) (List.mem_filterMap.mpr ⟨_, List.mem_cons_self, rfl⟩)
      obtain ⟨payload, hmail, hread⟩ := Network.ofMessage?_of_isSendable hm ⟨source, address⟩ thread
      have hcons : mail source (.sendHandshake address thread m :: rest) =
          ⟨⟨source, address⟩, thread, m.kind, payload⟩ :: mail source rest := by
        simp only [mail, List.filterMap_cons, envelope?, hmail]
      rw [hcons, sentTo, List.filter_cons, List.filterMap_cons]
      by_cases ha : address = target
      · subst address
        simp only [decide_true, if_true, sentTo?]
        exact .cons ⟨rfl, rfl, rfl, hread⟩ hih
      · have hlink : ¬(⟨source, target⟩ : Link) = ⟨source, address⟩ :=
          fun hl => ha (by cases hl; rfl)
        simp only [hlink, decide_false, Bool.false_eq_true, if_false, sentTo?, if_neg ha]
        exact hih
    | securityUpdate thread => exact hih
    | drainPending address => exact hih
    | notify notice => exact hih

/-- Whether a network is left by another once a device has carried out some actions: the
messages they send to a device are at the back of the link to it, each once and in order, and
nothing else has changed. -/
structure Network.Posts (source : Address) (actions : List SessionAction)
    (n n' : Network) : Prop where
  links : ∀ target, ∃ es, n'.queue ⟨source, target⟩ = n.queue ⟨source, target⟩ ++ es ∧
    List.Forall₂ (Envelope.Carries ⟨source, target⟩) es (SessionAction.sentTo target actions)
  others : ∀ l, l.source ≠ source → n'.queue l = n.queue l

theorem Network.posts_sendAll_mail (n : Network) (source : Address) {actions : List SessionAction}
    (h : ∀ x ∈ SessionAction.sent actions, x.2.IsSendable) :
    n.Posts source actions (n.sendAll (SessionAction.mail source actions)) := by
  refine ⟨fun target => ⟨_, queue_sendAll _ _ n, ?_⟩, fun l hl => ?_⟩
  · exact SessionAction.forall₂_carries source target actions h
  · rw [queue_sendAll]
    have hnone :
        (SessionAction.mail source actions).filter (fun e => decide (l = e.link)) = [] := by
      rw [List.filter_eq_nil_iff]
      intro e he hlink
      have hsource := (SessionAction.source_of_mem_mail he).1
      rw [← of_decide_eq_true hlink] at hsource
      exact hl hsource
    rw [hnone, List.append_nil]

/-! ### Messages on the network -/

namespace Network

variable {n : Network} {l l' : Link} {e : Envelope}

/-- A message that is on the network after others are sent was there before, or is one of them. -/
theorem mem_queue_sendAll {es : List Envelope} (h : e ∈ (n.sendAll es).queue l) :
    e ∈ n.queue l ∨ e ∈ es ∧ l = e.link := by
  rwa [queue_sendAll, List.mem_append, List.mem_filter, decide_eq_true_iff] at h

/-- To deliver a message puts no other on the network. -/
theorem mem_queue_deliver (h : e ∈ (n.deliver l).2.queue l') : e ∈ n.queue l' := by
  rw [queue_deliver] at h
  split_ifs at h with hl
  · rw [hl]
    exact List.mem_of_mem_tail h
  · exact h

end Network

/-! ### Orderly worlds -/

namespace World

/-- Whether a world is tidy, and every message is on its own link and comes from
a device that is there. -/
structure IsOrderly (w : World) : Prop where
  tidy : w.IsTidy
  addressed : ∀ l, ∀ e ∈ w.network.queue l, e.link = l ∧ w.IsRegistered l.source

variable {suite : Suite} {w w' : World} {a : Address}

theorem IsRegistered.insert {b : Address} (h : w.IsRegistered b) (d : Device)
    (hdevices : w'.devices = w.devices.insert a d) : w'.IsRegistered b := by
  rw [IsRegistered, hdevices, SortedMap.get?_insert]
  split_ifs
  · rfl
  · exact h

/-- With the same messages and no fewer devices, an orderly world stays so. -/
theorem IsOrderly.of_network (h : w.IsOrderly) (htidy : w'.IsTidy)
    (hnetwork : w'.network = w.network) (hdevices : ∀ b, w.IsRegistered b → w'.IsRegistered b) :
    w'.IsOrderly := by
  refine ⟨htidy, fun l e he => ?_⟩
  rw [hnetwork] at he
  obtain ⟨hlink, hsource⟩ := h.addressed l e he
  exact ⟨hlink, hdevices _ hsource⟩

theorem IsOrderly.setDevice (h : w.IsOrderly) (a : Address) (d : Device) :
    (w.setDevice a d).IsOrderly :=
  h.of_network (h.tidy.of_eq rfl rfl) rfl fun _ hb => hb.insert d rfl

theorem IsOrderly.sendAll (h : w.IsOrderly) (es : List Envelope)
    (hes : ∀ e ∈ es, w.IsRegistered e.link.source) :
    ({ w with network := w.network.sendAll es } : World).IsOrderly := by
  refine ⟨⟨h.tidy.outbox, h.tidy.network.sendAll es⟩, fun l e he => ?_⟩
  rcases Network.mem_queue_sendAll he with hmem | ⟨hmem, rfl⟩
  · exact h.addressed l e hmem
  · exact ⟨rfl, hes e hmem⟩

theorem IsOrderly.pop (h : w.IsOrderly) (l : Link) : (w.pop l).IsOrderly :=
  ⟨h.tidy.pop l, fun l' e he => h.addressed l' e (Network.mem_queue_deliver he)⟩

/-- What the device at an address asks for is sent from there. -/
theorem network_settle (h : w.IsTidy) (a : Address) (o : HandshakeOutcome) :
    (ending (settle a o w)).network = w.network.sendAll (SessionAction.mail a o.actions) := by
  show w.network.sendAll (Dispatch.run (Recording.sink a) o.actions (w.recording a)).2.outbox = _
  rw [outbox_run, h.outbox, List.nil_append]

theorem IsOrderly.settle (h : w.IsOrderly) (ha : w.IsRegistered a) (o : HandshakeOutcome) :
    (ending (settle a o w)).IsOrderly := by
  have hsent := h.sendAll (SessionAction.mail a o.actions) fun e he => by
    rw [(SessionAction.source_of_mem_mail he).1]
    exact ha
  have hlasts : Lasts .plain IsTidy := lasts_isTidy
  have htidy : (ending (World.settle a o w)).IsTidy := hlasts (.settle a o) h.tidy
  exact hsent.of_network htidy (network_settle h.tidy a o) fun _ hb => hb

end World

/-! ### Calm steps

Much of what calls are made of sends nothing, takes nothing off the network, shows the security of
no conversation anew and gives out no number of one. -/

namespace World

/-- Whether a world comes from another without anything sent or taken in, without the security of a
conversation shown anew and without a conversation numbered. -/
structure Calm (w w' : World) : Prop where
  network : w'.network = w.network
  threads : w'.threads = w.threads
  nextThread : w'.nextThread = w.nextThread
  /-- A device that is replaced by a new one has nothing on record. -/
  recorded : ∀ a, (w'.recording a).securityUpdates ⊆ (w.recording a).securityUpdates
  tidy : w.IsTidy → w'.IsTidy
  devices : ∀ a, w.IsRegistered a → w'.IsRegistered a

variable {suite : Suite} {w w' w'' : World}

theorem Calm.refl (w : World) : Calm w w :=
  ⟨rfl, rfl, rfl, fun _ => List.Subset.refl _, id, fun _ => id⟩

theorem Calm.trans (h : Calm w w') (h' : Calm w' w'') : Calm w w'' :=
  ⟨h'.network.trans h.network, h'.threads.trans h.threads, h'.nextThread.trans h.nextThread,
    fun a => List.Subset.trans (h'.recorded a) (h.recorded a), fun hw => h'.tidy (h.tidy hw),
    fun a ha => h'.devices a (h.devices a ha)⟩

theorem calm_setDevice (w : World) (a : Address) (d : Device) : Calm w (w.setDevice a d) :=
  ⟨rfl, rfl, rfl, fun _ => List.Subset.refl _, fun hw => hw.of_eq rfl rfl,
    fun _ hb => hb.insert d rfl⟩

theorem IsOrderly.calm (h : w.IsOrderly) (hc : Calm w w') : w'.IsOrderly :=
  h.of_network (hc.tidy h.tidy) hc.network hc.devices

/-- Whether a call is made of calm steps. -/
def Call.IsCalm : Call → Prop
  | addAccount .. | acknowledge .. | rotateIdentity _ | failNextCommit _ | advance _ => True
  | threadId .. | establishFromBundle .. | sendFirstMessage .. | initiate .. | deliver _ => False

end World

namespace WorldStep

open World

variable {α : Type} {w : World}

theorem calm_useDevice (a : Address) (f : Device → α × Device) :
    Keeps (Calm w) (World.useDevice a f) := by
  intro v h
  cases hd : v.devices.get? a with
  | none => rw [useDevice_unknown hd]; exact h
  | some d => rw [useDevice_eq hd]; exact h.trans (calm_setDevice v a _)

theorem calm_onDevice (a : Address) (f : Device → Except SessionError α × Device) :
    Keeps (Calm w) (World.onDevice a f) := by
  refine .bind (calm_useDevice a f) fun r => ?_
  cases r with
  | ok x => exact .pure x
  | error e => exact .throw _

variable (suite : Suite)

theorem calm_drawIdentity : Keeps (Calm w) (World.drawIdentity suite) :=
  .modifyGet fun _ h =>
    h.trans ⟨rfl, rfl, rfl, fun _ => List.Subset.refl _, fun hv => hv.of_eq rfl rfl, fun _ hb => hb⟩

theorem calm_addAccount (name : String) (devices : Nat) :
    Keeps (Calm w) (World.addAccount suite name devices) := by
  refine .bind (calm_drawIdentity suite) fun identity =>
    .bind (.forM (fun a => ?_) _) fun _ => .pure _
  refine .modifyGet fun v h => h.trans ⟨rfl, rfl, rfl, fun b => ?_,
    fun hv => (hv.insert a (r := .empty) rfl).of_eq rfl rfl, fun _ hb => hb.insert _ rfl⟩
  simp only [recording]
  rw [SortedMap.get?_insert]
  split_ifs
  · exact List.nil_subset _
  · exact List.Subset.refl _

theorem calm_rotateIdentity (name : String) : Keeps (Calm w) (World.rotateIdentity suite name) := by
  refine .bind (calm_drawIdentity suite) fun identity => .modifyGet fun v h => ?_
  suffices hfold : ∀ (l : List Address) (v : World), Calm w v → Calm w (l.foldl (fun v a =>
      { v with devices := v.devices.modify a (·.rotateIdentity identity) }) v) from hfold _ v h
  intro l
  induction l with
  | nil => exact fun _ h => h
  | cons a l ih =>
    refine fun v h => ih _ ?_
    dsimp only [SortedMap.modify]
    split
    · exact h.trans (calm_setDevice v a _)
    · exact h

end WorldStep

/-- A calm call leaves the network and the numbers as they are. -/
theorem World.calm_after (suite : Suite) {c : Call} (hc : c.IsCalm) (w : World) :
    Calm w (w.after suite c) := by
  have hkeeps : WorldStep.Keeps (Calm w) (c.run suite) := by
    cases c with
    | addAccount name devices => exact .map (WorldStep.calm_addAccount suite name devices) _
    | acknowledge source target => exact .map (WorldStep.calm_onDevice source _) _
    | rotateIdentity name => exact .map (WorldStep.calm_rotateIdentity suite name) _
    | failNextCommit a => exact .map (WorldStep.calm_useDevice a _) _
    | advance ms =>
      exact .map (.modifyGet fun v h =>
        h.trans ⟨rfl, rfl, rfl, fun _ => List.Subset.refl _, fun hv => hv.of_eq rfl rfl,
          fun _ hb => hb⟩) _
    | threadId | establishFromBundle | sendFirstMessage | initiate | deliver => cases hc
  exact hkeeps w (.refl w)

/-! ### Calls keep worlds orderly

What an outcome asks for is carried out for a device that is there, which `World.Changes` leaves
open: so the calls are gone through here. -/

namespace WorldStep

open World

variable {α : Type}

/-- Only a device that is there carries out what it asks for. -/
theorem keeps_act_of {P : World → Prop} {a : Address}
    {f : Device → Except SessionError HandshakeOutcome × Device}
    (hset : ∀ w d, P w → P (w.setDevice a (f d).2))
    (hsettle : ∀ w d o, (f d).1 = .ok o → w.IsRegistered a → P w →
      P (ending (World.settle a o w))) :
    Keeps P (World.act a f) := by
  intro w h
  cases hd : w.devices.get? a with
  | none => rw [act_unknown hd]; exact h
  | some d =>
    have hthere : (w.setDevice a (f d).2).IsRegistered a := by
      simp [IsRegistered, setDevice]
    rw [World.act, WorldStep.bind_eq, onDevice_eq hd]
    cases ho : (f d).1 with
    | error e => exact hset w d h
    | ok o => exact hsettle _ d o ho hthere (hset w d h)

theorem keeps_act (a : Address) (f : Device → Except SessionError HandshakeOutcome × Device) :
    Keeps IsOrderly (World.act a f) :=
  keeps_act_of (fun _ _ h => h.setDevice a _) fun _ _ o _ hthere h => h.settle hthere o

theorem keeps_threadId (a b : String) : Keeps IsOrderly (World.threadId a b) := by
  refine .modifyGet fun w h => ?_
  dsimp only
  split
  · exact h
  · exact h.of_network (h.tidy.of_eq rfl rfl) rfl fun _ hb => hb

theorem keeps_sendFirstMessage (source target : Address) :
    Keeps IsOrderly (World.sendFirstMessage source target) := by
  refine .bind (keeps_threadId _ _) fun thread w h => ?_
  rw [WorldStep.bind_eq]
  cases hd : w.devices.get? source with
  | none => rw [onDevice_unknown hd]; exact h
  | some d =>
    rw [onDevice_eq hd]
    have hset := h.setDevice source d
    have hthere : (w.setDevice source d).IsRegistered source := by simp [IsRegistered, setDevice]
    cases d.firstMessage? target greeting with
    | error e => exact hset
    | ok first =>
      cases first with
      | none => exact hset
      | some m =>
        exact hset.sendAll [⟨⟨source, target⟩, thread, .prekey, m.encode⟩]
          (List.forall_mem_singleton.mpr hthere)

variable (suite : Suite)

theorem keeps_deliver (l : Link) : Keeps IsOrderly (World.deliver suite l) := by
  intro w h
  cases hq : w.network.queue l with
  | nil =>
    rw [deliver_nil hq]
    exact h
  | cons e rest =>
    rw [deliver_cons hq]
    exact Keeps.map (keeps_act l.target (Device.receive suite e)) some _ (h.pop l)

/-- Every call keeps an orderly world so. -/
theorem keeps_call (c : World.Call) : Keeps IsOrderly (c.run suite) := by
  cases c with
  | threadId a b => exact .map (keeps_threadId a b) _
  | establishFromBundle source target =>
    have hpublish : Keeps IsOrderly (World.useDevice target (Device.publishNext suite)) :=
      fun w h => h.calm (calm_useDevice target _ w (.refl w))
    exact .map (.bind (keeps_threadId _ _) fun _ => .bind hpublish fun _ => keeps_act _ _) _
  | sendFirstMessage source target => exact .map (keeps_sendFirstMessage source target) _
  | initiate source target => exact .map (.bind (keeps_threadId _ _) fun _ => keeps_act _ _) _
  | deliver l => exact keeps_deliver suite l
  | addAccount | acknowledge | rotateIdentity | failNextCommit | advance =>
    refine fun w h => h.calm (calm_after suite ?_ w)
    trivial

end WorldStep

namespace World

variable {suite : Suite} {w : World}

theorem Attainable.isOrderly (h : Attainable suite w) : w.IsOrderly := by
  induction h with
  | init seed config => exact ⟨isTidy_ofSeed seed config, fun l e he => absurd he List.not_mem_nil⟩
  | call _ c ih => exact WorldStep.keeps_call suite c _ ih
  | altered h environment devices hkeys ih =>
    refine ih.of_network (ih.tidy.of_eq rfl rfl) rfl fun b hb => ?_
    obtain ⟨d, hd⟩ := Option.isSome_iff_exists.mp hb
    have hmem : b ∈ devices.keys := hkeys ▸ SortedMap.mem_keys_iff.mpr ⟨d, hd⟩
    obtain ⟨d', hd'⟩ := SortedMap.mem_keys_iff.mp hmem
    exact Option.isSome_iff_exists.mpr ⟨d', hd'⟩

end World

end SecureSession
