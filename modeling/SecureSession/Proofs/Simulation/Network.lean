import SecureSession.Proofs.Simulation.Device

/-! # Messages on the network

What sending and delivering do to the queue of each link. On a sound network every
envelope is on its own link and carries a sound message, so the queue of a link is as good
as the list of its messages. -/

namespace SecureSession

/-! ### Queues -/

namespace Network

variable {n : Network} {l l' : Link}

@[simp] theorem queue_empty (l : Link) : empty.queue l = [] := rfl

theorem queue_send (n : Network) (e : Envelope) (l : Link) :
    (n.send e).queue l = if l = e.link then n.queue l ++ [e] else n.queue l := by
  rw [queue, send, SortedMap.get?_insert]
  split
  · subst l; rfl
  · rfl

theorem queue_sendAll (l : Link) : ∀ (es : List Envelope) (n : Network),
    (n.sendAll es).queue l = n.queue l ++ es.filter fun e => decide (l = e.link)
  | [], n => by simp [sendAll]
  | e :: es, n => by
    rw [show n.sendAll (e :: es) = (n.send e).sendAll es from rfl, queue_sendAll l es, queue_send,
      List.filter_cons]
    by_cases h : l = e.link <;> simp [h]

theorem deliver_nil (h : n.queue l = []) : n.deliver l = (none, n) := by
  rw [deliver, h]

theorem deliver_cons {e : Envelope} {rest : List Envelope} (h : n.queue l = e :: rest) :
    (n.deliver l).1 = some e ∧
      ∀ l', (n.deliver l).2.queue l' = if l' = l then rest else n.queue l' := by
  rw [deliver, h]
  cases rest with
  | nil =>
    refine ⟨rfl, fun l' => ?_⟩
    rw [queue, SortedMap.get?_erase]
    split <;> rfl
  | cons d rest =>
    refine ⟨rfl, fun l' => ?_⟩
    rw [queue, SortedMap.get?_insert]
    split <;> rfl

theorem queue_deliver (n : Network) (l l' : Link) :
    (n.deliver l).2.queue l' = if l' = l then (n.queue l).tail else n.queue l' := by
  cases hq : n.queue l with
  | nil =>
    rw [deliver_nil hq]
    split_ifs with hl
    · rw [hl, hq]; rfl
    · rfl
  | cons e rest => exact (deliver_cons hq).2 l'

theorem mem_busyLinks_of_queue (h : n.queue l ≠ []) : l ∈ n.busyLinks := by
  cases hget : n.links.get? l with
  | none => simp [queue, hget] at h
  | some q => exact SortedMap.mem_keys_iff.mpr ⟨q, hget⟩

theorem mem_busyLinks_send {e : Envelope} (h : l ∈ (n.send e).busyLinks) :
    l = e.link ∨ l ∈ n.busyLinks := by
  obtain ⟨q, hq⟩ := SortedMap.mem_keys_iff.mp h
  rw [send, SortedMap.get?_insert] at hq
  split at hq
  · exact .inl ‹_›
  · exact .inr (SortedMap.mem_keys_iff.mpr ⟨q, hq⟩)

theorem mem_busyLinks_sendAll : ∀ (es : List Envelope) {n : Network},
    l ∈ (n.sendAll es).busyLinks → (∃ e ∈ es, l = e.link) ∨ l ∈ n.busyLinks
  | [], _, h => .inr h
  | e :: es, n, h => by
    rcases mem_busyLinks_sendAll es (n := n.send e) h with ⟨d, hd, hl⟩ | h
    · exact .inl ⟨d, List.mem_cons_of_mem _ hd, hl⟩
    · rcases mem_busyLinks_send h with hl | h
      · exact .inl ⟨e, List.mem_cons_self, hl⟩
      · exact .inr h

theorem mem_busyLinks_deliver (h : l' ∈ (n.deliver l).2.busyLinks) : l' ∈ n.busyLinks := by
  unfold deliver at h
  split at h
  · exact h
  · obtain ⟨q, hq⟩ := SortedMap.mem_keys_iff.mp h
    rw [SortedMap.get?_erase] at hq
    split at hq
    · cases hq
    · exact SortedMap.mem_keys_iff.mpr ⟨q, hq⟩
  · rename_i hqueue
    obtain ⟨q, hq⟩ := SortedMap.mem_keys_iff.mp h
    rw [SortedMap.get?_insert] at hq
    split at hq
    · subst l'
      exact mem_busyLinks_of_queue (by rw [hqueue]; exact List.cons_ne_nil _ _)
    · exact SortedMap.mem_keys_iff.mpr ⟨q, hq⟩

end Network

/-! ### The outbox -/

/-- The envelope of a message to a device, if it can be encoded. -/
def Envelope.ofMessage? (l : Link) (thread : UInt64) (m : HandshakeMessage) : Option Envelope :=
  match m.encode with
  | .ok payload => some ⟨l, thread, m.kind, payload⟩
  | .error _ => none

/-- What an action of a device puts in its outbox. -/
def SessionAction.envelope? (source : Address) : SessionAction → Option Envelope
  | sendHandshake target thread m => Envelope.ofMessage? ⟨source, target⟩ thread m
  | _ => none

/-- What some actions of a device put in its outbox. -/
def SessionAction.mail (source : Address) (actions : List SessionAction) : List Envelope :=
  actions.filterMap (envelope? source)

theorem outbox_foldl (source : Address) : ∀ (actions : List SessionAction)
    (acc : DispatchReport × Recording),
    (actions.foldl (Dispatch.step (Recording.sink source)) acc).2.outbox =
      acc.2.outbox ++ SessionAction.mail source actions
  | [], acc => by simp [SessionAction.mail]
  | action :: rest, acc => by
    rw [List.foldl_cons, outbox_foldl source rest, SessionAction.mail, SessionAction.mail,
      List.filterMap_cons]
    cases action with
    | sendHandshake target thread m =>
      cases hencode : m.encode with
      | ok payload =>
        simp [Dispatch.step, SessionAction.call?, hencode, Recording.sink, SessionAction.envelope?,
          Envelope.ofMessage?]
      | error e =>
        simp [Dispatch.step, SessionAction.call?, hencode, SessionAction.envelope?,
          Envelope.ofMessage?]
    | securityUpdate thread => rfl
    | drainPending address => rfl
    | notify notice => rfl

/-- The messages of actions end up in the outbox, in order. -/
theorem outbox_run (source : Address) (actions : List SessionAction) (r : Recording) :
    (Dispatch.run (Recording.sink source) actions r).2.outbox =
      r.outbox ++ SessionAction.mail source actions := outbox_foldl source actions _

/-! ### Messages -/

namespace Network

/-- Whether every envelope is on its own link and carries a sound message. -/
def IsSound (suite : Suite) (n : Network) : Prop := ∀ l, ∀ e ∈ n.queue l,
  e.link = l ∧ ∃ m, HandshakeMessage.decode e.kind e.payload = .ok m ∧ m.IsSound suite

/-- The messages on a link, oldest first. -/
def messages (n : Network) (l : Link) : List HandshakeMessage :=
  (n.queue l).filterMap fun e => (HandshakeMessage.decode e.kind e.payload).toOption

/-- What a device puts on a link when it sends some messages. -/
def posted (source : Address) (l : Link) (sent : List (Address × HandshakeMessage)) :
    List HandshakeMessage :=
  sent.filterMap fun x => if l = ⟨source, x.1⟩ then some x.2 else none

variable {suite : Suite} {n : Network}

@[simp] theorem messages_empty (l : Link) : empty.messages l = [] := rfl

theorem isSound_empty : empty.IsSound suite := fun _ _ h => absurd h (List.not_mem_nil)

theorem messages_of_queue {l : Link} {e : Envelope} {rest : List Envelope} {m : HandshakeMessage}
    (h : n.queue l = e :: rest) (hm : HandshakeMessage.decode e.kind e.payload = .ok m) :
    n.messages l =
      m :: rest.filterMap fun e => (HandshakeMessage.decode e.kind e.payload).toOption := by
  rw [messages, h, List.filterMap_cons, hm]
  rfl

/-- A sound network has as many messages as envelopes. -/
theorem IsSound.messages_eq_nil (h : n.IsSound suite) (l : Link) :
    n.messages l = [] ↔ n.queue l = [] := by
  cases hq : n.queue l with
  | nil => simp [messages, hq]
  | cons e rest =>
    obtain ⟨-, m, hm, -⟩ := h l e (by rw [hq]; exact List.mem_cons_self)
    simp [messages_of_queue hq hm]

/-- The first message of a sound link is the one in its first envelope. -/
theorem IsSound.queue_of_messages (h : n.IsSound suite) {l : Link} {m : HandshakeMessage}
    {ms : List HandshakeMessage} (hms : n.messages l = m :: ms) :
    ∃ e rest, n.queue l = e :: rest ∧ e.link = l ∧
      HandshakeMessage.decode e.kind e.payload = .ok m ∧ m.IsSound suite := by
  cases hq : n.queue l with
  | nil => rw [messages, hq] at hms; cases hms
  | cons e rest =>
    obtain ⟨hlink, m', hm', hsound⟩ := h l e (by rw [hq]; exact List.mem_cons_self)
    rw [messages_of_queue hq hm'] at hms
    cases hms
    exact ⟨e, rest, rfl, hlink, hm', hsound⟩

theorem messages_deliver {l : Link} {m : HandshakeMessage} {ms : List HandshakeMessage}
    (h : n.IsSound suite) (hms : n.messages l = m :: ms) (l' : Link) :
    (n.deliver l).2.messages l' = if l' = l then ms else n.messages l' := by
  obtain ⟨e, rest, hq, -, hm, -⟩ := h.queue_of_messages hms
  rw [messages_of_queue hq hm] at hms
  rw [messages, (deliver_cons hq).2]
  split
  · exact (List.cons.inj hms).2
  · rfl

theorem IsSound.deliver (h : n.IsSound suite) (l : Link) : (n.deliver l).2.IsSound suite := by
  intro l' e he
  cases hq : n.queue l with
  | nil =>
    rw [deliver_nil hq] at he
    exact h l' e he
  | cons d rest =>
    rw [(deliver_cons hq).2] at he
    split at he
    · subst l'
      exact h l e (by rw [hq]; exact List.mem_cons_of_mem _ he)
    · exact h l' e he

theorem IsSound.sendAll (h : n.IsSound suite) {es : List Envelope}
    (hes : ∀ e ∈ es, ∃ m, HandshakeMessage.decode e.kind e.payload = .ok m ∧ m.IsSound suite) :
    (n.sendAll es).IsSound suite := by
  intro l e he
  rw [queue_sendAll, List.mem_append, List.mem_filter, decide_eq_true_iff] at he
  rcases he with he | ⟨he, hl⟩
  · exact h l e he
  · exact ⟨hl.symm, hes e he⟩

theorem messages_send (n : Network) {e : Envelope} {m : HandshakeMessage}
    (hm : HandshakeMessage.decode e.kind e.payload = .ok m) (l : Link) :
    (n.send e).messages l = if l = e.link then n.messages l ++ [m] else n.messages l := by
  rw [messages, queue_send, messages]
  split
  · rw [List.filterMap_append, List.filterMap_cons, hm]
    rfl
  · rfl

/-! ### Posting -/

/-- The envelope of a message that can be read back carries it. -/
theorem ofMessage?_of_isSendable {m : HandshakeMessage} (hm : m.IsSendable) (l : Link)
    (thread : UInt64) :
    ∃ payload, Envelope.ofMessage? l thread m = some ⟨l, thread, m.kind, payload⟩ ∧
      HandshakeMessage.decode m.kind payload = .ok m := by
  obtain ⟨payload, hencode, hdecode⟩ := HandshakeMessage.decode_encode hm
  exact ⟨payload, by rw [Envelope.ofMessage?, hencode], hdecode⟩

/-- An envelope in an outbox carries a message that was sent. -/
theorem sent_of_mem_mail {source : Address} {actions : List SessionAction}
    (h : ∀ x ∈ SessionAction.sent actions, x.2.IsSendable) {e : Envelope}
    (he : e ∈ SessionAction.mail source actions) : ∃ x ∈ SessionAction.sent actions,
      e.link = ⟨source, x.1⟩ ∧ HandshakeMessage.decode e.kind e.payload = .ok x.2 := by
  obtain ⟨action, haction, he⟩ := List.mem_filterMap.mp he
  cases action with
  | sendHandshake target thread m =>
    have hsent : (target, m) ∈ SessionAction.sent actions :=
      List.mem_filterMap.mpr ⟨_, haction, rfl⟩
    obtain ⟨payload, hmail, hread⟩ := ofMessage?_of_isSendable (h _ hsent) ⟨source, target⟩ thread
    cases (hmail.symm.trans he : some _ = some e)
    exact ⟨_, hsent, rfl, hread⟩
  | securityUpdate thread => cases he
  | drainPending address => cases he
  | notify notice => cases he

theorem mem_mail {source : Address} {actions : List SessionAction}
    (h : ∀ x ∈ SessionAction.sent actions, x.2.IsSound suite) {e : Envelope}
    (he : e ∈ SessionAction.mail source actions) :
    (∃ x ∈ SessionAction.sent actions, e.link = ⟨source, x.1⟩) ∧
      ∃ m, HandshakeMessage.decode e.kind e.payload = .ok m ∧ m.IsSound suite := by
  obtain ⟨x, hx, hlink, hread⟩ := sent_of_mem_mail (fun x hx => (h x hx).sendable) he
  exact ⟨⟨x, hx, hlink⟩, x.2, hread, h x hx⟩

/-- No more is put in an outbox than is sent. -/
theorem length_mail_le (source : Address) : ∀ actions : List SessionAction,
    (SessionAction.mail source actions).length ≤ (SessionAction.sent actions).length
  | [] => Nat.le_refl _
  | action :: rest => by
    have ih := length_mail_le source rest
    cases action with
    | sendHandshake target thread m =>
      have hsent : SessionAction.sent (.sendHandshake target thread m :: rest) =
          (target, m) :: SessionAction.sent rest := rfl
      rw [hsent, SessionAction.mail, List.filterMap_cons, List.length_cons]
      split
      · exact ih.trans (Nat.le_succ _)
      · exact Nat.succ_le_succ ih
    | securityUpdate thread => exact ih
    | drainPending address => exact ih
    | notify notice => exact ih

theorem filterMap_mail (source : Address) (l : Link) : ∀ {actions : List SessionAction},
    (∀ x ∈ SessionAction.sent actions, x.2.IsSound suite) →
      ((SessionAction.mail source actions).filter fun e => decide (l = e.link)).filterMap
        (fun e => (HandshakeMessage.decode e.kind e.payload).toOption) =
      posted source l (SessionAction.sent actions)
  | [], _ => rfl
  | action :: rest, h => by
    have hrest : ∀ x ∈ SessionAction.sent rest, x.2.IsSound suite := by
      intro x hx
      obtain ⟨b, hb, hbx⟩ := List.mem_filterMap.mp hx
      exact h x (List.mem_filterMap.mpr ⟨b, List.mem_cons_of_mem _ hb, hbx⟩)
    have ih := filterMap_mail source l hrest
    cases action with
    | sendHandshake target thread m =>
      have hm : m.IsSound suite :=
        h (target, m) (List.mem_filterMap.mpr ⟨_, List.mem_cons_self, rfl⟩)
      obtain ⟨payload, hmail, hread⟩ := ofMessage?_of_isSendable hm.sendable ⟨source, target⟩ thread
      have hcons : SessionAction.mail source (.sendHandshake target thread m :: rest) =
          ⟨⟨source, target⟩, thread, m.kind, payload⟩ :: SessionAction.mail source rest := by
        rw [SessionAction.mail, List.filterMap_cons, SessionAction.envelope?, hmail]
        rfl
      have hsent : SessionAction.sent (.sendHandshake target thread m :: rest) =
          (target, m) :: SessionAction.sent rest := rfl
      rw [hcons, hsent, List.filter_cons, posted, List.filterMap_cons]
      by_cases hl : l = ⟨source, target⟩
      · simp only [hl, decide_true, if_true, List.filterMap_cons, hread]
        rw [hl] at ih
        rw [ih]
        rfl
      · simp only [hl, decide_false, Bool.false_eq_true, if_false]
        exact ih
    | securityUpdate thread => exact ih
    | drainPending address => exact ih
    | notify notice => exact ih

/-- A device that sends sound messages puts each on the link to its recipient. -/
theorem messages_sendAll_mail (n : Network) (source : Address) {actions : List SessionAction}
    (h : ∀ x ∈ SessionAction.sent actions, x.2.IsSound suite) (l : Link) :
    (n.sendAll (SessionAction.mail source actions)).messages l =
      n.messages l ++ posted source l (SessionAction.sent actions) := by
  rw [messages, queue_sendAll, List.filterMap_append, filterMap_mail source l h, messages]

end Network

end SecureSession
