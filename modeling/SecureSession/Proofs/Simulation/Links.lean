import SecureSession.Proofs.Simulation.Traffic

/-! # Links as queues

A network is used by sending, delivering and dropping, in any order and on any links. A link is
forgotten with its last message and known again with the next, and still it is one queue all along:
what was delivered from it, and then what waits on it, is what was sent on it, in order
(`links_are_fifo`). -/

namespace SecureSession.Network

/-! ### Uses -/

/-- What can be done with a network. -/
inductive Use
  | send (e : Envelope)
  | deliver (l : Link)
  | clear
deriving DecidableEq

/-- A network, with what was sent and what was delivered since all messages were last dropped. -/
structure Course where
  network : Network
  sent : List Envelope
  /-- Each envelope with the link that it was asked for on. -/
  delivered : List (Link × Envelope)
deriving DecidableEq

namespace Course

/-- A new network. -/
def start : Course := ⟨.empty, [], []⟩

/-- Uses the network, and takes down what is sent and delivered. -/
def use (c : Course) : Use → Course
  | .send e => { c with network := c.network.send e, sent := c.sent ++ [e] }
  | .deliver l => { c with
      network := (c.network.deliver l).2
      delivered := c.delivered ++ ((c.network.deliver l).1.map fun e => (l, e)).toList }
  | .clear => ⟨c.network.clear, [], []⟩

/-- Uses the network over and over. -/
def useAll (c : Course) (l : List Use) : Course := l.foldl use c

/-- What was sent on a link. -/
def sentOn (c : Course) (l : Link) : List Envelope := c.sent.filter fun e => decide (e.link = l)

/-- What was delivered from a link. -/
def deliveredOn (c : Course) (l : Link) : List Envelope :=
  c.delivered.filterMap fun d => if d.1 = l then some d.2 else none

end Course

/-! ### Any network -/

variable {n : Network} {l : Link}

/-- To deliver is to take the oldest message, if there is one. -/
theorem deliver_fst (n : Network) (l : Link) : (n.deliver l).1 = (n.queue l).head? := by
  cases hq : n.queue l with
  | nil => rw [deliver_nil hq]; rfl
  | cons e rest => exact (deliver_cons hq).1

theorem queued_of_mem_entries {e : Link × List Envelope} (h : e ∈ n.links.entries) :
    n.queued e.1 = e.2.length := by
  have hget : n.links.get? e.1 = some e.2 := SortedMap.get?_eq_some_iff.mpr h
  simp [queued, queue, hget]

/-- The messages are those on the links that are kept. -/
theorem inFlight_eq_sum (n : Network) : n.inFlight = (n.busyLinks.map n.queued).sum := by
  have hcounts : n.busyLinks.map n.queued = n.links.values.map List.length := by
    simp only [busyLinks, SortedMap.keys, SortedMap.values, List.map_map]
    exact List.map_congr_left fun e he => queued_of_mem_entries he
  rw [inFlight, List.length_flatten, hcounts]

/-! ### Tidy networks -/

theorem IsTidy.mem_busyLinks_iff (h : n.IsTidy) : l ∈ n.busyLinks ↔ 0 < n.queued l := by
  rw [queued, List.length_pos_iff]
  exact ⟨h.queue_ne_nil, mem_busyLinks_of_queue⟩

theorem IsTidy.deliver_eq_none_iff (h : n.IsTidy) : (n.deliver l).1 = none ↔ l ∉ n.busyLinks := by
  rw [deliver_fst, List.head?_eq_none_iff, h.mem_busyLinks_iff, queued,
    List.length_pos_iff, not_not]

/-! ### Runs -/

namespace Course

/-- Whether every link has been a queue so far, and is kept only while it has messages. -/
structure IsFifo (c : Course) : Prop where
  passage : ∀ l, c.deliveredOn l ++ c.network.queue l = c.sentOn l
  tidy : c.network.IsTidy

variable {c : Course}

theorem isFifo_start : start.IsFifo := ⟨fun _ => rfl, isTidy_empty⟩

theorem IsFifo.send (h : c.IsFifo) (e : Envelope) : (c.use (.send e)).IsFifo := by
  refine ⟨fun l => ?_, h.tidy.send e⟩
  have hbefore := h.passage l
  simp only [use, sentOn, deliveredOn, queue_send, List.filter_append] at hbefore ⊢
  by_cases hl : e.link = l
  · simp [hl, ← hbefore]
  · simp [hl, Ne.symm hl, hbefore]

theorem IsFifo.deliver (h : c.IsFifo) (l : Link) : (c.use (.deliver l)).IsFifo := by
  refine ⟨fun l' => ?_, h.tidy.deliver l⟩
  have hbefore := h.passage l'
  simp only [use, sentOn, deliveredOn, queue_deliver, deliver_fst,
    List.filterMap_append] at hbefore ⊢
  by_cases hl : l' = l
  · -- what leaves the queue at its head comes last among what was delivered
    subst l'
    cases hq : c.network.queue l with
    | nil => simpa [hq] using hbefore
    | cons e rest => simpa [hq] using hbefore
  · cases hq : c.network.queue l with
    | nil => simpa [hl] using hbefore
    | cons e rest => simpa [hl, Ne.symm hl] using hbefore

theorem IsFifo.use (h : c.IsFifo) (u : Use) : (c.use u).IsFifo := by
  cases u with
  | send e => exact h.send e
  | deliver l => exact h.deliver l
  | clear => exact isFifo_start

theorem IsFifo.useAll : ∀ (l : List Use) {c : Course}, c.IsFifo → (c.useAll l).IsFifo
  | [], _, h => h
  | u :: l, _, h => IsFifo.useAll l (h.use u)

/-- The message that is delivered next is the oldest sent that has not been delivered. -/
theorem IsFifo.deliver_eq (h : c.IsFifo) (l : Link) :
    (c.network.deliver l).1 = (c.sentOn l)[(c.deliveredOn l).length]? := by
  rw [deliver_fst, ← h.passage l, List.getElem?_append_right (Nat.le_refl _), Nat.sub_self,
    List.head?_eq_getElem?]

end Course

/-- However a network is used, every link is a queue: what was delivered from it and what waits on
it are, in this order, what was sent on it since all was last dropped, and what comes next is the
oldest of that which waits. No link is kept without messages, so the busy links are those with
messages, in order and each once; nothing is delivered just where a link is not busy, and the
messages in flight are those on the busy links. -/
theorem links_are_fifo (uses : List Use) :
    let c := Course.start.useAll uses
    (∀ l, c.deliveredOn l ++ c.network.queue l = c.sentOn l) ∧
    (∀ l, (c.network.deliver l).1 = (c.sentOn l)[(c.deliveredOn l).length]?) ∧
    (∀ l, c.network.links.get? l ≠ some []) ∧
    (c.network.busyLinks.Pairwise fun a b => compare a b = .lt) ∧ c.network.busyLinks.Nodup ∧
    (∀ l, l ∈ c.network.busyLinks ↔ 0 < c.network.queued l) ∧
    (∀ l, (c.network.deliver l).1 = none ↔ l ∉ c.network.busyLinks) ∧
    c.network.inFlight = (c.network.busyLinks.map c.network.queued).sum := by
  intro c
  have h : c.IsFifo := Course.isFifo_start.useAll uses
  exact ⟨h.passage, h.deliver_eq, h.tidy, SortedMap.pairwise_keys _, SortedMap.nodup_keys _,
    fun _ => h.tidy.mem_busyLinks_iff, fun _ => h.tidy.deliver_eq_none_iff, inFlight_eq_sum _⟩

end SecureSession.Network
