import SecureSession.Proofs.Simulation.Network

/-! # Messages in flight

The messages of all links together, in whatever order. To send adds to them and to deliver takes one
out, so they can be counted. A link that is kept without messages would be listed as busy; a tidy
network has none. -/

namespace SecureSession

/-! ### Messages of either role -/

namespace Envelope

/-- Whether the message is read as one that opens an exchange. -/
def isInitiate (e : Envelope) : Bool :=
  match HandshakeMessage.decode e.kind e.payload with
  | .ok (.initiate _) => true
  | _ => false

/-- Whether the message is read as the answer to one. -/
def isResponse (e : Envelope) : Bool :=
  match HandshakeMessage.decode e.kind e.payload with
  | .ok (.response _) => true
  | _ => false

theorem isInitiate_of_isResponse {e : Envelope} (h : e.isResponse = true) :
    e.isInitiate = false := by
  unfold isResponse at h
  unfold isInitiate
  split at h
  · rename_i m hread
    rw [hread]
  · cases h

end Envelope

/-! ### All links together -/

namespace Network

variable {n : Network} {l : Link}

/-- The messages of all links. -/
def envelopes (n : Network) : List Envelope := n.links.values.flatten

/-- How many initiates there are. -/
def initiates (n : Network) : Nat := n.envelopes.countP Envelope.isInitiate

/-- How many messages there are that are no initiates. -/
def others (n : Network) : Nat := n.envelopes.countP fun e => !e.isInitiate

/-- The messages of one link, apart from those of the others. -/
theorem perm_envelopes (n : Network) (l : Link) :
    n.envelopes.Perm (n.queue l ++ (n.links.erase l).values.flatten) := by
  cases hget : n.links.get? l with
  | none =>
    have hsame : (n.links.erase l).values = n.links.values :=
      congrArg (List.map Prod.snd) (SortedMap.entries_erase_of_none hget)
    rw [queue, hget, hsame]
    exact .refl _
  | some q =>
    rw [queue, hget]
    exact ((SortedMap.perm_entries hget).map Prod.snd).flatten

theorem perm_envelopes_insert (n : Network) (l : Link) (q : List Envelope) :
    (Network.mk (n.links.insert l q)).envelopes.Perm (q ++ (n.links.erase l).values.flatten) :=
  ((n.links.perm_entries_insert l q).map Prod.snd).flatten

theorem perm_send (n : Network) (e : Envelope) : (n.send e).envelopes.Perm (e :: n.envelopes) := by
  have hsend := n.perm_envelopes_insert e.link (n.queue e.link ++ [e])
  rw [List.append_assoc, List.singleton_append] at hsend
  exact hsend.trans (List.perm_middle.trans ((n.perm_envelopes e.link).symm.cons e))

/-- What is sent comes on top of what there is. -/
theorem perm_sendAll : ∀ (es : List Envelope) (n : Network),
    (n.sendAll es).envelopes.Perm (es ++ n.envelopes)
  | [], _ => .refl _
  | e :: es, n => by
    have hrest := perm_sendAll es (n.send e)
    have hfirst := (n.perm_send e).append_left es
    exact hrest.trans (hfirst.trans List.perm_middle)

/-- To deliver a message takes it out. -/
theorem perm_deliver {e : Envelope} {rest : List Envelope} (h : n.queue l = e :: rest) :
    n.envelopes.Perm (e :: (n.deliver l).2.envelopes) := by
  have hbefore := n.perm_envelopes l
  rw [h] at hbefore
  refine hbefore.trans (List.Perm.cons e ?_)
  rw [deliver, h]
  cases rest with
  | nil => exact .refl _
  | cons d rest => exact (n.perm_envelopes_insert l (d :: rest)).symm

theorem initiates_sendAll (n : Network) (es : List Envelope) :
    (n.sendAll es).initiates = es.countP Envelope.isInitiate + n.initiates := by
  rw [initiates, (perm_sendAll es n).countP_eq, List.countP_append, initiates]

theorem others_sendAll (n : Network) (es : List Envelope) :
    (n.sendAll es).others = (es.countP fun e => !e.isInitiate) + n.others := by
  rw [others, (perm_sendAll es n).countP_eq, List.countP_append, others]

theorem inFlight_sendAll (n : Network) (es : List Envelope) :
    (n.sendAll es).inFlight = es.length + n.inFlight := by
  have hlength := (perm_sendAll es n).length_eq
  rwa [List.length_append] at hlength

theorem inFlight_deliver {e : Envelope} {rest : List Envelope} (h : n.queue l = e :: rest) :
    n.inFlight = (n.deliver l).2.inFlight + 1 := (perm_deliver h).length_eq

theorem inFlight_eq (n : Network) : n.inFlight = n.initiates + n.others := by
  have hsplit := List.length_eq_countP_add_countP Envelope.isInitiate (l := n.envelopes)
  simp only [decide_not, Bool.decide_eq_true] at hsplit
  exact hsplit

/-! ### Links without messages -/

/-- Whether every link that is kept has messages. -/
def IsTidy (n : Network) : Prop := ∀ l, n.links.get? l ≠ some []

theorem isTidy_empty : empty.IsTidy := nofun

theorem IsTidy.send (h : n.IsTidy) (e : Envelope) : (n.send e).IsTidy := by
  intro l
  rw [Network.send, SortedMap.get?_insert]
  split
  · simp
  · exact h l

theorem IsTidy.sendAll : ∀ (es : List Envelope) {n : Network}, n.IsTidy → (n.sendAll es).IsTidy
  | [], _, h => h
  | e :: es, _, h => IsTidy.sendAll es (h.send e)

theorem IsTidy.deliver (h : n.IsTidy) (l : Link) : (n.deliver l).2.IsTidy := by
  intro l'
  unfold Network.deliver
  split
  · exact h l'
  · rw [SortedMap.get?_erase]
    split
    · simp
    · exact h l'
  · rename_i e rest hrest hqueue
    rw [SortedMap.get?_insert]
    split
    · simpa using hrest
    · exact h l'

/-- A link that is listed as busy has a message. -/
theorem IsTidy.queue_ne_nil (h : n.IsTidy) (hl : l ∈ n.busyLinks) : n.queue l ≠ [] := by
  obtain ⟨q, hq⟩ := SortedMap.mem_keys_iff.mp hl
  rw [queue, hq, Option.getD_some]
  rintro rfl
  exact h l hq

theorem eq_empty_of_busyLinks (h : n.busyLinks = []) : n = empty := by
  obtain ⟨⟨entries, sorted⟩⟩ := n
  have hentries : entries = [] := List.map_eq_nil_iff.mp h
  subst hentries
  rfl

/-- Without messages, nothing is kept. -/
theorem IsTidy.eq_empty (h : n.IsTidy) (hnone : n.inFlight = 0) : n = empty := by
  refine eq_empty_of_busyLinks (List.eq_nil_iff_forall_not_mem.mpr fun l hl => ?_)
  cases hqueue : n.queue l with
  | nil => exact h.queue_ne_nil hl hqueue
  | cons e rest =>
    have hsome := inFlight_deliver hqueue
    omega

end Network

end SecureSession
