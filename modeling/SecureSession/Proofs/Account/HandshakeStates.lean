import SecureSession.Proofs.Account.ExchangeKeys
import SecureSession.Proofs.Account.Isolation
import SecureSession.Proofs.Account.KeyChange
import SecureSession.Proofs.Account.Replays
import SecureSession.Proofs.Storage.Queries

/-! # States of handshakes

Two flags tell the state of the handshake with an address: whether an exchange is under way and
whether a session is live. A move of an account is one event there at most (`Account.eventAt`): what
the account was asked to do there, if it did, or else a sweep, if the key on file for the peer
changed. The record at the address undergoes what the event says (`SessionRecord.Undergoes`), so
that the flags after a run are those of its events (`Flags.run`), and all queries about the address
agree on them. -/

namespace SecureSession

/-! ### Events -/

/-- What can come to the handshake with an address. -/
inductive Event
  /-- An exchange is opened. -/
  | opened
  /-- A leg of an exchange makes a session. -/
  | exchanged
  /-- A first message or a bundle makes a session. -/
  | built
  | archived
  | deleted
deriving DecidableEq

namespace Event

/-- Whether an event opens an exchange. -/
def opens : Event → Bool
  | opened => true
  | _ => false

/-- Whether an event ends the exchange under way. -/
def concludes : Event → Bool
  | exchanged | deleted => true
  | _ => false

/-- Whether an event makes a session. -/
def establishes : Event → Bool
  | exchanged | built => true
  | _ => false

/-- Whether an event leaves no session live. -/
def retires : Event → Bool
  | archived | deleted => true
  | _ => false

/-- Whether something has started among some events and nothing has stopped it since. -/
def Since (start stop : Event → Bool) (l : List Event) : Prop :=
  ∃ before e later, l = before ++ e :: later ∧ start e = true ∧ ∀ e' ∈ later, stop e' = false

variable {start stop : Event → Bool}

theorem not_since_nil : ¬Since start stop [] := by
  rintro ⟨before, e, later, h, -⟩
  simp at h

theorem since_snoc {l : List Event} {e : Event} :
    Since start stop (l ++ [e]) ↔ start e = true ∨ Since start stop l ∧ stop e = false := by
  constructor
  · rintro ⟨before, e', later, h, hstart, hlater⟩
    rcases later.eq_nil_or_concat with rfl | ⟨later, last, rfl⟩
    · obtain ⟨-, h⟩ := List.append_inj' h rfl
      cases h
      exact .inl hstart
    · have hsplit : l ++ [e] = (before ++ e' :: later) ++ [last] := by simpa using h
      obtain ⟨rfl, hlast⟩ := List.append_inj' hsplit rfl
      cases hlast
      exact .inr ⟨⟨before, e', later, rfl, hstart, fun x hx => hlater x (by simp [hx])⟩,
        hlater e (by simp)⟩
  · rintro (hstart | ⟨⟨before, e', later, rfl, hstart, hlater⟩, hstop⟩)
    · exact ⟨l, e, [], rfl, hstart, nofun⟩
    · refine ⟨before, e', later ++ [e], by simp, hstart, fun x hx => ?_⟩
      rcases List.mem_append.mp hx with hx | hx
      · exact hlater x hx
      · rw [List.mem_singleton.mp hx]
        exact hstop

end Event

/-! ### Flags -/

/-- Whether an exchange is under way with an address and whether a session is live. -/
structure Flags where
  underway : Bool
  live : Bool
deriving DecidableEq

namespace Flags

/-- The flags of an address that nothing has come to. -/
def clear : Flags := ⟨false, false⟩

/-- The flags after an event. An exchange under way is kept where a bundle or a first message makes
a session, and where one is archived. -/
def step (f : Flags) : Event → Flags
  | .opened => { f with underway := true }
  | .exchanged => ⟨false, true⟩
  | .built => { f with live := true }
  | .archived => { f with live := false }
  | .deleted => clear

/-- The flags after some events. -/
def run (f : Flags) (l : List Event) : Flags := l.foldl step f

/-- The state of the handshake that flags tell. -/
def state (f : Flags) : HandshakeState :=
  if f.underway then .pendingInitiate else if f.live then .established else .noSession

theorem run_append (f : Flags) (l l' : List Event) : f.run (l ++ l') = (f.run l).run l' :=
  List.foldl_append

theorem run_snoc (f : Flags) (l : List Event) (e : Event) : f.run (l ++ [e]) = (f.run l).step e :=
  f.run_append l [e]

/-- An exchange is under way if one was opened and neither concluded nor deleted since. -/
theorem underway_run (l : List Event) :
    (clear.run l).underway = true ↔ Event.Since Event.opens Event.concludes l := by
  induction l using List.reverseRecOn with
  | nil => simp [Event.not_since_nil, run, clear]
  | append_singleton l e ih =>
    rw [run_snoc, Event.since_snoc, ← ih]
    cases e <;> simp [step, clear, Event.opens, Event.concludes]

/-- A session is live if one was made and neither archived nor deleted since. -/
theorem live_run (l : List Event) :
    (clear.run l).live = true ↔ Event.Since Event.establishes Event.retires l := by
  induction l using List.reverseRecOn with
  | nil => simp [Event.not_since_nil, run, clear]
  | append_singleton l e ih =>
    rw [run_snoc, Event.since_snoc, ← ih]
    cases e <;> simp [step, clear, Event.establishes, Event.retires]

end Flags

/-! ### Moves -/

/-- What an account is put to: a turn, or the news that the peer has answered on the live session
with an address. -/
inductive Move
  | turn (t : Turn)
  | acknowledge (a : Address) (faults : Faults)

/-- Whether a move stores a record as it is given. -/
def Move.isStore : Move → Bool
  | turn t => t.request.isStore
  | acknowledge .. => false

/-- What a request that succeeds comes to at an address by what it asks for. -/
def Request.eventAt (a : Address) : Request → Reply → Option Event
  | receive b _ m, .outcome o =>
    if b = a ∧ o.isEstablished = true then some (if m.leg?.isSome then .exchanged else .built)
    else none
  | useBundle b .., .outcome o => if b = a ∧ o.isEstablished = true then some .built else none
  | initiate b _, .outcome _ => if b = a then some .opened else none
  | archive b, _ => if b = a then some .archived else none
  | archiveSiblings b, _ => if a.name = b.name ∧ a ≠ b then some .archived else none
  | archiveAll, _ => some .archived
  | delete b, _ => if b = a then some .deleted else none
  | deleteAll name, _ => if a.name = name then some .deleted else none
  | _, _ => none

namespace Account

section Moves
variable (suite : Suite)

/-- Makes a move. -/
def move (A : Account) : Move → Except SessionError (Reply ⊕ Bool) × Account
  | .turn t => ((A.take suite t).1.map .inl, (A.take suite t).2)
  | .acknowledge a faults =>
    let r := { A.storage with faults }.run A.party.account (·.acknowledge a)
    (r.1.map .inr, { A with storage := r.2 })

/-- The account after some moves. -/
def through (A : Account) (l : List Move) : Account := l.foldl (fun A m => (A.move suite m).2) A

/-- What a request comes to at an address, by its answer: what it asks for there, or else that the
session is archived, if the key on file for the peer is another one afterwards. -/
def eventOf (A : Account) (a : Address) (q : Request) : Option Event :=
  ((A.serve suite q).1.toOption.bind (q.eventAt a)).or
    (if A.vault.Rekeys (A.serve suite q).2.vault a.name then some .archived else none)

/-- What a move comes to at an address. -/
def eventAt (A : Account) (a : Address) : Move → Option Event
  | .turn t => (A.facing t).eventOf suite a t.request
  | .acknowledge .. => none

/-- What the moves of a run come to at an address, in order. -/
def eventsAt (a : Address) : Account → List Move → List Event
  | _, [] => []
  | A, m :: l => (A.eventAt suite a m).toList ++ eventsAt a (A.move suite m).2 l

end Moves

end Account

/-! ### What a record undergoes -/

namespace SessionRecord

/-- What an event at its address makes of a record. -/
inductive Undergoes (suite : Suite) (r : SessionRecord) : Option Event → SessionRecord → Prop
  | untouched : Undergoes suite r none r
  | acknowledged : Undergoes suite r none r.acknowledge
  | opened (x : PendingExchange) : Undergoes suite r (some .opened) (r.setPending x)
  | exchanged {r' : SessionRecord} {s : SessionState} (hcurrent : r'.current = some s)
    (hnew : s.IsNew suite) (hpending : r'.pending = none) : Undergoes suite r (some .exchanged) r'
  /-- The exchange under way is kept. -/
  | built {r' : SessionRecord} {s : SessionState} (hcurrent : r'.current = some s)
    (hnew : s.IsNew suite) (hpending : r'.pending = r.pending) : Undergoes suite r (some .built) r'
  | archived {r' : SessionRecord} (hcurrent : r'.current = none)
    (hpending : r'.pending = r.pending) :
    Undergoes suite r (some .archived) r'
  | deleted : Undergoes suite r (some .deleted) .empty

/-- Whether flags tell of a record. -/
structure Shows (r : SessionRecord) (f : Flags) : Prop where
  underway : r.pending.isSome = f.underway
  live : r.isActive = f.live

theorem isActive_of_current_eq_none {r : SessionRecord} (h : r.current = none) :
    r.isActive = false := by
  simp [isActive, canSend, h]

@[simp] theorem isActive_acknowledge (r : SessionRecord) : r.acknowledge.isActive = r.isActive := by
  unfold isActive canSend version acknowledge modifyCurrent
  cases r.current <;> rfl

theorem shows_empty : empty.Shows .clear := ⟨rfl, rfl⟩

variable {suite : Suite} {r r' : SessionRecord} {e : Option Event} {f : Flags}

/-- The flags after the event tell of the record that has undergone it. -/
theorem Undergoes.shows (hkeys : suite.KeepsKeys) (h : r.Undergoes suite e r') (hf : r.Shows f) :
    r'.Shows (f.run e.toList) := by
  cases h with
  | untouched => exact hf
  | acknowledged => exact ⟨hf.underway, (isActive_acknowledge r).trans hf.live⟩
  | opened x => exact ⟨rfl, hf.live⟩
  | exchanged hcurrent hnew hpending =>
    exact ⟨congrArg Option.isSome hpending, isActive_of_isNew hkeys hcurrent hnew⟩
  | built hcurrent hnew hpending =>
    exact ⟨(congrArg Option.isSome hpending).trans hf.underway,
      isActive_of_isNew hkeys hcurrent hnew⟩
  | archived hcurrent hpending =>
    exact ⟨(congrArg Option.isSome hpending).trans hf.underway,
      isActive_of_current_eq_none hcurrent⟩
  | deleted => exact shows_empty

end SessionRecord

/-! ### What is listed -/

namespace Vault

theorem Readable.handshakeState_eq {v : Vault} (hread : v.Readable) {a : Address} {f : Flags}
    (h : (v.contents.record a).Shows f) : v.handshakeState a = .ok f.state := by
  simp only [handshakeState, hread.load_eq, ← h.underway, ← h.live, Flags.state]
  rfl

end Vault

/-! ### Requests -/

namespace Account

/-- Whether the record at an address undergoes what a request comes to there. -/
def Tracks (suite : Suite) (A : Account) (q : Request) (a : Address) : Prop :=
  (A.contents.record a).Undergoes suite (A.eventOf suite a q)
    ((A.serve suite q).2.contents.record a)

variable {suite : Suite} {A : Account} {q : Request} {a : Address} {reply : Reply}

theorem eventAt_of_not_mem_sites (ha : a ∉ q.sites) : q.eventAt a reply = none := by
  cases q with
  | receive b | useBundle b | initiate b =>
    have hne : b ≠ a := fun h => ha h.symm
    cases reply <;> simp [Request.eventAt, hne]
  | archive b | delete b =>
    have hne : b ≠ a := fun h => ha h.symm
    simp [Request.eventAt, hne]
  | deleteAll name => exact if_neg ha
  | archiveSiblings b => exact if_neg ha
  | archiveAll => exact absurd trivial ha
  | publish | save | mark | reconcile | store => rfl

/-- A record at an address that a request is not about is swept, if the key on file for the peer
changes, or stays as it is. -/
theorem tracks_elsewhere (suite : Suite) (hread : A.vault.Readable) (ha : a ∉ q.sites) :
    A.Tracks suite q a := by
  have hnone : (A.serve suite q).1.toOption.bind (q.eventAt a) = none :=
    Option.bind_eq_none_iff.mpr fun reply _ => eventAt_of_not_mem_sites ha
  rw [Tracks, eventOf, hnone, Option.none_or]
  split
  · rename_i hrekeys
    have hsite : q.site? ≠ some a := by
      cases q with
      | receive b | useBundle b | initiate b => exact fun h => ha (Option.some.inj h).symm
      | _ => nofun
    obtain ⟨i, j, hi, hj, hkey⟩ := hrekeys
    have hswept := (comes_serve suite A q).swept hread (Vault.filed_of_loadIdentity hi)
      (Vault.filed_of_loadIdentity hj) hkey.symm
    obtain ⟨hcurrent, hpending⟩ := hswept.siblings a rfl hsite
    exact .archived hcurrent hpending
  · rename_i hkept
    have hsame := ((confined_serve suite q).records A a ha).resolve_right hkept
    rw [contents, contents, Vault.record_congr hsame]
    exact .untouched

/-- What leaves all that is stored as it was is no event. -/
theorem tracks_of_unchanged (h : A.Unchanged (A.serve suite q).2)
    (hnone : (A.serve suite q).1.toOption.bind (q.eventAt a) = none) : A.Tracks suite q a := by
  have hvault := h.vault_eq (comes_serve suite A q).keeps.account
  rw [Tracks, eventOf, hnone, Option.none_or, if_neg (hvault ▸ A.vault.not_rekeys_self a.name),
    contents, contents, hvault]
  exact .untouched

theorem tracks_of_event {e : Event} (hreply : (A.serve suite q).1 = .ok reply)
    (hevent : q.eventAt a reply = some e)
    (h : (A.contents.record a).Undergoes suite (some e) ((A.serve suite q).2.contents.record a)) :
    A.Tracks suite q a := by
  have hsome : (A.serve suite q).1.toOption.bind (q.eventAt a) = some e := by
    rw [hreply]
    exact hevent
  rw [Tracks, eventOf, hsome, Option.some_or]
  exact h

/-! ### Edits -/

/-- What an edit that succeeds makes of a record is what its plan makes of it. -/
theorem tracks_edit {α : Type} {f : α → Reply} {plan : Vault → Except SessionError (Plan α)}
    {e : Event} (hserve : A.serve suite q = A.edit f plan)
    (hreply : (A.serve suite q).1 = .ok reply) (hevent : q.eventAt a reply = some e)
    (h : ∀ made, plan A.vault = .ok made → (A.contents.record a).Undergoes suite (some e)
      ((A.vault.apply made.writes).contents.record a)) : A.Tracks suite q a := by
  refine tracks_of_event hreply hevent ?_
  have hcarries := A.carries_edit f plan
  rw [← hserve, hreply] at hcarries
  change (A.contents.record a).Undergoes suite (some e)
    ((A.serve suite q).2.vault.contents.record a)
  generalize (A.serve suite q).2.vault = v at hcarries ⊢
  cases hcarries with
  | done hmade => exact h _ hmade

/-- The record at an address is archived along with others, or is empty and need not be. -/
theorem undergoes_archiveAt {l : List Address} {made : Plan Nat}
    (hl : a ∈ l ∨ A.contents.record a = .empty) (h : A.vault.archiveAt l = .ok made) :
    (A.contents.record a).Undergoes suite (some .archived)
      ((A.vault.apply made.writes).contents.record a) := by
  obtain ⟨⟨b, n⟩, hstage, h⟩ := bind_eq_ok.mp h
  cases h
  show (A.contents.record a).Undergoes suite _ ((A.vault.apply b).contents.record a)
  rw [(Vault.leads_of_foldlM Batch.isBounded_empty hstage).contents, Vault.apply_empty]
  by_cases ha : a ∈ l
  · have hrecord : (A.vault.contents.archiveAt l).record a = (A.contents.record a).archive :=
      if_pos ha
    rw [hrecord]
    exact .archived (SessionRecord.current_archive _) (SessionRecord.pending_archive _)
  · have hrecord : (A.vault.contents.archiveAt l).record a = A.contents.record a := if_neg ha
    have hcurrent : (A.contents.record a).current = none := by rw [hl.resolve_left ha]; rfl
    rw [hrecord]
    exact .archived hcurrent rfl

/-- Likewise for the records that are deleted. -/
theorem undergoes_deletes {l : List Address} (hl : a ∈ l ∨ A.contents.record a = .empty) :
    (A.contents.record a).Undergoes suite (some .deleted)
      ((A.vault.apply (l.foldl Batch.delete .empty)).contents.record a) := by
  have hrecord : (A.vault.apply (l.foldl Batch.delete .empty)).contents.record a = .empty := by
    rw [A.vault.contents_apply_deletes]
    dsimp only
    split
    · rfl
    · exact hl.resolve_left ‹_›
  rw [hrecord]
  exact .deleted

/-! ### Steps of a handshake -/

/-- A step of a handshake is answered with its outcome. -/
theorem outcome_of_step {plan : Vault → Draw (Plan Step)}
    (h : (A.step fun s => A.party.perform s plan).1 = .ok reply) : ∃ o, reply = .outcome o := by
  unfold step at h
  dsimp only at h
  cases hresult : (A.party.perform A.storage plan).1 with
  | error e => rw [hresult] at h; cases h
  | ok o =>
    rw [hresult] at h
    cases h
    exact ⟨o, rfl⟩

/-- A new session is the live one at its address, and takes the exchange under way from the record
that it goes on top of. -/
theorem record_of_established {o : HandshakeOutcome}
    (hreply : (A.serve suite q).1 = .ok (.outcome o)) (ho : o.isEstablished = true)
    (hsite : q.site? = some a) : ∃ s, s.IsNew suite ∧
      ((A.serve suite q).2.contents.record a).current = some s ∧
      ((A.serve suite q).2.contents.record a).pending = (q.base (A.contents.record a)).pending := by
  have hyields := yields_serve suite A q
  rw [hreply] at hyields
  obtain ⟨s, hnew, hcontents⟩ := hyields.of_established ho hsite
  rw [hcontents]
  exact ⟨s, hnew, Contents.current_install_self .., Contents.pending_install_self ..⟩

section Yields
variable {thread : UInt64} {o : HandshakeOutcome} {c : Contents}

theorem Yields.dropped_or_established {m : HandshakeMessage}
    (h : A.Yields suite (.receive a thread m) (.ok (.outcome o)) c) :
    o.status.isDropped = true ∨ o.isEstablished = true := by
  cases h with
  | dropped h => exact .inl h
  | completed | built => exact .inr rfl
  | kept h | deleted l h | archived l h => exact absurd rfl (h o)

theorem Yields.established {b : PreKeyBundle}
    (h : A.Yields suite (.useBundle a thread b) (.ok (.outcome o)) c) : o.isEstablished = true := by
  cases h with
  | used => rfl
  | kept h | deleted l h | archived l h => exact absurd rfl (h o)

theorem Yields.initiated (h : A.Yields suite (.initiate a thread) (.ok (.outcome o)) c) :
    c = A.contents.put a ((A.contents.record a).setPending (A.party.opening suite)) := by
  cases h with
  | opened => rfl
  | kept h | deleted l h | archived l h => exact absurd rfl (h o)

end Yields

theorem tracks_receive {thread : UInt64} {m : HandshakeMessage}
    (hreply : (A.serve suite (.receive a thread m)).1 = .ok reply) :
    A.Tracks suite (.receive a thread m) a := by
  obtain ⟨o, rfl⟩ := outcome_of_step hreply
  have hyields := yields_receive suite A a thread m
  have hcomes := comes_serve suite A (.receive a thread m)
  rw [hreply] at hyields hcomes
  cases ho : o.isEstablished with
  | true =>
    obtain ⟨s, hnew, hcurrent, hpending⟩ := record_of_established hreply ho rfl
    refine tracks_of_event hreply (if_pos ⟨rfl, ho⟩) ?_
    cases m with
    | initiate | response => exact .exchanged hcurrent hnew hpending
    | bundle | legacy => exact .built hcurrent hnew hpending
  | false =>
    have hnot : ¬(a = a ∧ o.isEstablished = true) := fun h => by cases ho.symm.trans h.2
    have hdropped := hyields.dropped_or_established.resolve_right fun h => hnot ⟨rfl, h⟩
    refine tracks_of_unchanged (hcomes.unchanged_of_dropped hdropped).1 ?_
    rw [hreply]
    exact if_neg hnot

theorem tracks_useBundle {thread : UInt64} {b : PreKeyBundle}
    (hreply : (A.serve suite (.useBundle a thread b)).1 = .ok reply) :
    A.Tracks suite (.useBundle a thread b) a := by
  obtain ⟨o, rfl⟩ := outcome_of_step hreply
  have hyields := yields_useBundle suite A a thread b
  rw [hreply] at hyields
  obtain ⟨s, hnew, hcurrent, hpending⟩ := record_of_established hreply hyields.established rfl
  exact tracks_of_event hreply (if_pos ⟨rfl, hyields.established⟩) (.built hcurrent hnew hpending)

theorem tracks_initiate {thread : UInt64}
    (hreply : (A.serve suite (.initiate a thread)).1 = .ok reply) :
    A.Tracks suite (.initiate a thread) a := by
  obtain ⟨o, rfl⟩ := outcome_of_step hreply
  have hyields := yields_initiate suite A a thread
  rw [hreply] at hyields
  refine tracks_of_event hreply (if_pos rfl) ?_
  rw [hyields.initiated, Contents.record_put_self]
  exact .opened _

/-! ### Any request -/

/-- Whatever is asked for, the record at every address undergoes what that comes to there. -/
theorem tracks_serve (suite : Suite) (hread : A.vault.Readable) (hstore : q.isStore = false)
    (a : Address) : A.Tracks suite q a := by
  by_cases ha : a ∈ q.sites
  swap
  · exact tracks_elsewhere suite hread ha
  cases hreply : (A.serve suite q).1 with
  | error e =>
    have hcomes := comes_serve suite A q
    rw [hreply] at hcomes
    exact tracks_of_unchanged hcomes.unchanged_of_error (by rw [hreply]; rfl)
  | ok reply =>
    cases q with
    | receive b thread m =>
      obtain rfl : a = b := ha
      exact tracks_receive hreply
    | useBundle b thread bundle =>
      obtain rfl : a = b := ha
      exact tracks_useBundle hreply
    | initiate b thread =>
      obtain rfl : a = b := ha
      exact tracks_initiate hreply
    | publish | save | mark | reconcile => exact ha.elim
    | store => cases hstore
    | delete b =>
      obtain rfl : a = b := ha
      refine tracks_edit rfl hreply (if_pos rfl) fun made hmade => ?_
      cases hmade
      exact undergoes_deletes (l := [a]) (.inl List.mem_cons_self)
    | deleteAll name =>
      obtain rfl : a.name = name := ha
      refine tracks_edit rfl hreply (if_pos rfl) fun made hmade => ?_
      cases hmade
      exact undergoes_deletes
        ((A.vault.mem_addresses_or a).imp_left fun h => Vault.mem_addressesOf.mpr ⟨rfl, h⟩)
    | archive b =>
      obtain rfl : a = b := ha
      refine tracks_edit rfl hreply (if_pos rfl) fun made hmade => ?_
      obtain ⟨plan, hplan, h⟩ := bind_eq_ok.mp hmade
      cases h
      exact undergoes_archiveAt (.inl List.mem_cons_self) hplan
    | archiveSiblings b =>
      refine tracks_edit rfl hreply (if_pos ha) fun made hmade => undergoes_archiveAt ?_ hmade
      exact (A.vault.mem_addresses_or a).imp_left fun h =>
        List.mem_filter.mpr ⟨Vault.mem_addressesOf.mpr ⟨ha.1, h⟩, by simpa using ha.2⟩
    | archiveAll =>
      exact tracks_edit rfl hreply rfl fun made hmade =>
        undergoes_archiveAt (A.vault.mem_addresses_or a) hmade

/-! ### Moves -/

/-- An acknowledgment writes the record at its address once more, if anything. -/
theorem vault_acknowledge (suite : Suite) (A : Account) (b : Address) (faults : Faults) :
    (A.move suite (.acknowledge b faults)).2.vault = A.vault ∨
      (A.move suite (.acknowledge b faults)).2.vault =
        A.vault.apply (Batch.empty.put b (A.contents.record b).acknowledge) := by
  have hrun := Storage.vault_carryOut { A.storage with
    faults } A.party.account (A.vault.acknowledge b)
  obtain hsame | ⟨made, hmade, happly⟩ := hrun
  · exact .inl hsame
  · obtain ⟨r, hload, h⟩ := bind_eq_ok.mp hmade
    obtain rfl := Vault.record_of_load hload
    split at h <;> cases h
    · exact .inr happly
    · exact .inl happly

variable {m : Move}

theorem readable_move (suite : Suite) (hread : A.vault.Readable) (hm : m.isStore = false) :
    (A.move suite m).2.vault.Readable := by
  cases m with
  | turn t =>
    have hbounded : t.request.StoresBounded := by
      intro b r h
      rw [Move.isStore, h] at hm
      cases hm
    obtain ⟨b, hb, hvault⟩ := (comes_take suite A t).vault_eq hbounded
    have happly : (A.vault.apply b).Readable := hread.apply hb
    exact hvault ▸ happly
  | acknowledge b faults =>
    have hbounded : (A.contents.record b).acknowledge.IsBounded := A.vault.isBounded_record b
    rcases A.vault_acknowledge suite b faults with h | h <;> rw [h]
    · exact hread
    · exact hread.apply (Batch.isBounded_empty.put hbounded b)

theorem undergoes_move (suite : Suite) (hread : A.vault.Readable) (hm : m.isStore = false)
    (a : Address) :
    (A.contents.record a).Undergoes suite (A.eventAt suite a m)
      ((A.move suite m).2.contents.record a) := by
  cases m with
  | turn t => exact tracks_serve (A := A.facing t) suite hread hm a
  | acknowledge b faults =>
    have hbounded : (A.contents.record b).acknowledge.IsBounded := A.vault.isBounded_record b
    change (A.contents.record a).Undergoes suite none
      ((A.move suite (.acknowledge b faults)).2.vault.contents.record a)
    rcases A.vault_acknowledge suite b faults with h | h <;> rw [h]
    · exact .untouched
    · rw [A.vault.contents_apply_put Batch.isBounded_empty hbounded]
      by_cases hab : a = b
      · subst hab
        rw [Contents.record_put_self]
        exact .acknowledged
      · rw [Contents.record_put_of_ne _ hab]
        exact .untouched

/-! ### Runs -/

/-- The flags after a run are those of its events: everything stored can still be read, and the
record at the address is as the flags tell. -/
theorem shows_through (hkeys : suite.KeepsKeys) (a : Address) :
    ∀ (l : List Move) {A : Account} {f : Flags},
    A.vault.Readable → (∀ m ∈ l, m.isStore = false) → (A.contents.record a).Shows f →
      (A.through suite l).vault.Readable ∧
        ((A.through suite l).contents.record a).Shows (f.run (A.eventsAt suite a l))
  | [], _, _, hread, _, hf => ⟨hread, hf⟩
  | m :: l, A, f, hread, hl, hf => by
    have hm := hl m List.mem_cons_self
    have hf' := (undergoes_move suite hread hm a).shows hkeys hf
    rw [eventsAt, Flags.run_append]
    exact shows_through hkeys a l (readable_move suite hread hm)
      (fun m' hm' => hl m' (List.mem_cons_of_mem m hm')) hf'

/-- An account starts with nothing stored and makes moves, whatever fails on the way, none of which
stores a record as it is given. Then for every address the state of the handshake is that of the
flags which the events there lead to: an exchange is under way exactly if one was opened and neither
completed nor deleted since, and otherwise a session is established exactly if one was made and
neither archived nor deleted since. All that can be asked about the session agrees on that. -/
theorem handshakeState_follows (suite : Suite) (hkeys : suite.KeepsKeys) {A : Account}
    (hempty : A.vault = .empty) {l : List Move} (hl : ∀ m ∈ l, m.isStore = false) (a : Address) :
    let v := (A.through suite l).vault
    let events := A.eventsAt suite a l
    let f := Flags.clear.run events
    (f.underway = true ↔ Event.Since Event.opens Event.concludes events) ∧
    (f.live = true ↔ Event.Since Event.establishes Event.retires events) ∧
    v.handshakeState a = .ok f.state ∧
    v.containsSession a = .ok f.live ∧
    (∃ r, v.load a = .ok r ∧ r.isActive = f.live) ∧
    ∀ names, ∃ active, v.activeAddresses names = .ok active ∧
      (a ∈ active ↔ a.name ∈ names ∧ f.live = true) := by
  intro v events f
  have hcontents : A.contents.record a = .empty := by
    rw [contents, hempty]
    rfl
  obtain ⟨hread, hshows⟩ := shows_through hkeys a l (hempty ▸ Vault.readable_empty) hl
    (hcontents ▸ SessionRecord.shows_empty)
  have hlive : ((A.through suite l).contents.record a).isActive = f.live := hshows.live
  refine ⟨Flags.underway_run events, Flags.live_run events, hread.handshakeState_eq hshows, ?_,
    ⟨_, hread.load_eq a, hlive⟩, fun names => ?_⟩
  · rw [← hlive]
    exact hread.containsSession_eq a
  · obtain ⟨active, hactive, hmem⟩ := hread.activeAddresses_eq names
    exact ⟨active, hactive, hlive ▸ hmem a⟩

/-- An exchange is opened with Bob, and another one in its place fails to be committed; Bob responds
to the first. The next one is opened when his second device turns out to have a new key, and a
bundle makes a session under that key, on which Bob then answers. -/
def movesWithBob : List Move :=
  [.turn ⟨.initiate ⟨"bob", 1⟩ 7, ⟨.counter 40, 5⟩, .never⟩,
    .turn ⟨.initiate ⟨"bob", 1⟩ 7, ⟨.counter 43, 6⟩, Faults.never.arm⟩,
    .turn ⟨.receive ⟨"bob", 1⟩ 7 (.response (sampleLeg 0x28282828 20 21 2 .response)),
      ⟨.counter 46, 7⟩, .never⟩,
    .turn ⟨.initiate ⟨"bob", 1⟩ 7, ⟨.counter 46, 8⟩, .never⟩,
    .turn ⟨.save ⟨"bob", 2⟩ ⟨.replicate 4⟩, ⟨.counter 49, 9⟩, .never⟩,
    .turn
      ⟨.useBundle ⟨"bob", 1⟩ 7 ⟨1, 9, ⟨.replicate 60⟩, ⟨.replicate 4⟩⟩, ⟨.counter 49, 10⟩, .never⟩,
    .acknowledge ⟨"bob", 1⟩ .never]

/-- In the end the second exchange is still under way, and the session
made of the bundle is live. -/
theorem handshakeState_follows_bob :
    let A := sample .acceptChanged .empty
    let v := (A.through .plain movesWithBob).vault
    A.vault = .empty ∧ (∀ m ∈ movesWithBob, m.isStore = false) ∧
    A.eventsAt .plain ⟨"bob", 1⟩ movesWithBob = [.opened, .exchanged, .opened, .archived, .built] ∧
    v.handshakeState ⟨"bob", 1⟩ = .ok .pendingInitiate ∧
    v.containsSession ⟨"bob", 1⟩ = .ok true := by
  intro A v
  have hempty : A.vault = .empty := vault_sample ..
  have hstore : ∀ m ∈ movesWithBob, m.isStore = false := by decide
  have hevents : A.eventsAt .plain ⟨"bob", 1⟩ movesWithBob =
      [.opened, .exchanged, .opened, .archived, .built] := by decide +kernel
  obtain ⟨-, -, hstate, hcontains, -⟩ :=
    handshakeState_follows .plain Suite.keepsKeys_plain hempty hstore ⟨"bob", 1⟩
  rw [hevents] at hstate hcontains
  exact ⟨hempty, hstore, hevents, hstate, hcontains⟩

end Account

end SecureSession
