import SecureSession.Proofs.Simulation.Moves
import SecureSession.Proofs.Simulation.Numbering

/-! # Numbers identify conversations

The number of a conversation is given out to whoever asks first, and comes to the other side with
the messages. Whatever moves are made, two calls are told the same number just if they ask about the
same two accounts, and a number that a device records as it establishes a session is that of the two
accounts of the session (`World.conversations_identified`). -/

namespace SecureSession.World

variable {suite : Suite} {w : World}

/-! ### Moments that tell numbers -/

namespace Moment

/-- Whether the call of a moment asks for the number of the conversation of
two accounts, and is told. -/
structure Asks (m : Moment) (a b : String) (id : UInt64) : Prop where
  accounts : m.call.accounts? = some (a, b)
  told : ∃ w', threadId a b m.world = .ok id w'

/-- Whether a device establishes a session with another, and records, once, that the security of a
conversation is shown anew. -/
structure Completes (suite : Suite) (m : Moment) (x y : Address) (id : UInt64) : Prop where
  parties : m.call.parties? = some (x, y)
  answer : m.answer suite = some .established
  updates : ((m.after suite).recording x).securityUpdates =
    (m.world.recording x).securityUpdates ++ [id]

/-- Whether a moment tells a number as that of the conversation of two accounts. -/
inductive Tells (suite : Suite) (m : Moment) : String → String → UInt64 → Prop
  | asked {a b : String} {id : UInt64} (h : m.Asks a b id) : Tells suite m a b id
  | completed {x y : Address} {id : UInt64} (h : m.Completes suite x y id) :
    Tells suite m x.name y.name id

variable {m : Moment}

theorem asks_of_accounts {a b : String} (h : m.call.accounts? = some (a, b)) :
    m.Asks a b (m.world.thread a b) := ⟨h, _, threadId_eq a b m.world⟩

/-- A step that establishes a session is recorded under the number of the conversation. -/
theorem records_of_answer (hw : Attainable suite m.world) (h : m.answer suite = some .established) :
    ∃ x y id, m.Completes suite x y id ∧
      (m.after suite).threads.get? (.between x.name y.name) = some id := by
  obtain ⟨x, o, v, hsettle, hperforms, hrecordings, -⟩ := settled_of_run (run_of_answer h)
  obtain ⟨y, id, hparties, hthread, habout⟩ := hperforms.isAbout hw.isOrderly hw.labels
  have hstatus : o.status = .established := Except.ok.inj (congrArg World.answer hsettle)
  have hestablished : o.isEstablished = true := decide_eq_true hstatus
  refine ⟨x, y, id, ⟨hparties, h, ?_⟩, ?_⟩
  · have hupdates := securityUpdates_settle x o v
    rw [hsettle, habout.updates, hestablished, recording, recording, hrecordings] at hupdates
    exact hupdates
  · rw [Moment.after, hw.threads_after]
    exact hthread

/-- A number that a moment tells is that of the conversation. -/
theorem Tells.threads (hw : Attainable suite m.world) {a b : String} {id : UInt64}
    (h : m.Tells suite a b id) : (m.after suite).threads.get? (.between a b) = some id := by
  cases h with
  | asked h =>
    obtain ⟨haccounts, w', htold⟩ := h
    rw [threadId_eq] at htold
    cases htold
    rw [Moment.after, hw.threads_after]
    exact get?_threads_asked haccounts m.world
  | completed h =>
    obtain ⟨x, y, id', h', hthread⟩ := records_of_answer hw h.answer
    have hparties := h.parties
    rw [h'.parties] at hparties
    cases hparties
    have hupdates := h.updates
    rw [h'.updates] at hupdates
    cases List.append_cancel_left hupdates
    exact hthread

end Moment

/-! ### The result -/

/-- A moment of a run is one of an attainable world, and the run goes on from there. -/
theorem Attainable.goes_on (hw : Attainable suite w) {l : List Call} {m : Moment}
    (hm : m ∈ timeline suite w l) :
    Attainable suite m.world ∧
    ∃ rest, w.afterAll suite l = (m.after suite).afterAll suite rest := by
  obtain ⟨before, after, hsplit⟩ := List.append_of_mem hm
  obtain ⟨l₁, l₂, rfl, -, hworld⟩ := timeline_split hsplit
  refine ⟨hworld ▸ hw.afterAll l₁, l₂, ?_⟩
  rw [afterAll_append, ← hworld]
  rfl

/-- What a moment of a run tells still holds when the run is over. -/
theorem Attainable.threads_of_tells (hw : Attainable suite w) {l : List Call} {m : Moment}
    (hm : m ∈ timeline suite w l) {a b : String} {id : UInt64} (h : m.Tells suite a b id) :
    (w.afterAll suite l).threads.get? (.between a b) = some id := by
  obtain ⟨hattainable, rest, hend⟩ := hw.goes_on hm
  rw [hend]
  exact Attainable.kept_afterAll rest (hattainable.call m.call) (h.threads hattainable)

/-- In every attainable world and through any moves, as long as there are numbers enough: every call
that asks for the number of a conversation is told one, every step that establishes a session has
one recorded by the device that takes it, and any two of these numbers, whenever they are told, are
the same just if they are told of the same two accounts, in either order. A number that is told of
two accounts has been recorded by devices of the two only. So both sides of a handshake record the
same number, and handshakes of other accounts another. -/
theorem conversations_identified (suite : Suite) {w : World} (hw : Attainable suite w)
    (moves : List Move) (hfew : (w.through suite moves).threads.size < 2 ^ 64 - 1) :
    let run := timeline suite w (callsThrough suite w moves)
    (∀ m ∈ run, ∀ a b, m.call.accounts? = some (a, b) → ∃ id, m.Asks a b id) ∧
    (∀ m ∈ run, m.answer suite = some .established → ∃ x y id, m.Completes suite x y id) ∧
    (∀ m ∈ run, ∀ m' ∈ run, ∀ a b id c d id', m.Tells suite a b id → m'.Tells suite c d id' →
      (id = id' ↔ s(a, b) = s(c, d))) ∧
    ∀ m ∈ run, ∀ a b id, m.Tells suite a b id →
      ∀ x, id ∈ ((w.through suite moves).recording x).securityUpdates → x.name ∈ s(a, b) := by
  intro run
  rw [through_eq_afterAll] at hfew ⊢
  have hend := hw.afterAll (callsThrough suite w moves)
  have hinjective := (hend.isNumbered hfew).injective
  refine ⟨fun m _ a b h => ⟨_, Moment.asks_of_accounts h⟩, fun m hm h => ?_, ?_, ?_⟩
  · obtain ⟨x, y, id, hcompletes, -⟩ := Moment.records_of_answer (hw.goes_on hm).1 h
    exact ⟨x, y, id, hcompletes⟩
  · intro m hm m' hm' a b id c d id' h h'
    have hthread := hw.threads_of_tells hm h
    have hthread' := hw.threads_of_tells hm' h'
    rw [← Conversation.between_eq_iff]
    constructor
    · rintro rfl
      exact hinjective _ _ _ hthread hthread'
    · intro hsame
      rw [hsame, hthread'] at hthread
      exact (Option.some.inj hthread).symm
  · intro m hm a b id h x hid
    obtain ⟨name, hname⟩ := hend.labels.recorded x id hid
    have hsame := hinjective _ _ _ hname (hw.threads_of_tells hm h)
    rw [← Conversation.between_eq_iff.mp hsame]
    exact Sym2.mem_mk_left x.name name

/-- Bob takes in the initiate of Alice and she takes in his, and then Carol is asked about. -/
def asking : List Move :=
  [.operation (.deliver 0 1), .operation (.deliver 1 0), .call (.threadId "carol" "alice")]

/-- When the initiates of Alice and Bob have crossed, both record the number of their conversation,
and it is not that of Alice and Carol. -/
theorem conversations_identified_crossed :
    Attainable .plain crossed ∧ (crossed.through .plain asking).threads.size < 2 ^ 64 - 1 ∧
    ∃ m m' m'' : Moment, ∃ id id', m.Completes .plain bob alice id ∧
      m'.Completes .plain alice bob id ∧ m''.Asks "carol" "alice" id' ∧ id ≠ id' := by
  have hfew : (crossed.through .plain asking).threads.size < 2 ^ 64 - 1 := by decide +kernel
  obtain ⟨hasks, hcompletes, htells, -⟩ :=
    conversations_identified .plain attainable_crossed asking hfew
  have hcalls : callsThrough .plain crossed asking =
      [.deliver ⟨alice, bob⟩, .deliver ⟨bob, alice⟩, .threadId "carol" "alice"] := by decide +kernel
  rw [hcalls] at hasks hcompletes htells
  have hm := mem_timeline .plain crossed [] (.deliver ⟨alice, bob⟩)
    [.deliver ⟨bob, alice⟩, .threadId "carol" "alice"]
  have hm' := mem_timeline .plain crossed [.deliver ⟨alice, bob⟩] (.deliver ⟨bob, alice⟩)
    [.threadId "carol" "alice"]
  have hm'' := mem_timeline .plain crossed [.deliver ⟨alice, bob⟩, .deliver ⟨bob, alice⟩]
    (.threadId "carol" "alice") []
  obtain ⟨x, y, id, h⟩ := hcompletes _ hm (by decide +kernel)
  obtain ⟨x', y', id₁, h'⟩ := hcompletes _ hm' (by decide +kernel)
  obtain ⟨id', h''⟩ := hasks _ hm'' "carol" "alice" rfl
  cases h.parties
  cases h'.parties
  have hsame := (htells _ hm _ hm' _ _ _ _ _ _ (.completed h) (.completed h')).mpr Sym2.eq_swap
  have hother := htells _ hm _ hm'' _ _ _ _ _ _ (.completed h) (.asked h'')
  refine ⟨attainable_crossed, hfew, _, _, _, id, id', h, hsame ▸ h', h'', fun heq => ?_⟩
  exact absurd (hother.mp heq) (by decide)

end SecureSession.World
