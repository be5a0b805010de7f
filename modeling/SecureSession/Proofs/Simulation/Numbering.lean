import Mathlib.Data.Sym.Sym2
import SecureSession.Proofs.Handshake.Conversations
import SecureSession.Proofs.Simulation.Steps

/-! # The numbers of conversations

A call that needs the number of a conversation asks for it first (`World.asked`). The first to ask
has the next number given out, and all others are told the same: no number is given out twice or
taken back, as long as there are enough of them (`World.IsNumbered`). A message on its way bears the
number of the conversation of its two ends, and so does what a device records of a session that it
establishes (`World.Labels`). -/

namespace SecureSession

/-! ### Conversations -/

namespace Conversation

/-- The two accounts of a conversation, in either order. -/
theorem sym2_between (a b : String) : s((between a b).low, (between a b).high) = s(a, b) := by
  unfold between
  split_ifs
  · rfl
  · exact Sym2.eq_swap

theorem between_comm (a b : String) : between a b = between b a := by
  unfold between
  split_ifs with hab hba hba
  · rw [String.le_antisymm hab hba]
  · rfl
  · rfl
  · exact absurd ((String.le_total a b).resolve_left hab) hba

/-- A conversation is that of its two accounts, and of no others. -/
theorem between_eq_iff {a b c d : String} : between a b = between c d ↔ s(a, b) = s(c, d) := by
  constructor
  · intro h
    rw [← sym2_between a b, h, sym2_between]
  · intro h
    obtain ⟨rfl, rfl⟩ | ⟨rfl, rfl⟩ := Sym2.eq_iff.mp h
    · rfl
    · exact between_comm a b

end Conversation

/-- The conversation of the two ends of a message. -/
def Envelope.conversation (e : Envelope) : Conversation :=
  .between e.link.source.name e.link.target.name

/-! ### Recordings -/

/-- A device records the conversations of which the security is shown anew, in order. -/
theorem securityUpdates_run (source : Address) (actions : List SessionAction) (r : Recording) :
    (Dispatch.run (Recording.sink source) actions r).2.securityUpdates =
      r.securityUpdates ++ SessionAction.updates actions := by
  suffices hfold : ∀ acc : DispatchReport × Recording,
      (actions.foldl (Dispatch.step (Recording.sink source)) acc).2.securityUpdates =
        acc.2.securityUpdates ++ SessionAction.updates actions from hfold _
  induction actions with
  | nil => exact fun acc => (List.append_nil _).symm
  | cons action rest ih =>
    intro acc
    rw [List.foldl_cons, ih, SessionAction.updates, SessionAction.updates, List.filterMap_cons]
    cases action with
    | sendHandshake target thread m =>
      cases hencode : m.encode <;>
        simp [Dispatch.step, SessionAction.call?, hencode, Recording.sink, SessionAction.update?]
    | securityUpdate thread =>
      simp [Dispatch.step, SessionAction.call?, Recording.sink, SessionAction.update?]
    | drainPending address => rfl
    | notify notice => rfl

namespace World

variable {suite : Suite} {w w' : World} {a : Address}

theorem securityUpdates_settle (a : Address) (o : HandshakeOutcome) (w : World) :
    ((ending (settle a o w)).recording a).securityUpdates =
      (w.recording a).securityUpdates ++ SessionAction.updates o.actions := by
  have hrecording : (ending (settle a o w)).recording a =
      { (Dispatch.run (Recording.sink a) o.actions (w.recording a)).2 with outbox := [] } :=
    congrArg (Option.getD · Recording.empty) (SortedMap.get?_insert_self ..)
  rw [hrecording]
  exact securityUpdates_run a o.actions _

theorem recording_settle_of_ne {b : Address} (hb : b ≠ a) (o : HandshakeOutcome) (w : World) :
    (ending (settle a o w)).recording b = w.recording b :=
  congrArg (Option.getD · Recording.empty) (SortedMap.get?_insert_of_ne _ hb _)

/-! ### Asking -/

/-- The two accounts whose conversation a call needs the number of. -/
def Call.accounts? : Call → Option (String × String)
  | threadId a b => some (a, b)
  | establishFromBundle source target | sendFirstMessage source target | initiate source target =>
    some (source.name, target.name)
  | addAccount .. | acknowledge .. | deliver _ | rotateIdentity _ | failNextCommit _ | advance _ =>
    none

/-- The world in which a call goes on once it knows the number it needs. -/
def asked (w : World) (c : Call) : World :=
  match c.accounts? with
  | some (a, b) => ending (threadId a b w)
  | none => w

theorem threadId_eq (a b : String) (w : World) :
    threadId a b w = .ok (w.thread a b) (ending (threadId a b w)) := by
  obtain ⟨w', hid, -⟩ := threadId_ok a b w
  rw [hid]
  rfl

theorem same_threadId (a b : String) (w : World) : w.Same (ending (threadId a b w)) := by
  obtain ⟨w', hid, hsame⟩ := threadId_ok a b w
  rwa [hid]

/-- A step that asks first goes on with the number. -/
theorem ending_threadId_bind {α : Type} (a b : String) (f : UInt64 → WorldStep α) (w : World) :
    ending ((threadId a b >>= f) w) = ending (f (w.thread a b) (ending (threadId a b w))) := by
  rw [WorldStep.bind_eq, threadId_eq]
  rfl

/-- How a conversation comes by a number: it has one, or the next is given out to it. -/
theorem ending_threadId (a b : String) (w : World) :
    ((∃ id, w.threads.get? (.between a b) = some id) ∧ ending (threadId a b w) = w) ∨
    (w.threads.get? (.between a b) = none ∧ ending (threadId a b w) = { w with
      threads := w.threads.insert (.between a b) w.nextThread
      nextThread := w.nextThread + 1 }) := by
  rw [threadId, WorldStep.modifyGet_eq]
  dsimp only
  cases h : w.threads.get? (.between a b) with
  | some id => exact .inl ⟨⟨id, rfl⟩, rfl⟩
  | none => exact .inr ⟨rfl, rfl⟩

/-- Once asked for, a conversation has its number, and the others have theirs. -/
theorem get?_threads_threadId (a b : String) (w : World) (c : Conversation) :
    (ending (threadId a b w)).threads.get? c =
      if c = .between a b then some (w.thread a b) else w.threads.get? c := by
  obtain ⟨⟨id, hid⟩, hend⟩ | ⟨hnone, hend⟩ := ending_threadId a b w
  · rw [hend, thread, hid]
    split_ifs with hc
    · rw [hc, hid, Option.getD_some]
    · rfl
  · rw [hend, SortedMap.get?_insert, thread, hnone, Option.getD_none]

theorem get?_threads_asked {c : Call} {x y : String} (hc : c.accounts? = some (x, y)) (w : World) :
    (w.asked c).threads.get? (.between x y) = some (w.thread x y) := by
  rw [asked, hc, get?_threads_threadId, if_pos rfl]

/-- No number is taken back. -/
theorem kept_asked (c : Call) {k : Conversation} {id : UInt64} (h : w.threads.get? k = some id) :
    (w.asked c).threads.get? k = some id := by
  unfold asked
  split
  · rw [get?_threads_threadId]
    split_ifs with hk
    · rw [thread, ← hk, h, Option.getD_some]
    · exact h
  · exact h

theorem size_le_asked (w : World) (c : Call) : w.threads.size ≤ (w.asked c).threads.size := by
  unfold asked
  split
  · next a b _ =>
    obtain ⟨-, hend⟩ | ⟨hnone, hend⟩ := ending_threadId a b w
    · rw [hend]
    · rw [hend, SortedMap.size_insert_of_none hnone]
      exact Nat.le_succ _
  · exact Nat.le_refl _

/-! ### Numbers -/

/-- Whether the numbers up to the next are given out, to one conversation each. -/
structure IsNumbered (w : World) : Prop where
  next : w.nextThread.toNat = w.threads.size + 1
  below : ∀ c id, w.threads.get? c = some id → id < w.nextThread
  injective : ∀ c c' id, w.threads.get? c = some id → w.threads.get? c' = some id → c = c'

theorem isNumbered_ofSeed (seed : UInt64) (config : SessionConfig) :
    (ofSeed seed config).IsNumbered :=
  ⟨rfl, nofun, nofun⟩

theorem IsNumbered.of_eq (h : w.IsNumbered) (hthreads : w'.threads = w.threads)
    (hnext : w'.nextThread = w.nextThread) : w'.IsNumbered := by
  obtain ⟨next, below, injective⟩ := h
  constructor <;> simpa only [hthreads, hnext]

/-- A number that has not been given out is given to a conversation that has none. -/
theorem IsNumbered.insert (h : w.IsNumbered) {k : Conversation} (hk : w.threads.get? k = none)
    (hfew : w.threads.size + 1 < 2 ^ 64 - 1) :
    ({ w with
      threads := w.threads.insert k w.nextThread
      nextThread := w.nextThread + 1 } : World).IsNumbered := by
  have hnext := h.next
  -- the counter does not wrap around
  have hsucc : (w.nextThread + 1).toNat = w.nextThread.toNat + 1 := by
    rw [UInt64.toNat_add, UInt64.toNat_one]
    omega
  refine ⟨?_, fun c id hc => ?_, fun c c' id hc hc' => ?_⟩
  · rw [hsucc, SortedMap.size_insert_of_none hk, hnext]
  · rw [UInt64.lt_iff_toNat_lt, hsucc]
    rw [SortedMap.get?_insert] at hc
    split_ifs at hc
    · cases hc
      exact Nat.lt_succ_self _
    · exact Nat.lt_succ_of_lt (UInt64.lt_iff_toNat_lt.mp (h.below c id hc))
  · rw [SortedMap.get?_insert] at hc hc'
    split_ifs at hc hc' with heq heq' heq'
    · exact heq.trans heq'.symm
    · cases hc
      exact absurd (h.below c' _ hc') (UInt64.lt_irrefl _)
    · cases hc'
      exact absurd (h.below c _ hc) (UInt64.lt_irrefl _)
    · exact h.injective c c' id hc hc'

theorem IsNumbered.asked (h : w.IsNumbered) (c : Call)
    (hfew : (w.asked c).threads.size < 2 ^ 64 - 1) : (w.asked c).IsNumbered := by
  unfold World.asked at hfew ⊢
  split at hfew
  · next a b _ =>
    obtain ⟨-, hend⟩ | ⟨hnone, hend⟩ := ending_threadId a b w
    · rwa [hend]
    · rw [hend] at hfew ⊢
      rw [SortedMap.size_insert_of_none hnone] at hfew
      exact h.insert hnone hfew
  · exact h

/-! ### What bears a number -/

/-- Whether a world has given out the numbers of a table, every message bears the number
of its conversation, and every number that a device has recorded is that of a
conversation of its account. -/
structure Labels (t : SortedMap Conversation UInt64) (next : UInt64) (w : World) : Prop where
  tidy : w.IsTidy
  threads : w.threads = t
  nextThread : w.nextThread = next
  messages : ∀ l, ∀ e ∈ w.network.queue l, t.get? e.conversation = some e.thread
  recorded : ∀ a, ∀ id ∈ (w.recording a).securityUpdates,
    ∃ name, t.get? (.between a.name name) = some id

section Labels
variable {t : SortedMap Conversation UInt64} {next : UInt64}

theorem Labels.calm (h : w.Labels t next) (hc : Calm w w') : w'.Labels t next :=
  ⟨hc.tidy h.tidy, hc.threads.trans h.threads, hc.nextThread.trans h.nextThread,
    hc.network ▸ h.messages, fun a id hid => h.recorded a id (hc.recorded a hid)⟩

theorem Labels.pop (h : w.Labels t next) (l : Link) : (w.pop l).Labels t next :=
  ⟨h.tidy.pop l, h.threads, h.nextThread,
    fun l' e he => h.messages l' e (Network.mem_queue_deliver he), h.recorded⟩

theorem Labels.sendAll (h : w.Labels t next) (es : List Envelope)
    (hes : ∀ e ∈ es, t.get? e.conversation = some e.thread) :
    ({ w with network := w.network.sendAll es } : World).Labels t next := by
  refine ⟨⟨h.tidy.outbox, h.tidy.network.sendAll es⟩, h.threads, h.nextThread, fun l e he => ?_,
    h.recorded⟩
  rcases Network.mem_queue_sendAll he with he | ⟨he, -⟩
  · exact h.messages l e he
  · exact hes e he

/-- What a device sends and records about a conversation bears its number. -/
theorem Labels.settle (h : w.Labels t next) {o : HandshakeOutcome} {peer : Address}
    {thread : UInt64} (hthread : t.get? (.between a.name peer.name) = some thread)
    (ho : o.IsAbout peer thread) : (ending (World.settle a o w)).Labels t next := by
  have hsent := h.sendAll (SessionAction.mail a o.actions) fun e he => by
    obtain ⟨hsource, m, hm⟩ := SessionAction.sendHandshake_of_mem_mail he
    obtain ⟨hpeer, hnumber⟩ := ho.actions _ hm
    rw [Envelope.conversation, hsource, hpeer, hnumber]
    exact hthread
  refine ⟨(lasts_isTidy : Lasts .plain IsTidy) (.settle a o) h.tidy, h.threads, h.nextThread,
    network_settle h.tidy a o ▸ hsent.messages, fun b id hid => ?_⟩
  by_cases hb : b = a
  · subst hb
    rw [securityUpdates_settle, ho.updates] at hid
    rcases List.mem_append.mp hid with hid | hid
    · exact h.recorded b id hid
    · split_ifs at hid
      · exact ⟨peer.name, List.mem_singleton.mp hid ▸ hthread⟩
      · cases hid
  · rw [recording_settle_of_ne hb] at hid
    exact h.recorded b id hid

end Labels

end World

namespace WorldStep

open World

variable {t : SortedMap Conversation UInt64} {next thread : UInt64}

theorem labels_useDevice {α : Type} (a : Address) (f : Device → α × Device) :
    Keeps (Labels t next) (World.useDevice a f) :=
  fun w h => h.calm (calm_useDevice a f w (.refl w))

theorem labels_onDevice {α : Type} (a : Address) (f : Device → Except SessionError α × Device) :
    Keeps (Labels t next) (World.onDevice a f) :=
  fun w h => h.calm (calm_onDevice a f w (.refl w))

theorem labels_act {a peer : Address} {f : Device → Except SessionError HandshakeOutcome × Device}
    (hthread : t.get? (.between a.name peer.name) = some thread)
    (hf : ∀ d o, (f d).1 = .ok o → o.IsAbout peer thread) : Keeps (Labels t next) (World.act a f) :=
  keeps_act_of (fun w _ h => h.calm (calm_setDevice w a _)) fun _ d o ho _ h =>
    h.settle hthread (hf d o ho)

end WorldStep

/-! ### Calls -/

namespace World

variable {suite : Suite} {w : World}

/-- To give out a number leaves every message under the number of its conversation. -/
theorem Labels.asked (h : w.Labels w.threads w.nextThread) (c : Call) :
    (w.asked c).Labels (w.asked c).threads (w.asked c).nextThread := by
  have hsame : w.Same (w.asked c) := by
    unfold World.asked
    split
    · exact same_threadId _ _ w
    · exact ⟨rfl, rfl, rfl⟩
  refine ⟨h.tidy.of_eq hsame.recordings hsame.network, rfl, rfl, fun l e he => ?_,
    fun a id hid => ?_⟩
  · rw [hsame.network] at he
    exact kept_asked c (h.messages l e he)
  · rw [recording, hsame.recordings] at hid
    obtain ⟨name, hname⟩ := h.recorded a id hid
    exact ⟨name, kept_asked c hname⟩

/-- A message waits under the number of the conversation of the two ends of its link. -/
theorem Labels.thread_of_mem (h : w.Labels w.threads w.nextThread) (hw : w.IsOrderly) {l : Link}
    {e : Envelope} (he : e ∈ w.network.queue l) :
    w.threads.get? (.between l.target.name l.source.name) = some e.thread := by
  rw [← (hw.addressed l e he).1, Conversation.between_comm]
  exact h.messages l e he

/-- The answer to a message bears the number that the message bears. -/
theorem labels_deliver (suite : Suite) (hw : w.IsOrderly) (h : w.Labels w.threads w.nextThread)
    (l : Link) : (w.after suite (.deliver l)).Labels w.threads w.nextThread := by
  cases hq : w.network.queue l with
  | nil =>
    rw [after_deliver_nil hq]
    exact h
  | cons e rest =>
    have hmem : e ∈ w.network.queue l := hq ▸ List.mem_cons_self
    obtain ⟨rfl, -⟩ := hw.addressed l e hmem
    have hact : WorldStep.Keeps (Labels w.threads w.nextThread)
        (act e.link.target (Device.receive suite e)) :=
      WorldStep.labels_act (h.thread_of_mem hw hmem) fun d o ho => d.isAbout_receive suite e ho
    rw [after, Call.run, deliver_cons hq]
    exact hact.map some _ (h.pop _)

/-- The first message on a session bears the number of the conversation. -/
theorem labels_sendFirstMessage {t : SortedMap Conversation UInt64} {next thread : UInt64}
    {source target : Address} (hthread : t.get? (.between source.name target.name) = some thread) :
    WorldStep.Keeps (Labels t next) (do
      match ← onDevice source fun d => (d.firstMessage? target greeting, d) with
      | none => return false
      | some m =>
        modify fun w => { w with
          network := w.network.send ⟨⟨source, target⟩, thread, .prekey, m.encode⟩ }
        return true) := by
  refine .bind (WorldStep.labels_onDevice source _) fun first => ?_
  cases first with
  | none => exact .pure _
  | some m =>
    refine .bind (.modifyGet fun w h => ?_) fun _ => .pure _
    exact h.sendAll [⟨⟨source, target⟩, thread, .prekey, m.encode⟩]
      (List.forall_mem_singleton.mpr hthread)

/-- A call that asks first is what it does with the number. -/
theorem Labels.ask (h : w.Labels w.threads w.nextThread) {α β : Type} {c : Call} {x y : String}
    {f : UInt64 → WorldStep α} {g : α → β} (hc : c.accounts? = some (x, y))
    (hf : WorldStep.Keeps (Labels (w.asked c).threads (w.asked c).nextThread) (f (w.thread x y))) :
    (ending ((do return g (← threadId x y >>= f) : WorldStep β) w)).Labels
      (w.asked c).threads (w.asked c).nextThread := by
  have hend : ending (threadId x y w) = w.asked c := by rw [World.asked, hc]
  rw [ending_map, ending_threadId_bind, hend]
  exact hf _ (h.asked c)

/-- A call gives out no number but the one it asks for, and sends nothing under another. -/
theorem labels_after (suite : Suite) (hw : w.IsOrderly) (h : w.Labels w.threads w.nextThread)
    (c : Call) : (w.after suite c).Labels (w.asked c).threads (w.asked c).nextThread := by
  cases c with
  | threadId a b =>
    show (ending ((do let _ ← World.threadId a b; return none : WorldStep _) w)).Labels _ _
    rw [ending_threadId_bind]
    exact h.asked (.threadId a b)
  | establishFromBundle source target =>
    refine h.ask rfl (.bind (WorldStep.labels_useDevice target _) fun b => ?_)
    exact WorldStep.labels_act (get?_threads_asked rfl w) fun d o ho =>
      d.isAbout_useBundle suite target _ b ho
  | sendFirstMessage source target =>
    exact h.ask rfl (labels_sendFirstMessage (get?_threads_asked rfl w))
  | initiate source target =>
    exact h.ask rfl (WorldStep.labels_act (get?_threads_asked rfl w) fun d o ho =>
      d.isAbout_initiate suite target _ ho)
  | deliver l => exact labels_deliver suite hw h l
  | addAccount | acknowledge | rotateIdentity | failNextCommit | advance =>
    refine h.calm (calm_after suite ?_ w)
    trivial

/-! ### What a step records -/

/-- The devices of a step of a handshake: the one that takes the step, and its peer. -/
def Call.parties? : Call → Option (Address × Address)
  | establishFromBundle source target | initiate source target => some (source, target)
  | deliver l => some (l.target, l.source)
  | addAccount .. | threadId .. | sendFirstMessage .. | acknowledge .. | rotateIdentity _
  | failNextCommit _ | advance _ => none

/-- A step is about the conversation of its two devices, under the number of that conversation. -/
theorem Performs.isAbout {c : Call} {a : Address} {o : HandshakeOutcome} {n : Network}
    (hp : Performs suite w c a o n) (hw : w.IsOrderly) (h : w.Labels w.threads w.nextThread) :
    ∃ peer thread, c.parties? = some (a, peer) ∧
      (w.asked c).threads.get? (.between a.name peer.name) = some thread ∧
      o.IsAbout peer thread := by
  cases hp with
  | @establishFromBundle source target d publisher o hpublisher hd ho =>
    exact ⟨target, _, rfl, get?_threads_asked rfl w, d.isAbout_useBundle suite target _ _ ho⟩
  | @initiate source target d o hd ho =>
    exact ⟨target, _, rfl, get?_threads_asked rfl w, d.isAbout_initiate suite target _ ho⟩
  | @deliver l d e rest o hq hd ho =>
    have hmem : e ∈ w.network.queue l := hq ▸ List.mem_cons_self
    have habout := d.isAbout_receive suite e ho
    rw [(hw.addressed l e hmem).1] at habout
    exact ⟨l.source, e.thread, rfl, h.thread_of_mem hw hmem, habout⟩

/-! ### Attainable worlds -/

theorem Attainable.labels (h : Attainable suite w) : w.Labels w.threads w.nextThread := by
  induction h with
  | init seed config => exact ⟨isTidy_ofSeed seed config, rfl, rfl, nofun, nofun⟩
  | call h c ih =>
    have hafter := labels_after suite h.isOrderly ih c
    exact ⟨hafter.tidy, rfl, rfl, hafter.threads ▸ hafter.messages,
      hafter.threads ▸ hafter.recorded⟩
  | altered _ environment devices _ ih =>
    exact ⟨ih.tidy.of_eq rfl rfl, rfl, rfl, ih.messages, ih.recorded⟩

/-- A call gives out the number that it asks for. -/
theorem Attainable.threads_after (h : Attainable suite w) (c : Call) :
    (w.after suite c).threads = (w.asked c).threads :=
  (labels_after suite h.isOrderly h.labels c).threads

/-- As long as there are enough numbers, conversations do not share them. -/
theorem Attainable.isNumbered (h : Attainable suite w) (hfew : w.threads.size < 2 ^ 64 - 1) :
    w.IsNumbered := by
  induction h with
  | init seed config => exact isNumbered_ofSeed seed config
  | @call w h c ih =>
    have hafter := labels_after suite h.isOrderly h.labels c
    rw [hafter.threads] at hfew
    have hnumbered := ih (Nat.lt_of_le_of_lt (w.size_le_asked c) hfew)
    exact (hnumbered.asked c hfew).of_eq hafter.threads hafter.nextThread
  | altered _ environment devices _ ih => exact (ih hfew).of_eq rfl rfl

/-- A conversation keeps its number through all calls. -/
theorem Attainable.kept_afterAll : ∀ (l : List Call) {w : World}, Attainable suite w →
    ∀ {k : Conversation} {id : UInt64}, w.threads.get? k = some id →
      (w.afterAll suite l).threads.get? k = some id
  | [], _, _, _, _, hk => hk
  | c :: l, w, h, k, id, hk => by
    refine Attainable.kept_afterAll l (h.call c) ?_
    rw [h.threads_after c]
    exact kept_asked c hk

end World

end SecureSession
