import SecureSession.Proofs.Handshake.Replies
import SecureSession.Proofs.Simulation.Attainable

/-! # Handshakes come to rest

A delivery takes one message off the network and puts at most one response on it, and that only
where the message taken is an initiate. A response is read as one, so it is not answered in turn:
counting an initiate twice and any other message once, what is on the network goes down with every
message that is delivered. -/

namespace SecureSession

namespace World

variable {suite : Suite} {w : World}

/-! ### One delivery -/

/-- What the target of a link sends as it takes in the oldest message of the link. -/
def replies (suite : Suite) (w : World) (l : Link) : List Envelope :=
  match w.network.queue l, w.devices.get? l.target with
  | e :: _, some d =>
    match (d.receive suite e).1 with
    | .ok o => SessionAction.mail l.target o.actions
    | .error _ => []
  | _, _ => []

/-- A delivery puts the replies on the network, whether it fails or not. -/
theorem network_deliver (h : w.IsTidy) (l : Link) : (w.after suite (.deliver l)).network =
    (w.network.deliver l).2.sendAll (w.replies suite l) := by
  cases hq : w.network.queue l with
  | nil =>
    rw [after_deliver_nil hq, Network.deliver_nil hq, replies, hq]
    rfl
  | cons e rest =>
    cases hd : w.devices.get? l.target with
    | none =>
      have hafter : w.after suite (.deliver l) = w.pop l := congrArg ending (deliver_unknown hq hd)
      rw [hafter, replies, hq, hd]
      rfl
    | some d =>
      have hact : act l.target (Device.receive suite e) (w.pop l) = _ :=
        WorldStep.bind_eq (onDevice l.target (Device.receive suite e)) (settle l.target) (w.pop l)
      rw [onDevice_eq (w := w.pop l) hd] at hact
      rw [replies, hq, hd, World.after]
      rw [show Call.run suite (.deliver l) w = World.deliver suite l w from rfl, deliver_cons hq,
        WorldStep.bind_eq, hact]
      dsimp only
      cases hr : (d.receive suite e).1 with
      | error error => rfl
      | ok o =>
        show (w.network.deliver l).2.sendAll (Dispatch.run (Recording.sink l.target) o.actions
          (w.recording l.target)).2.outbox = _
        rw [outbox_run, h.outbox, List.nil_append]

/-- A message taken is answered by one response at most, and only if it is an initiate. -/
theorem replies_spec (suite : Suite) {l : Link} {e : Envelope} {rest : List Envelope}
    (hq : w.network.queue l = e :: rest) : (w.replies suite l).length ≤ 1 ∧
      ∀ x ∈ w.replies suite l, x.isResponse = true ∧ e.isInitiate = true := by
  rw [replies, hq]
  cases w.devices.get? l.target with
  | none => exact ⟨Nat.zero_le _, List.forall_mem_nil _⟩
  | some d =>
    dsimp only
    cases hr : (d.receive suite e).1 with
    | error error => exact ⟨Nat.zero_le _, List.forall_mem_nil _⟩
    | ok o =>
      dsimp only
      rcases hreceive :
        d.party.receivePayload suite d.storage e.link.source e.thread e.kind e.payload with
        ⟨r, p', s'⟩
      have hok : r = .ok o := by rw [← hr, Device.receive, Device.settle, hreceive]
      subst hok
      obtain ⟨m, hread, hreplies⟩ := Party.replies_of_receivePayload hreceive
      have hlength := Network.length_mail_le l.target o.actions
      generalize hsent : SessionAction.sent o.actions = sent at hreplies hlength
      cases hreplies with
      | none =>
        have hmail : SessionAction.mail l.target o.actions = [] :=
          List.eq_nil_of_length_eq_zero (Nat.le_zero.mp hlength)
        rw [hmail]
        exact ⟨Nat.zero_le _, List.forall_mem_nil _⟩
      | @response m leg hleg =>
        refine ⟨hlength, fun x hx => ⟨?_, ?_⟩⟩
        · have hsendable : ∀ y ∈ SessionAction.sent o.actions, y.2.IsSendable := by
            rw [hsent]
            exact List.forall_mem_singleton.mpr hleg
          obtain ⟨y, hy, -, hx⟩ := Network.sent_of_mem_mail hsendable hx
          rw [hsent, List.mem_singleton] at hy
          subst hy
          rw [Envelope.isResponse, hx]
        · rw [Envelope.isInitiate, hread]

/-- What is on the network, an initiate counted twice, goes down with the message that is taken. -/
theorem count_after (suite : Suite) (h : w.IsTidy) {l : Link} {e : Envelope} {rest : List Envelope}
    (hq : w.network.queue l = e :: rest) :
    2 * (w.after suite (.deliver l)).network.initiates +
    (w.after suite (.deliver l)).network.others + 1 ≤
      2 * w.network.initiates + w.network.others := by
  obtain ⟨hlength, hreplies⟩ := replies_spec suite hq
  have hperm := Network.perm_deliver hq
  have hnone : (w.replies suite l).countP Envelope.isInitiate = 0 :=
    List.countP_eq_zero.mpr fun x hx => by
      simp [Envelope.isInitiate_of_isResponse (hreplies x hx).1]
  have hothers : ((w.replies suite l).countP fun x => !x.isInitiate) ≤ (w.replies suite l).length :=
    List.countP_le_length
  have hinitiates : w.network.initiates =
      (if e.isInitiate then 1 else 0) + (w.network.deliver l).2.initiates := by
    rw [Network.initiates, hperm.countP_eq, List.countP_cons, Nat.add_comm]
    rfl
  have hrest : w.network.others =
      (if !e.isInitiate then 1 else 0) + (w.network.deliver l).2.others := by
    rw [Network.others, hperm.countP_eq, List.countP_cons, Nat.add_comm]
    rfl
  rw [network_deliver h, Network.initiates_sendAll, Network.others_sendAll, hnone,
    hinitiates, hrest]
  cases hrole : e.isInitiate with
  | true =>
    simp only [Bool.not_true, Bool.false_eq_true, if_true, if_false]
    omega
  | false =>
    have hsilent : (w.replies suite l).length = 0 := by
      refine List.length_eq_zero_iff.mpr (List.eq_nil_iff_forall_not_mem.mpr fun x hx => ?_)
      rw [(hreplies x hx).2] at hrole
      cases hrole
    simp only [Bool.not_false, Bool.false_eq_true, if_true, if_false]
    omega

/-! ### Deliveries in turn -/

section Schedule
variable (suite)

/-- The world after a delivery on each of some links in turn, whether they fail or not. -/
def deliverEach (w : World) (ls : List Link) : World := w.afterAll suite (ls.map .deliver)

/-- How many of some deliveries in turn take a message. -/
def taken : World → List Link → Nat
  | _, [] => 0
  | w, l :: ls => (if w.network.queue l = [] then 0 else 1) + taken (w.after suite (.deliver l)) ls

/-- What some deliveries in turn put on the network. -/
def allReplies : World → List Link → List Envelope
  | _, [] => []
  | w, l :: ls => w.replies suite l ++ allReplies (w.after suite (.deliver l)) ls

end Schedule

theorem deliverEach_cons (w : World) (l : Link) (ls : List Link) :
    w.deliverEach suite (l :: ls) = (w.after suite (.deliver l)).deliverEach suite ls := rfl

theorem deliverEach_snoc (w : World) (ls : List Link) (l : Link) :
    w.deliverEach suite (ls ++ [l]) = (w.deliverEach suite ls).after suite (.deliver l) := by
  rw [deliverEach, List.map_append, afterAll_append]
  rfl

theorem taken_snoc (l : Link) : ∀ (ls : List Link) (w : World), w.taken suite (ls ++ [l]) =
    w.taken suite ls + if (w.deliverEach suite ls).network.queue l = [] then 0 else 1
  | [], w => Nat.add_comm ..
  | l' :: ls, w => by
    rw [List.cons_append, taken, taken, taken_snoc l ls, deliverEach_cons, Nat.add_assoc]

theorem IsTidy.deliverEach : ∀ (ls : List Link) {w : World}, w.IsTidy →
    (w.deliverEach suite ls).IsTidy
  | [], _, h => h
  | l :: ls, _, h => IsTidy.deliverEach ls (h.after (.deliver l))

/-- No schedule takes more messages than there are, an initiate counted twice. -/
theorem taken_le (suite : Suite) : ∀ (ls : List Link) {w : World}, w.IsTidy →
    w.taken suite ls + (2 * (w.deliverEach suite ls).network.initiates +
      (w.deliverEach suite ls).network.others) ≤ 2 * w.network.initiates + w.network.others
  | [], w, _ => (Nat.zero_add _).le
  | l :: ls, w, h => by
    have htidy : (w.after suite (.deliver l)).IsTidy := h.after _
    have hrest := taken_le suite ls htidy
    rw [taken, deliverEach_cons]
    cases hq : w.network.queue l with
    | nil =>
      rw [after_deliver_nil hq] at hrest ⊢
      rw [if_pos rfl]
      omega
    | cons e rest =>
      have hstep := count_after suite h hq
      rw [if_neg (List.cons_ne_nil e rest)]
      omega

/-- What is on its way is what was, less what was taken, and what was put there. -/
theorem inFlight_deliverEach (suite : Suite) : ∀ (ls : List Link) {w : World}, w.IsTidy →
    (w.deliverEach suite ls).network.inFlight + w.taken suite ls =
      w.network.inFlight + (w.allReplies suite ls).length
  | [], w, _ => rfl
  | l :: ls, w, h => by
    have htidy : (w.after suite (.deliver l)).IsTidy := h.after _
    have hrest := inFlight_deliverEach suite ls htidy
    have hstep : (w.after suite (.deliver l)).network.inFlight = (w.replies suite l).length + _ :=
      (congrArg Network.inFlight (network_deliver h l)).trans (Network.inFlight_sendAll _ _)
    rw [taken, deliverEach_cons, allReplies, List.length_append]
    cases hq : w.network.queue l with
    | nil =>
      rw [Network.deliver_nil hq] at hstep
      rw [if_pos rfl]
      dsimp only at hstep
      omega
    | cons e rest =>
      have htaken := Network.inFlight_deliver hq
      rw [if_neg (List.cons_ne_nil e rest)]
      omega

theorem isResponse_of_mem_allReplies : ∀ (ls : List Link) {w : World} {x : Envelope},
    x ∈ w.allReplies suite ls → x.isResponse = true
  | l :: ls, w, x, hx => by
    rcases List.mem_append.mp hx with hx | hx
    · cases hq : w.network.queue l with
      | nil =>
        rw [replies, hq] at hx
        cases hx
      | cons e rest => exact ((replies_spec suite hq).2 x hx).1
    · exact isResponse_of_mem_allReplies ls hx

/-! ### Rounds -/

/-- A delivery takes a message off no other link. -/
theorem queue_after_deliver (h : w.IsTidy) {l l' : Link} (hne : l' ≠ l)
    (hbusy : w.network.queue l' ≠ []) : (w.after suite (.deliver l)).network.queue l' ≠ [] := by
  rw [network_deliver h, Network.queue_sendAll]
  cases hq : w.network.queue l with
  | nil =>
    rw [Network.deliver_nil hq]
    exact List.append_ne_nil_of_left_ne_nil hbusy _
  | cons e rest =>
    rw [(Network.deliver_cons hq).2 l', if_neg hne]
    exact List.append_ne_nil_of_left_ne_nil hbusy _

/-- Whether every delivery of a schedule takes a message, with its length bounded, and the network
is empty unless it is that long. -/
structure Drains (suite : Suite) (limit k : Nat) (w w' : World) (ls : List Link) : Prop where
  length : ls.length = k
  bound : k ≤ limit
  taken : w.taken suite ls = k
  ending : w' = w.deliverEach suite ls
  empty : k < limit → w'.network = .empty

theorem Drains.cons {limit k : Nat} {l : Link} {ls : List Link} {w' : World}
    (hq : w.network.queue l ≠ []) (h : Drains suite limit k (w.after suite (.deliver l)) w' ls) :
    Drains suite (limit + 1) (k + 1) w w' (l :: ls) where
  length := congrArg (· + 1) h.length
  bound := Nat.succ_le_succ h.bound
  taken := by rw [World.taken, if_neg hq, h.taken, Nat.add_comm]
  ending := h.ending
  empty hk := h.empty (Nat.lt_of_succ_lt_succ hk)

/-- One delivery, and then others. -/
theorem deliver_then_eq_ok {l : Link} {rest : WorldStep Nat} {k : Nat} {w' : World}
    (h : (do
      let _ ← World.deliver suite l
      return (← rest) + 1 : WorldStep Nat) w = .ok k w') :
    ∃ n, rest (w.after suite (.deliver l)) = .ok n w' ∧ k = n + 1 := by
  obtain ⟨status, w₁, hd, hthen⟩ := WorldStep.bind_eq_ok h
  obtain ⟨n, w₂, hrest, hpure⟩ := WorldStep.bind_eq_ok hthen
  cases hpure
  have hafter : w.after suite (.deliver l) = World.ending (World.deliver suite l w) := rfl
  rw [hafter, hd]
  exact ⟨n, hrest, rfl⟩

/-- The first delivery of a round, and then what is left of it: its links stay busy until their turn
comes, each is listed once, and only a delivery from a link takes messages off it. -/
theorem drains_of_round {limit : Nat} {l : Link} {round : List Link} {w' : World} {k : Nat}
    (ih : ∀ {w w' : World} {k : Nat}, w.IsTidy → round.Nodup →
      (∀ l ∈ round, w.network.queue l ≠ []) →
      deliverRounds suite limit round w = .ok k w' → ∃ ls, Drains suite limit k w w' ls)
    (hw : w.IsTidy) (hround : (l :: round).Nodup)
    (hbusy : ∀ l' ∈ l :: round, w.network.queue l' ≠ [])
    (h : deliverRounds suite (limit + 1) (l :: round) w = .ok k w') :
    ∃ ls, Drains suite (limit + 1) k w w' ls := by
  obtain ⟨hl, hnodup⟩ := List.nodup_cons.mp hround
  obtain ⟨hq, hothers⟩ := List.forall_mem_cons.mp hbusy
  rw [deliverRounds] at h
  obtain ⟨n, hrest, rfl⟩ := deliver_then_eq_ok h
  obtain ⟨ls, hls⟩ := ih (hw.after (.deliver l)) hnodup
    (fun l' hl' => queue_after_deliver hw (fun heq => hl (heq ▸ hl')) (hothers l' hl')) hrest
  exact ⟨l :: ls, hls.cons hq⟩

theorem drains_of_deliverRounds :
    ∀ (limit : Nat) {round : List Link} {w w' : World} {k : Nat}, w.IsTidy →
    round.Nodup → (∀ l ∈ round, w.network.queue l ≠ []) →
    deliverRounds suite limit round w = .ok k w' →
      ∃ ls, Drains suite limit k w w' ls
  | 0, _, w, _, _, _, _, _, h => by
    cases h
    exact ⟨[], rfl, Nat.le_refl _, rfl, rfl, fun hlt => absurd hlt (Nat.lt_irrefl _)⟩
  | limit + 1, l :: round, w, w', k, hw, hround, hbusy, h =>
    drains_of_round (drains_of_deliverRounds limit) hw hround hbusy h
  | limit + 1, [], w, w', k, hw, _, _, h => by
    have hget : (get : WorldStep World) w = .ok w w := rfl
    rw [deliverRounds, WorldStep.bind_eq, hget] at h
    dsimp only at h
    have hlinks : w.network.busyLinks.Nodup := SortedMap.nodup_keys _
    have hbusy : ∀ l ∈ w.network.busyLinks, w.network.queue l ≠ [] :=
      fun l hl => hw.network.queue_ne_nil hl
    cases hround : w.network.busyLinks with
    | nil =>
      rw [hround] at h
      cases h
      exact ⟨[], rfl, Nat.zero_le _, rfl, rfl, fun _ => Network.eq_empty_of_busyLinks hround⟩
    | cons l round =>
      -- a new round goes on as if its links had been listed before
      rw [hround] at h hlinks hbusy
      exact drains_of_round (drains_of_deliverRounds limit) hw hlinks hbusy h

/-! ### The result -/

/-- The world after the first deliveries of an endless schedule. -/
def deliverFirst (suite : Suite) (w : World) (schedule : Nat → Link) (n : Nat) : World :=
  w.deliverEach suite ((List.range n).map schedule)

theorem deliverFirst_succ (w : World) (schedule : Nat → Link) (n : Nat) :
    w.deliverFirst suite schedule (n + 1) =
      (w.deliverFirst suite schedule n).after suite (.deliver (schedule n)) := by
  rw [deliverFirst, List.range_succ, List.map_append]
  exact deliverEach_snoc w _ _

/-- Nothing is delivered from an empty network. -/
theorem deliverFirst_of_empty {schedule : Nat → Link} {n m : Nat} (hle : n ≤ m)
    (h : (w.deliverFirst suite schedule n).network = .empty) :
    (w.deliverFirst suite schedule m).network = .empty := by
  induction m, hle using Nat.le_induction with
  | base => exact h
  | succ m _ ih =>
    have hnil : (w.deliverFirst suite schedule m).network.queue (schedule m) = [] := by
      rw [ih, Network.queue_empty]
    rw [deliverFirst_succ, after_deliver_nil hnil]
    exact ih

/-- A schedule that delivers while there is anything to deliver takes a message each time until the
network is empty, and leaves it empty from then on. -/
theorem empty_or_taken {schedule : Nat → Link}
    (hbusy : ∀ n, (w.deliverFirst suite schedule n).network ≠ .empty →
      (w.deliverFirst suite schedule n).network.queue (schedule n) ≠ []) (n : Nat) :
    (w.deliverFirst suite schedule n).network = .empty ∨
      w.taken suite ((List.range n).map schedule) = n := by
  induction n with
  | zero => exact .inr rfl
  | succ n ih =>
    by_cases hempty : (w.deliverFirst suite schedule n).network = .empty
    · exact .inl (deliverFirst_of_empty n.le_succ hempty)
    · have htaken := ih.resolve_left hempty
      have hq := hbusy n hempty
      rw [deliverFirst] at hq
      rw [List.range_succ, List.map_append, List.map_singleton, taken_snoc, if_neg hq, htaken]
      exact .inr rfl

/-- From every attainable world and for every schedule of deliveries, each delivery puts at most one
message on the network, a response to the initiate that was taken. So no schedule delivers more
messages than there are, an initiate counted twice, and one that goes on while there are messages
has emptied the network by then. Where `deliverAll` answers, it has delivered as many messages as it
says, and has stopped short of its limit only at an empty network. -/
theorem handshakes_quiesce (suite : Suite) {w : World} (h : Attainable suite w) :
    (∀ ls l e rest v, v = w.deliverEach suite ls → v.network.queue l = e :: rest →
      (v.after suite (.deliver l)).network = (v.network.deliver l).2.sendAll (v.replies suite l) ∧
      (v.replies suite l).length ≤ 1 ∧
      ∀ x ∈ v.replies suite l, x.isResponse = true ∧ e.isInitiate = true) ∧
    (∀ ls, w.taken suite ls ≤ 2 * w.network.initiates + w.network.others) ∧
    (∀ schedule : Nat → Link, (∀ n, (w.deliverFirst suite schedule n).network ≠ .empty →
        (w.deliverFirst suite schedule n).network.queue (schedule n) ≠ []) →
      ∀ n, 2 * w.network.initiates + w.network.others ≤ n →
        (w.deliverFirst suite schedule n).network = .empty) ∧
    (∀ limit k w', deliverAll suite limit w = .ok k w' → ∃ ls, Drains suite limit k w w' ls ∧
      w'.network.inFlight + k = w.network.inFlight + (w.allReplies suite ls).length ∧
      ∀ x ∈ w.allReplies suite ls, x.isResponse = true) := by
  have hw := h.isTidy
  refine ⟨fun ls l e rest v hv hq => ?_, fun ls => ?_, fun schedule hbusy n hn => ?_,
    fun limit k w' hall => ?_⟩
  · have htidy : v.IsTidy := hv ▸ hw.deliverEach ls
    exact ⟨network_deliver htidy l, replies_spec suite hq⟩
  · have hcount := taken_le suite ls hw
    omega
  · have hcount := taken_le suite ((List.range n).map schedule) hw
    rcases empty_or_taken hbusy n with hempty | htaken
    · exact hempty
    · have hsplit := (w.deliverFirst suite schedule n).network.inFlight_eq
      have htidy : (w.deliverFirst suite schedule n).IsTidy := hw.deliverEach _
      rw [deliverFirst] at hsplit
      exact htidy.network.eq_empty (by rw [deliverFirst]; omega)
  · obtain ⟨ls, hls⟩ := drains_of_deliverRounds limit hw List.nodup_nil nofun hall
    have hcount := inFlight_deliverEach suite ls hw
    rw [← hls.ending, hls.taken] at hcount
    exact ⟨ls, hls, hcount, fun x hx => isResponse_of_mem_allReplies ls hx⟩

section Crossing

/-- Bob's turn, then Alice's, and so on. -/
def inTurn (n : Nat) : Link :=
  if n % 2 = 0 then ⟨⟨"alice", 1⟩, ⟨"bob", 1⟩⟩ else ⟨⟨"bob", 1⟩, ⟨"alice", 1⟩⟩

theorem busy_inTurn (n : Nat) (h : (crossed.deliverFirst .plain inTurn n).network ≠ .empty) :
    (crossed.deliverFirst .plain inTurn n).network.queue (inTurn n) ≠ [] := by
  have hall : (crossed.deliverFirst .plain inTurn 4).network = .empty ∧
      ∀ n < 4, (crossed.deliverFirst .plain inTurn n).network.queue (inTurn n) ≠ [] := by
    decide +kernel
  obtain ⟨hfour, hfirst⟩ := hall
  by_cases hn : n < 4
  · exact hfirst n hn
  · exact absurd (deliverFirst_of_empty (Nat.le_of_not_lt hn) hfour) h

/-- Two initiates that cross lead to two responses, and four deliveries in any
order empty the network. -/
theorem handshakes_quiesce_crossed :
    crossed.network.initiates = 2 ∧ crossed.network.others = 0 ∧
    (∀ ls, crossed.taken .plain ls ≤ 4) ∧
    (∀ n, 4 ≤ n → (crossed.deliverFirst .plain inTurn n).network = .empty) ∧
    ∃ w' ls, deliverAll .plain 9 crossed = .ok 4 w' ∧ Drains .plain 9 4 crossed w' ls ∧
      w'.network = .empty ∧ (crossed.allReplies .plain ls).length = 2 := by
  obtain ⟨-, hbound, hempties, hall⟩ := handshakes_quiesce .plain attainable_crossed
  have hcounts : crossed.network.initiates = 2 ∧ crossed.network.others = 0 := by decide +kernel
  obtain ⟨hinitiates, hothers⟩ := hcounts
  rw [hinitiates, hothers] at hbound hempties
  obtain ⟨w', hrun⟩ : ∃ w', deliverAll .plain 9 crossed = .ok 4 w' := by
    have hanswer : (match deliverAll .plain 9 crossed with
      | .ok k _ => some k
      | .error _ _ => none) = some 4 := by decide +kernel
    cases hrun : deliverAll .plain 9 crossed with
    | ok k w' =>
      rw [hrun] at hanswer
      exact ⟨w', by rw [Option.some.inj hanswer]⟩
    | error e w' =>
      rw [hrun] at hanswer
      cases hanswer
  obtain ⟨ls, hdrains, hcount, -⟩ := hall 9 4 w' hrun
  have hempty := hdrains.empty (by decide)
  have hnone : w'.network.inFlight = 0 := by rw [hempty]; rfl
  have hsplit := crossed.network.inFlight_eq
  exact ⟨hinitiates, hothers, hbound, hempties inTurn busy_inTurn, w', ls, hrun, hdrains,
    hempty, by omega⟩

end Crossing

end World

end SecureSession
