import SecureSession.Proofs.Simulation.Trace

/-! # Random operations keep every device consistent

An operation makes the calls listed by `Operation.calls`. The devices it picks are there, and so is
the target of every message on the network, so a call fails by design only and the failure is
absorbed (`Operation.apply_spec`). What the devices have stored stays consistent, from the accounts
that are set up first (`World.setUp_spec`) to the last operation. -/

namespace SecureSession

namespace World

variable {suite : Suite} {w : World}

/-! ### Registered devices -/

/-- Whether there is a device at an address. -/
def IsRegistered (w : World) (a : Address) : Prop := (w.devices.get? a).isSome = true

/-- Whether both ends of every busy link are registered. -/
def IsClosed (w : World) : Prop :=
  ∀ l ∈ w.network.busyLinks, w.IsRegistered l.source ∧ w.IsRegistered l.target

theorem isRegistered_of_mem {a : Address} (h : a ∈ w.addresses) : w.IsRegistered a := by
  obtain ⟨d, hd⟩ := SortedMap.mem_keys_iff.mp h
  exact Option.isSome_iff_exists.mpr ⟨d, hd⟩

/-- A call that touches registered devices only leaves the devices that there are. -/
theorem addresses_after (hs : suite.KeepsKeys) (h : w.IsSound suite) {c : Call}
    (hc : ∀ a, c.Touches a → a ∈ w.addresses) : (w.after suite c).addresses = w.addresses := by
  refine SortedMap.keys_eq_of_mem_iff fun a => ?_
  by_cases ha : c.Touches a
  · have hmem := hc a ha
    refine iff_of_true ?_ hmem
    rw [SortedMap.mem_keys_iff, ← Option.isSome_iff_exists]
    exact (c.ends hs h).registered a (isRegistered_of_mem hmem)
  · rw [SortedMap.mem_keys_iff, SortedMap.mem_keys_iff, World.after, (c.ends hs h).device a ha]

theorem addresses_afterAll (hs : suite.KeepsKeys) :
    ∀ {calls : List Call} {w : World}, w.IsSound suite →
    (∀ c ∈ calls, ∀ a, c.Touches a → a ∈ w.addresses) →
      (w.afterAll suite calls).addresses = w.addresses
  | [], _, _, _ => rfl
  | c :: calls, w, h, hcalls => by
    obtain ⟨hc, hrest⟩ := List.forall_mem_cons.mp hcalls
    have hsame := addresses_after hs h hc
    exact (addresses_afterAll hs (h.after hs c) (by rwa [hsame])).trans hsame

theorem isClosed_ofSeed (seed : UInt64) (config : SessionConfig) : (ofSeed seed config).IsClosed :=
  fun _ hl => absurd hl List.not_mem_nil

/-- The devices that a call names and needs. -/
def Call.Mentions : Call → Address → Prop
  | .establishFromBundle source target, a | .sendFirstMessage source target, a
  | .acknowledge source target, a | .initiate source target, a => a = source ∨ a = target
  | .failNextCommit b, a => a = b
  | .addAccount .., _ | .threadId .., _ | .deliver _, _ | .rotateIdentity _, _ | .advance _, _ =>
    False

theorem Call.needs_cases {c : Call} {a : Address} (h : c.Needs w a) :
    c.Mentions a ∨ ∃ l ∈ w.network.busyLinks, a = l.source ∨ a = l.target := by
  cases c with
  | deliver l => exact .inr ⟨l, h.1, h.2⟩
  | _ => exact .inl h

/-- A call of registered devices fails by design only, and leaves the links
between registered devices. -/
theorem IsClosed.after (hs : suite.KeepsKeys) (h : w.IsSound suite)
    (hclosed : w.IsClosed) {c : Call} (hc : ∀ a, c.Mentions a → w.IsRegistered a) :
    (w.after suite c).IsClosed ∧ (∀ a, w.IsRegistered a → (w.after suite c).IsRegistered a) ∧
      ∀ e, failure (c.run suite w) = some e → e.IsExplained suite := by
  obtain ⟨-, hfails, hregistered, -, -, hbusy⟩ := c.ends hs h
  have hneeds : ∀ a, c.Needs w a → w.IsRegistered a := by
    intro a ha
    rcases Call.needs_cases ha with hm | ⟨l, hl, rfl | rfl⟩
    · exact hc a hm
    · exact (hclosed l hl).1
    · exact (hclosed l hl).2
  refine ⟨fun l hl => ?_, hregistered, fun e he => ?_⟩
  · rcases hbusy l hl with hl | ⟨hsource, htarget⟩
    · exact ⟨hregistered _ (hclosed l hl).1, hregistered _ (hclosed l hl).2⟩
    · exact ⟨hregistered _ (hneeds _ hsource), hregistered _ (hneeds _ htarget)⟩
  · cases hr : c.run suite w with
    | ok s w' => rw [hr] at he; cases he
    | error e' w' =>
      rw [hr] at he
      cases he
      rcases hfails e w' hr with hdesigned | ⟨a, -, ha, hnone⟩
      · exact hdesigned
      · have hsome := hneeds a ha
        rw [IsRegistered, hnone] at hsome
        cases hsome

/-- A run of calls of registered devices fails by design only. -/
theorem IsClosed.afterAll (hs : suite.KeepsKeys) :
    ∀ {l : List Call} {w : World} {e : Option WorldError},
    w.IsSound suite → w.IsClosed → (∀ c ∈ l, ∀ a, c.Mentions a → w.IsRegistered a) →
      Executes suite w l e → (w.afterAll suite l).IsClosed ∧ ∀ error, e = some error →
        error.IsExplained suite
  | [], w, _, _, hclosed, _, hrun => by
    cases hrun
    exact ⟨hclosed, fun _ he => nomatch he⟩
  | c :: l, w, e, h, hclosed, hl, hrun => by
    obtain ⟨hafter, hregistered, hfails⟩ := hclosed.after hs h (hl c List.mem_cons_self)
    cases hrun with
    | failed he => exact ⟨hafter, fun _ heq => by cases heq; exact hfails _ he⟩
    | next hok hrest =>
      exact IsClosed.afterAll (l := l) (w := w.after suite c) hs (h.after hs c) hafter
        (fun d hd a ha => hregistered a (hl d (List.mem_cons_of_mem _ hd) a ha)) hrest

theorem mentions_deliveries : ∀ (limit : Nat) (round : List Link) (w : World),
    ∀ c ∈ deliveries suite limit round w, ∀ a, ¬c.Mentions a
  | 0, _, _, _, hc, _ => nomatch hc
  | limit + 1, l :: round, w, c, hc, a => by
    rw [deliveries] at hc
    split at hc
    · rcases List.mem_cons.mp hc with rfl | hc
      · exact id
      · exact mentions_deliveries limit round _ c hc a
    · rw [List.mem_singleton.mp hc]; exact id
  | limit + 1, [], w, c, hc, a => by
    rw [deliveries] at hc
    split at hc
    · cases hc
    · split at hc
      · rcases List.mem_cons.mp hc with rfl | hc
        · exact id
        · exact mentions_deliveries limit _ _ c hc a
      · rw [List.mem_singleton.mp hc]; exact id

end World

/-! ### The calls of an operation -/

namespace Operation

open World (Call IsRun Executes)

variable (suite : Suite)

/-- The calls of a step between two devices, which makes none within an account. -/
def callsBetween (source target : Address) (l : List Call) : List Call :=
  if source.name = target.name then [] else l

/-- The calls that an operation makes in a world with devices. -/
def calls (w : World) : Operation → List Call
  | initiate source target =>
    callsBetween (pick w.addresses source) (pick w.addresses target)
      [.initiate (pick w.addresses source) (pick w.addresses target)]
  | sendFirstMessage source target =>
    let source := pick w.addresses source
    let target := pick w.addresses target
    callsBetween source target <|
      match World.failure (Call.run suite (.establishFromBundle source target) w) with
      | none => [.establishFromBundle source target, .sendFirstMessage source target]
      | some _ => [.establishFromBundle source target]
  | deliver source target => [.deliver ⟨pick w.addresses source, pick w.addresses target⟩]
  | deliverAll => World.deliveries suite deliverLimit [] w
  | rotateIdentity device => [.rotateIdentity (pick w.addresses device).name]
  | failNextCommit device => [.failNextCommit (pick w.addresses device)]
  | advanceTime milliseconds => [.advance (UInt64.ofNat milliseconds.toNat)]

/-- The calls that some operations make in turn. -/
def trace : World → List Operation → List Call
  | _, [] => []
  | w, o :: l =>
    let own := if w.addresses = [] then [] else o.calls suite w
    own ++ trace (w.afterAll suite own) l

variable {suite} {w : World}

theorem trace_cons (hw : w.addresses ≠ []) (o : Operation) (l : List Operation) :
    trace suite w (o :: l) = o.calls suite w ++
    trace suite (w.afterAll suite (o.calls suite w)) l := by
  simp only [trace, if_neg hw]

theorem isRun_betweenAccounts {source target : Address} {l : List Call} {step : WorldStep Unit}
    (h : IsRun suite w l (step w)) :
    IsRun suite w (callsBetween source target l) (betweenAccounts source target step w) := by
  unfold callsBetween betweenAccounts
  split
  · exact ⟨.done w, rfl⟩
  · exact h

/-- A call answers with a status made from the result of a step, and does what the step does. -/
theorem isRun_of_map {α : Type} {c : Call} {x : WorldStep α} {f : α → Option HandshakeStatus}
    (hc : c.run suite = do return f (← x)) : IsRun suite w [c] (x w) := by
  have hrun : c.run suite w = _ :=
    (congrFun hc w).trans (WorldStep.bind_eq x (fun a => pure (f a)) w)
  refine World.isRun_single ?_ ?_ <;> rw [hrun] <;> cases x w <;> rfl

/-- A step made for its effect only. -/
theorem isRun_discard {α : Type} {x : WorldStep α} {l : List Call} (h : IsRun suite w l (x w)) :
    IsRun suite w l ((do let _ ← x : WorldStep Unit) w) := by
  have hx : (do let _ ← x : WorldStep Unit) w = _ := WorldStep.bind_eq x (fun _ => pure ()) w
  refine h.of_eq ?_ ?_ <;> rw [hx] <;> cases x w <;> rfl

/-- An operation does what its calls do in turn. -/
theorem isRun_run (suite : Suite) (w : World) (o : Operation) :
    IsRun suite w (o.calls suite w) (o.run suite w.addresses w) := by
  cases o with
  | initiate source target =>
    exact isRun_betweenAccounts (isRun_discard (isRun_of_map (f := some) rfl))
  | sendFirstMessage source target =>
    refine isRun_betweenAccounts ?_
    generalize pick w.addresses source = source
    generalize pick w.addresses target = target
    have hfirst : IsRun suite w [.establishFromBundle source target]
        (World.establishFromBundle suite source target w) := isRun_of_map (f := some) rfl
    have hfailure : World.failure (Call.run suite (.establishFromBundle source target) w) =
        World.failure (World.establishFromBundle suite source target w) := by
      rw [show Call.run suite (.establishFromBundle source target) w = _ from
        WorldStep.bind_eq (World.establishFromBundle suite source target)
          (fun s => pure (some s)) w]
      cases World.establishFromBundle suite source target w <;> rfl
    rw [hfailure]
    simp only [WorldStep.bind_eq]
    cases he : World.establishFromBundle suite source target w with
    | error e w' =>
      rw [he] at hfirst
      exact hfirst.of_eq rfl rfl
    | ok s w' =>
      rw [he] at hfirst hfailure
      have hafter : w.after suite (.establishFromBundle source target) = w' := hfirst.ending.symm
      have hsecond : IsRun suite w' [.sendFirstMessage source target]
          ((do let _ ← World.sendFirstMessage source target : WorldStep Unit) w') :=
        isRun_discard (isRun_of_map (f := fun _ => none) rfl)
      rw [show (do let _ ← World.sendFirstMessage source target : WorldStep Unit) w' = _ from
        WorldStep.bind_eq (World.sendFirstMessage source target) (fun _ => pure ()) w'] at hsecond
      refine IsRun.next hfailure ?_
      rw [hafter]
      exact hsecond
  | deliver source target => exact isRun_discard (World.isRun_single rfl rfl)
  | deliverAll => exact isRun_discard (World.isRun_deliverRounds deliverLimit [] w)
  | rotateIdentity device => exact isRun_of_map (f := fun _ => none) rfl
  | failNextCommit device => exact isRun_of_map (f := fun _ => none) rfl
  | advanceTime milliseconds => exact isRun_of_map (f := fun _ => none) rfl

theorem isExpected_of_isDesigned {e : WorldError} (h : e.IsDesigned) : e.isExpected = true := by
  unfold WorldError.IsDesigned at h
  split at h
  · unfold SessionError.IsDesigned at h
    split at h
    all_goals first | rfl | exact h.elim
  · exact h.elim

theorem pick_mem {addresses : List Address} (h : addresses ≠ []) (index : UInt8) :
    pick addresses index ∈ addresses := by
  have hlt : index.toNat % addresses.length < addresses.length :=
    Nat.mod_lt _ (List.length_pos_iff.mpr h)
  rw [pick, List.getD_eq_getElem?_getD, List.getElem?_eq_getElem hlt]
  exact List.getElem_mem hlt

/-- The calls of an operation name devices that are there. -/
theorem isRegistered_of_mentions (hw : w.addresses ≠ []) {o : Operation} {c : World.Call}
    (hc : c ∈ o.calls suite w) {a : Address} (ha : c.Mentions a) : w.IsRegistered a := by
  have hpick : ∀ i, w.IsRegistered (pick w.addresses i) := fun i =>
    World.isRegistered_of_mem (pick_mem hw i)
  cases o with
  | initiate source target =>
    simp only [calls, callsBetween] at hc
    split at hc
    · cases hc
    · rw [List.mem_singleton.mp hc] at ha
      rcases ha with rfl | rfl <;> exact hpick _
  | sendFirstMessage source target =>
    simp only [calls, callsBetween] at hc
    split at hc
    · cases hc
    · split at hc
      · rcases List.mem_cons.mp hc with rfl | hc
        · rcases ha with rfl | rfl <;> exact hpick _
        · rw [List.mem_singleton.mp hc] at ha
          rcases ha with rfl | rfl <;> exact hpick _
      · rw [List.mem_singleton.mp hc] at ha
        rcases ha with rfl | rfl <;> exact hpick _
  | deliver source target => rw [List.mem_singleton.mp hc] at ha; exact ha.elim
  | deliverAll => exact absurd ha (World.mentions_deliveries deliverLimit [] w c hc a)
  | rotateIdentity device => rw [List.mem_singleton.mp hc] at ha; exact ha.elim
  | failNextCommit device =>
    rw [List.mem_singleton.mp hc] at ha
    exact ha ▸ hpick device
  | advanceTime milliseconds => rw [List.mem_singleton.mp hc] at ha; exact ha.elim

/-- An operation in a sound world fails by design only. -/
theorem isDesigned_of_run (hs : suite.Completes) (h : w.IsSound suite) (hclosed : w.IsClosed)
    (hw : w.addresses ≠ []) {o : Operation} {e : WorldError} {w' : World}
    (he : o.run suite w.addresses w = .error e w') : e.IsDesigned := by
  obtain ⟨hexecutes, -⟩ := isRun_run suite w o
  rw [he] at hexecutes
  exact ((hclosed.afterAll hs.keepsKeys h (fun c hc a ha => isRegistered_of_mentions hw hc ha)
    hexecutes).2 e rfl).isDesigned hs.starts

theorem apply_eq (o : Operation) (w : World) : o.apply suite w =
    if w.addresses = [] then .ok () w else absorb (o.run suite w.addresses) w := by
  have hget : (get : WorldStep World) w = .ok w w := rfl
  unfold apply
  rw [WorldStep.bind_eq, hget]
  dsimp only
  cases hw : w.addresses with
  | nil => rfl
  | cons a l => rw [if_neg (by simp)]

/-- An operation never fails, and leaves the world after its calls. -/
theorem apply_spec (hs : suite.Completes) (h : w.IsSound suite) (hclosed : w.IsClosed)
    (o : Operation) : ∃ w', o.apply suite w = .ok () w' ∧ w'.IsSound suite ∧ w'.IsClosed ∧
      w' = w.afterAll suite (if w.addresses = [] then [] else o.calls suite w) := by
  rw [apply_eq]
  by_cases hw : w.addresses = []
  · rw [if_pos hw, if_pos hw]
    exact ⟨w, rfl, h, hclosed, rfl⟩
  · rw [if_neg hw, if_neg hw]
    have hrun := isRun_run suite w o
    have hmentions : ∀ c ∈ o.calls suite w, ∀ a, c.Mentions a → w.IsRegistered a :=
      fun c hc a ha => isRegistered_of_mentions hw hc ha
    obtain ⟨hclosed', -⟩ := hclosed.afterAll hs.keepsKeys h hmentions hrun.executes
    refine ⟨_, ?_, h.afterAll hs.keepsKeys _, hclosed', rfl⟩
    rw [← hrun.ending, absorb]
    cases hr : o.run suite w.addresses w with
    | ok x w' => rfl
    | error e w' => exact if_pos (isExpected_of_isDesigned (isDesigned_of_run hs h hclosed hw hr))

/-- Operations never fail, and leave the world after the calls of their trace. -/
theorem forM_apply_spec (hs : suite.Completes) : ∀ (l : List Operation) {w : World},
    w.IsSound suite → w.IsClosed → ∃ w', l.forM (apply suite) w = .ok () w' ∧ w'.IsSound suite ∧
      w'.IsClosed ∧ w' = w.afterAll suite (trace suite w l)
  | [], w, h, hclosed => ⟨w, rfl, h, hclosed, rfl⟩
  | o :: l, w, h, hclosed => by
    obtain ⟨w₁, happly, h₁, hclosed₁, heq₁⟩ := apply_spec hs h hclosed o
    obtain ⟨w', hrest, h', hclosed', heq⟩ := forM_apply_spec hs l h₁ hclosed₁
    refine ⟨w', ?_, h', hclosed', ?_⟩
    · rw [show (o :: l).forM (apply suite) w = _ from
        WorldStep.bind_eq (o.apply suite) (fun _ => l.forM (apply suite)) w, happly]
      exact hrest
    · rw [trace, World.afterAll_append, ← heq₁]
      exact heq

end Operation

/-! ### Setting up -/

namespace World

variable {suite : Suite}

/-- Registers some accounts, each with a number of devices. -/
def setUp (suite : Suite) (accounts : List (String × Nat)) : WorldStep Unit :=
  accounts.forM fun x => do let _ ← addAccount suite x.1 x.2

theorem setUp_cons (name : String) (devices : Nat) (accounts : List (String × Nat)) (w : World) :
    setUp suite ((name, devices) :: accounts) w =
      match addAccount suite name devices w with
      | .ok _ w => setUp suite accounts w
      | .error e w => .error e w := by
  show ((do let _ ← addAccount suite name devices : WorldStep Unit) >>= fun _ =>
    setUp suite accounts) w = _
  rw [WorldStep.bind_eq, WorldStep.bind_eq]
  cases addAccount suite name devices w <;> rfl

/-- Accounts can always be registered, one call each. -/
theorem setUp_spec (hs : suite.KeepsKeys) : ∀ (accounts : List (String × Nat)) {w : World},
    w.IsSound suite → w.IsClosed →
      ∃ w', setUp suite accounts w = .ok () w' ∧ w'.IsSound suite ∧ w'.IsClosed ∧
        w' = w.afterAll suite (accounts.map fun x => .addAccount x.1 x.2)
  | [], w, h, hclosed => ⟨w, rfl, h, hclosed, rfl⟩
  | (name, devices) :: accounts, w, h, hclosed => by
    have hends :
        Ends suite (·.name = name) (fun _ => False) w (addAccount suite name devices w) ∧ _ :=
      ends_addAccount h name devices
    obtain ⟨-, l, w₁, hadd⟩ := hends
    have hafter : w.after suite (.addAccount name devices) = w₁ := by
      have hrun : Call.run suite (.addAccount name devices) w = _ :=
        WorldStep.bind_eq (addAccount suite name devices) (fun _ => pure none) w
      rw [after, hrun, hadd]
      rfl
    obtain ⟨hclosed₁, -, -⟩ :=
      hclosed.after hs h (c := .addAccount name devices) fun _ hm => hm.elim
    have h₁ := h.after hs (.addAccount name devices)
    rw [hafter] at hclosed₁ h₁
    obtain ⟨w', hset, h', hclosed', heq⟩ := setUp_spec hs accounts h₁ hclosed₁
    refine ⟨w', ?_, h', hclosed', ?_⟩
    · rw [setUp_cons, hadd]
      exact hset
    · rw [heq, List.map_cons, afterAll_cons, hafter]

end World

end SecureSession
