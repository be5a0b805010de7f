import Mathlib.Data.List.Basic

/-! # Two sides that open exchanges with each other

Two sides, with nothing of devices and keys but names for the keys. Each opens exchanges whenever it
likes and takes in the legs of its inbox in order. Their invariant (`Ordered`) tells where the legs
and the keys are, and how far the sides are: either the exchange one side opened last is the last
word, or the last exchanges of both crossed. -/

namespace SecureSession.Crossing

/-! ### Sides -/

/-- A leg of an exchange: its number and the keys it carries. -/
inductive Leg (κ : Type)
  | initiate (n : UInt32) (k : κ)
  | response (n : UInt32) (k : κ)

/-- The keys that a leg carries. -/
def Leg.key {κ : Type} : Leg κ → κ
  | initiate _ k | response _ k => k

/-- One side: what it has under way, its session as its own keys and the other side's, what is on
the way to it, and what it did so far. -/
structure Side (κ : Type) where
  pending : Option (UInt32 × κ)
  session : Option (κ × κ)
  inbox : List (Leg κ)
  /-- The exchanges opened, oldest first. -/
  opened : List (UInt32 × κ)
  /-- The number of initiates answered since the last exchange was opened. -/
  answers : Nat
  /-- The keys drawn, oldest first. -/
  keys : List κ

namespace Side

variable {κ : Type} (s : Side κ)

/-- The side with another leg on the way to it. -/
def push (leg : Leg κ) : Side κ := { s with inbox := s.inbox ++ [leg] }

/-- The side once it has opened an exchange, in place of any under way. -/
def opening (n : UInt32) (k : κ) : Side κ :=
  { s with
    pending := some (n, k), opened := s.opened ++ [(n, k)], answers := 0, keys := s.keys ++ [k] }

/-- The side once it has answered an initiate, with the keys drawn for that. -/
def answering (k k' : κ) (drawn : List κ) (rest : List (Leg κ)) : Side κ :=
  { s with
    pending := none
    session := some (k, k')
    inbox := rest
    answers := s.answers + 1
    keys := s.keys ++ drawn }

/-- The side once a response has completed its exchange. -/
def completing (k k' : κ) (rest : List (Leg κ)) : Side κ :=
  { s with pending := none, session := some (k, k'), inbox := rest }

/-- The side once it has dropped a response. -/
def dropping (rest : List (Leg κ)) : Side κ := { s with inbox := rest }

end Side

variable {κ : Type}

/-- Whether a side answers an initiate with the given keys: new ones, or those of
the exchange under way. -/
inductive Answers (own : Side κ) (k : κ) : List κ → Prop
  | fresh (h : own.pending = none) : Answers own k [k]
  | crossing {n : UInt32} (h : own.pending = some (n, k)) : Answers own k []

/-- A step of the first side. -/
inductive Step (own peer : Side κ) : Side κ → Side κ → Prop
  | opens {n : UInt32} {k : κ} : Step own peer (own.opening n k) (peer.push (.initiate n k))
  | answers {n : UInt32} {k k' : κ} {drawn : List κ} {rest : List (Leg κ)}
    (inbox : own.inbox = .initiate n k' :: rest) (keys : Answers own k drawn) :
    Step own peer (own.answering k k' drawn rest) (peer.push (.response n k))
  | completes {n : UInt32} {k k' : κ} {rest : List (Leg κ)}
    (inbox : own.inbox = .response n k' :: rest) (pending : own.pending = some (n, k)) :
    Step own peer (own.completing k k' rest) peer
  /-- A response to anything but the exchange under way is dropped. -/
  | drops {n : UInt32} {k' : κ} {rest : List (Leg κ)} (inbox : own.inbox = .response n k' :: rest)
    (pending : ∀ k, own.pending ≠ some (n, k)) : Step own peer (own.dropping rest) peer

/-! ### Inboxes -/

/-- Whether there is no initiate among some legs. -/
def Quiet (l : List (Leg κ)) : Prop := ∀ n k, .initiate n k ∉ l

/-- The initiates among some legs. -/
def initiates (l : List (Leg κ)) : List (UInt32 × κ) :=
  l.filterMap fun
    | .initiate n k => some (n, k)
    | .response _ _ => none

@[simp] theorem quiet_nil : Quiet ([] : List (Leg κ)) := fun _ _ => List.not_mem_nil

@[simp] theorem quiet_append {l l' : List (Leg κ)} : Quiet (l ++ l') ↔ Quiet l ∧ Quiet l' := by
  simp only [Quiet, List.mem_append, not_or, ← forall_and]

@[simp] theorem not_quiet_initiate {n : UInt32} {k : κ} {l : List (Leg κ)} :
    ¬Quiet (.initiate n k :: l) := fun h => h n k List.mem_cons_self

@[simp] theorem quiet_response {n : UInt32} {k : κ} {l : List (Leg κ)} :
    Quiet (.response n k :: l) ↔ Quiet l := by
  simp [Quiet]

@[simp] theorem initiates_nil : initiates ([] : List (Leg κ)) = [] := rfl

@[simp] theorem initiates_initiate {n : UInt32} {k : κ} {l : List (Leg κ)} :
    initiates (.initiate n k :: l) = (n, k) :: initiates l := rfl

@[simp] theorem initiates_response {n : UInt32} {k : κ} {l : List (Leg κ)} :
    initiates (.response n k :: l) = initiates l := rfl

@[simp] theorem initiates_append {l l' : List (Leg κ)} :
    initiates (l ++ l') = initiates l ++ initiates l' := List.filterMap_append

theorem initiates_eq_nil {l : List (Leg κ)} (h : Quiet l) : initiates l = [] := by
  rw [initiates, List.filterMap_eq_nil_iff]
  rintro (⟨n, k⟩ | ⟨n, k⟩) hx
  · exact absurd hx (h n k)
  · rfl

/-- Among legs with an initiate there is a first one. -/
theorem exists_first :
    ∀ {l : List (Leg κ)}, ¬Quiet l → ∃ a n k b, l = a ++ .initiate n k :: b ∧ Quiet a
  | [], h => absurd quiet_nil h
  | .initiate n k :: b, _ => ⟨[], n, k, b, rfl, quiet_nil⟩
  | .response n k :: b, h => by
    obtain ⟨a, n', k', b', rfl, ha⟩ := exists_first fun hb => h (quiet_response.mpr hb)
    exact ⟨.response n k :: a, n', k', b', rfl, quiet_response.mpr ha⟩

/-! ### The invariant -/

/-- Where the legs of the first side are: of the exchanges it opened, some initiates were taken in
and the others are on the way, in order. Only what was taken in has been answered. -/
def Posted (own peer : Side κ) : Prop :=
  ∃ taken, own.opened = taken ++ initiates peer.inbox ∧ peer.answers ≤ taken.length ∧
    ∀ n k, .response n k ∈ own.inbox → n ∈ taken.map Prod.fst

/-- Where the keys that the first side holds and is sent come from. -/
structure Sourced (own peer : Side κ) : Prop where
  pending : ∀ q, own.pending = some q → q.2 ∈ own.keys
  session : ∀ k k', own.session = some (k, k') → k ∈ own.keys ∧ k' ∈ peer.keys
  inbox : ∀ leg ∈ own.inbox, leg.key ∈ peer.keys
  opened : ∀ q ∈ own.opened, q.2 ∈ own.keys

/-- How far the last exchange of the first side is where it is the last word: the second side has
not taken it in, has answered it, or the first side has the answer. -/
inductive Lead (own peer : Side κ) : Prop
  | posted {n : UInt32} {k : κ} {l r : List (Leg κ)} (last : own.opened.getLast? = some (n, k))
    (pending : own.pending = some (n, k)) (inbox : peer.inbox = l ++ .initiate n k :: r)
    (quiet : Quiet r) (answered : ∀ q, peer.pending = some q → ∃ k', .response q.1 k' ∈ l)
  | answered {n : UInt32} {k k' : κ} (pending : own.pending = some (n, k))
    (idle : peer.pending = none) (quiet : Quiet peer.inbox) (session : peer.session = some (k', k))
    (mem : .response n k' ∈ own.inbox) (unique : ∀ k'', .response n k'' ∈ own.inbox → k'' = k')
  | settled {k k' : κ} (pending : own.pending = none) (idle : peer.pending = none)
    (quiet : Quiet peer.inbox) (session : own.session = some (k, k'))
    (session' : peer.session = some (k', k))

/-- Whether the last exchange of the first side is the last word: it was opened after the last
initiate of the second side was taken in. -/
structure Led (own peer : Side κ) : Prop where
  answers : own.answers = 0
  quiet : Quiet own.inbox
  lead : Lead own peer

/-- How far the first side is where the last exchanges of both crossed: an initiate will be answered
with the keys of its last exchange, or was. Once no further one is on the way, its session is with
the last keys of the second side. -/
inductive Crossed (own peer : Side κ) : Prop
  | waiting {n m : UInt32} {k k' : κ} {l r : List (Leg κ)} (answers : own.answers = 0)
    (last : own.opened.getLast? = some (n, k)) (pending : own.pending = some (n, k))
    (inbox : own.inbox = l ++ .initiate m k' :: r) (quiet : Quiet l)
    (early : ∀ k, .response n k ∉ l) (answered : Quiet peer.inbox → ∃ k, .response n k ∈ own.inbox)
  | answered {n : UInt32} {k : κ} (answers : own.answers ≠ 0)
    (last : own.opened.getLast? = some (n, k)) (pending : own.pending = none)
    (session : Quiet own.inbox → ∃ k₁ q, own.session = some (k₁, q.2) ∧
      peer.opened.getLast? = some q ∧ (own.answers = 1 → k₁ = k) ∧
        (2 ≤ own.answers → [k, k₁].Sublist own.keys))

/-- How far both sides are. -/
inductive Phase (own peer : Side κ) : Prop
  | idle (inbox : own.inbox = []) (inbox' : peer.inbox = []) (pending : own.pending = none)
    (pending' : peer.pending = none) (opened : own.opened = []) (opened' : peer.opened = [])
  | led (h : Led own peer)
  | follows (h : Led peer own)
  | crossed (h : Crossed own peer) (h' : Crossed peer own)

/-- The invariant of two sides that open exchanges with each other, each
under numbers of its own. -/
structure Ordered (own peer : Side κ) : Prop where
  nodup : (own.opened.map Prod.fst).Nodup
  nodup' : (peer.opened.map Prod.fst).Nodup
  posted : Posted own peer
  posted' : Posted peer own
  sourced : Sourced own peer
  sourced' : Sourced peer own
  phase : Phase own peer

variable {own peer own' peer' : Side κ} {n : UInt32} {k k' : κ}

theorem Ordered.symm (h : Ordered own peer) : Ordered peer own := by
  refine ⟨h.nodup', h.nodup, h.posted', h.posted, h.sourced', h.sourced, ?_⟩
  cases h.phase with
  | idle inbox inbox' pending pending' opened opened' =>
    exact .idle inbox' inbox pending' pending opened' opened
  | led h => exact .follows h
  | follows h => exact .led h
  | crossed h h' => exact .crossed h' h

/-! ### Numbers on the way -/

/-- No response is on the way to an exchange that was not opened. -/
theorem Posted.not_mem_of_fresh (h : Posted own peer) (hn : n ∉ own.opened.map Prod.fst) (k : κ) :
    .response n k ∉ own.inbox := by
  obtain ⟨taken, hopened, -, hresponses⟩ := h
  intro hmem
  refine hn ?_
  rw [hopened, List.map_append]
  exact List.mem_append_left _ (hresponses n k hmem)

/-- No response is on the way to an exchange whose initiate is. -/
theorem Posted.not_mem_of_initiate (h : Posted own peer) (hnodup : (own.opened.map Prod.fst).Nodup)
    (hmem : .initiate n k ∈ peer.inbox) (k' : κ) : .response n k' ∉ own.inbox := by
  obtain ⟨taken, hopened, -, hresponses⟩ := h
  intro hresponse
  rw [hopened, List.map_append] at hnodup
  refine (List.nodup_append.mp hnodup).2.2 n (hresponses n k' hresponse) n ?_ rfl
  exact List.mem_map.mpr ⟨(n, k), List.mem_filterMap.mpr ⟨_, hmem, rfl⟩, rfl⟩

/-- An initiate with no other behind it is of the exchange opened last. -/
theorem Posted.getLast?_of_quiet (h : Posted own peer) {r : List (Leg κ)}
    (hinbox : peer.inbox = .initiate n k :: r) (hr : Quiet r) :
    own.opened.getLast? = some (n, k) := by
  obtain ⟨taken, hopened, -, -⟩ := h
  rw [hopened, hinbox, initiates_initiate, initiates_eq_nil hr, List.getLast?_append]
  rfl

/-! ### What a step does to the legs and the keys -/

theorem Step.opened_peer (h : Step own peer own' peer') : peer'.opened = peer.opened := by
  cases h <;> rfl

theorem Step.keys_subset (h : Step own peer own' peer') : own.keys ⊆ own'.keys := by
  cases h with
  | opens | answers => exact List.subset_append_left _ _
  | completes | drops => exact fun _ h => h

theorem Answers.mem {drawn : List κ} (h : Answers own k drawn) (hs : Sourced own peer) :
    k ∈ own.keys ++ drawn := by
  cases h with
  | fresh => exact List.mem_append_right _ (List.mem_singleton.mpr rfl)
  | crossing h => exact List.mem_append_left _ (hs.pending _ h)

theorem Step.posted (h : Step own peer own' peer') (hp : Posted own peer) : Posted own' peer' := by
  obtain ⟨taken, hopened, hanswers, hresponses⟩ := hp
  cases h with
  | opens => exact ⟨taken, by simp [Side.opening, Side.push, hopened], hanswers, hresponses⟩
  | answers inbox =>
    refine ⟨taken, by simp [Side.answering, Side.push, hopened], hanswers,
      fun n k hmem => hresponses n k ?_⟩
    rw [inbox]
    exact List.mem_cons_of_mem _ hmem
  | completes inbox | drops inbox =>
    refine ⟨taken, hopened, hanswers, fun n k hmem => hresponses n k ?_⟩
    rw [inbox]
    exact List.mem_cons_of_mem _ hmem

theorem Step.posted' (h : Step own peer own' peer') (hp : Posted peer own) : Posted peer' own' := by
  obtain ⟨taken, hopened, hanswers, hresponses⟩ := hp
  cases h with
  | opens =>
    refine ⟨taken, hopened, Nat.zero_le _, fun n k hmem => hresponses n k ?_⟩
    simpa [Side.push] using hmem
  | @answers n k k' drawn rest inbox =>
    refine ⟨taken ++ [(n, k')], ?_, by simpa [Side.answering] using hanswers, fun m k hmem => ?_⟩
    · simp [Side.push, Side.answering, hopened, inbox]
    · rw [List.map_append, List.mem_append]
      rcases List.mem_append.mp hmem with hmem | hmem
      · exact .inl (hresponses m k hmem)
      · cases List.mem_singleton.mp hmem
        exact .inr (List.mem_singleton.mpr rfl)
  | completes inbox | drops inbox =>
    exact ⟨taken, by rw [hopened, inbox]; rfl, hanswers, hresponses⟩

theorem Step.sourced (h : Step own peer own' peer') (hs : Sourced own peer) :
    Sourced own' peer' := by
  have hkeys := h.keys_subset
  obtain ⟨hpending, hsession, hinbox, hopened⟩ := hs
  cases h with
  | @opens n k =>
    have hk : k ∈ (own.opening n k).keys := List.mem_append_right _ (List.mem_singleton.mpr rfl)
    refine ⟨fun q hq => ?_, fun k k' hs => ⟨hkeys (hsession k k' hs).1, (hsession k k' hs).2⟩,
      hinbox, fun q hq => ?_⟩
    · cases hq
      exact hk
    · rcases List.mem_append.mp hq with hq | hq
      · exact hkeys (hopened q hq)
      · rw [List.mem_singleton.mp hq]
        exact hk
  | answers inbox keys =>
    have hk := keys.mem ⟨hpending, hsession, hinbox, hopened⟩
    rw [inbox, List.forall_mem_cons] at hinbox
    refine ⟨nofun, fun k k' hs => ?_, hinbox.2, fun q hq => hkeys (hopened q hq)⟩
    cases hs
    exact ⟨hk, hinbox.1⟩
  | completes inbox pending =>
    rw [inbox, List.forall_mem_cons] at hinbox
    refine ⟨nofun, fun k k' hs => ?_, hinbox.2, hopened⟩
    cases hs
    exact ⟨hpending _ pending, hinbox.1⟩
  | drops inbox =>
    rw [inbox, List.forall_mem_cons] at hinbox
    exact ⟨hpending, hsession, hinbox.2, hopened⟩

theorem Sourced.push (hs : Sourced own peer) {leg : Leg κ} (hleg : leg.key ∈ peer'.keys)
    (hkeys : peer.keys ⊆ peer'.keys) : Sourced (own.push leg) peer' where
  pending := hs.pending
  session k k' hk := ⟨(hs.session k k' hk).1, hkeys (hs.session k k' hk).2⟩
  inbox := List.forall_mem_append.mpr
    ⟨fun l hl => hkeys (hs.inbox l hl), List.forall_mem_singleton.mpr hleg⟩
  opened := hs.opened

theorem Step.sourced' (h : Step own peer own' peer') (hs : Sourced peer own)
    (hown : Sourced own peer) : Sourced peer' own' := by
  have hkeys := h.keys_subset
  cases h with
  | opens => exact hs.push (List.mem_append_right _ (List.mem_singleton.mpr rfl)) hkeys
  | answers inbox keys => exact hs.push (keys.mem hown) hkeys
  | completes | drops =>
    exact ⟨hs.pending, fun k k' hk => ⟨(hs.session k k' hk).1, hkeys (hs.session k k' hk).2⟩,
      fun l hl => hkeys (hs.inbox l hl), hs.opened⟩

end SecureSession.Crossing
