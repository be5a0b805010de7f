import Mathlib.Data.List.Count
import Mathlib.Logic.Function.Iterate
import SecureSession.Proofs.Agreement

/-! # Lockstep of paired chains

What one end sends on, the other receives on its own copy of. However the calls of the two ends
interleave, each copy is as many steps along as calls were made on it, and gives out the
message keys of one sequence in order: the two never disagree, and meet again once they have
taken equally many steps. -/

namespace SecureSession

/-! ### Chains -/

namespace ChainKey

/-- The chain some steps on. -/
def after (c : ChainKey) (n : ℕ) : ChainKey := next^[n] c

theorem after_succ (c : ChainKey) (n : ℕ) : c.after (n + 1) = c.next.after n :=
  Function.iterate_succ_apply next n c

/-- The index counts the steps, modulo its size. -/
theorem index_after (c : ChainKey) (n : ℕ) :
    (c.after n).index.toNat = (c.index.toNat + n) % UInt32.size := by
  induction n generalizing c with
  | zero => exact (Nat.mod_eq_of_lt c.index.toNat_lt).symm
  | succ n ih =>
    rw [after_succ, ih, next, UInt32.toNat_add, UInt32.toNat_one, UInt32.size]
    omega

end ChainKey

/-! ### Chains of a state -/

/-- What a chain is for. -/
inductive Course
  | sending
  | receiving
deriving DecidableEq

namespace Course

/-- What the peer has the same chain for. -/
def opposite : Course → Course
  | .sending => .receiving
  | .receiving => .sending

end Course

namespace RatchetState

/-- The chain for a course. -/
def chain (r : RatchetState) : Course → Option ChainKey
  | .sending => r.sendingChain
  | .receiving => r.receivingChain

/-- The next key of a course, and the state after taking it. -/
def takeKey (r : RatchetState) : Course → Option MessageKey × RatchetState
  | .sending => r.nextSendingKey
  | .receiving => r.nextReceivingKey

/-- Whether two states can differ in the chain for one course only. -/
structure SameExcept (course : Course) (r s : RatchetState) : Prop where
  rootKey : s.rootKey = r.rootKey
  localKey : s.localKey = r.localKey
  remoteKey : s.remoteKey = r.remoteKey
  chain : s.chain course.opposite = r.chain course.opposite

variable (r : RatchetState) (course : Course)

theorem key_takeKey : (r.takeKey course).1 = (r.chain course).map ChainKey.messageKey := by
  cases course with
  | sending => cases h : r.sendingChain <;> simp [takeKey, chain, nextSendingKey, h]
  | receiving => cases h : r.receivingChain <;> simp [takeKey, chain, nextReceivingKey, h]

theorem chain_takeKey : (r.takeKey course).2.chain course = (r.chain course).map ChainKey.next := by
  cases course with
  | sending => cases h : r.sendingChain <;> simp [takeKey, chain, nextSendingKey, h]
  | receiving => cases h : r.receivingChain <;> simp [takeKey, chain, nextReceivingKey, h]

theorem sameExcept_takeKey : SameExcept course r (r.takeKey course).2 := by
  cases course with
  | sending =>
    cases h : r.sendingChain <;> constructor <;>
      simp [takeKey, chain, nextSendingKey, Course.opposite, h]
  | receiving =>
    cases h : r.receivingChain <;> constructor <;>
      simp [takeKey, chain, nextReceivingKey, Course.opposite, h]

variable {r course}

theorem takeKey_of_missing (h : r.chain course = none) : r.takeKey course = (none, r) := by
  cases course with
  | sending =>
    have hnone : r.sendingChain = none := h
    simp [takeKey, nextSendingKey, hnone]
  | receiving =>
    have hnone : r.receivingChain = none := h
    simp [takeKey, nextReceivingKey, hnone]

end RatchetState

/-! ### Calls on two ends -/

/-- One of two ends. -/
inductive Ends.Side
  | ours
  | theirs
deriving DecidableEq

/-- The end across. -/
def Ends.Side.other : Side → Side
  | .ours => .theirs
  | .theirs => .ours

/-- The states of two ends. -/
def Ends : Type := Ends.Side → RatchetState

namespace Ends

/-- A call for the next key of a chain. -/
structure Call where
  /-- The end that takes the key. -/
  side : Side
  course : Course
deriving DecidableEq

namespace Call

/-- The call that the other end makes on its copy of the chain. -/
def paired (c : Call) : Call := ⟨c.side.other, c.course.opposite⟩

end Call

/-- The chain that a call takes its key from. -/
def chain (e : Ends) (c : Call) : Option ChainKey := (e c.side).chain c.course

/-- The answer to a call, and the ends after it. -/
def call (e : Ends) (c : Call) : Option MessageKey × Ends :=
  let (key, r) := (e c.side).takeKey c.course
  (key, Function.update e c.side r)

/-- Calls made in turn, each with its answer, and the ends after them. -/
def run : Ends → List Call → List (Call × Option MessageKey) × Ends
  | e, [] => ([], e)
  | e, c :: rest =>
    let (key, e) := e.call c
    let (log, e) := run e rest
    ((c, key) :: log, e)

/-- The ends after some calls. -/
def after (e : Ends) (calls : List Call) : Ends := (e.run calls).2

/-- What one kind of call was answered, in turn. -/
def answers (e : Ends) (calls : List Call) (c : Call) : List (Option MessageKey) :=
  ((e.run calls).1.filter (·.1 = c)).map (·.2)

/-- Whether each end sends on the chain the other receives on. -/
structure IsPaired (e : Ends) : Prop where
  sending : (e .ours).sendingChain = (e .theirs).receivingChain
  receiving : (e .ours).receivingChain = (e .theirs).sendingChain

theorem isPaired_iff {e : Ends} : e.IsPaired ↔ ∀ c, e.chain c = e.chain c.paired := by
  constructor
  · rintro ⟨hsending, hreceiving⟩ ⟨side, course⟩
    cases side <;> cases course
    · exact hsending
    · exact hreceiving
    · exact hreceiving.symm
    · exact hsending.symm
  · intro h
    exact ⟨h ⟨.ours, .sending⟩, h ⟨.ours, .receiving⟩⟩

/-! ### One call -/

section Call
variable (e : Ends) (c : Call)

theorem key_call : (e.call c).1 = (e.chain c).map ChainKey.messageKey :=
  RatchetState.key_takeKey (e c.side) c.course

theorem side_call : (e.call c).2 c.side = ((e c.side).takeKey c.course).2 := Function.update_self ..

theorem other_call : (e.call c).2 c.side.other = e c.side.other := by
  refine Function.update_of_ne ?_ _ _
  cases c.side <;> exact nofun

theorem chain_call_self : (e.call c).2.chain c = (e.chain c).map ChainKey.next := by
  rw [chain, side_call]
  exact RatchetState.chain_takeKey (e c.side) c.course

variable {c}

/-- A call leaves the three other chains. -/
theorem chain_call_of_ne {c' : Call} (h : c' ≠ c) : (e.call c).2.chain c' = e.chain c' := by
  by_cases hside : c'.side = c.side
  · have hcourse : c'.course = c.course.opposite := by
      have hne : c'.course ≠ c.course := fun he => h (by cases c; cases c'; simp_all)
      revert hne
      cases c'.course <;> cases c.course <;> simp [Course.opposite]
    rw [chain, chain, hside, side_call, hcourse]
    exact (RatchetState.sameExcept_takeKey (e c.side) c.course).chain
  · have hother : c'.side = c.side.other := by
      revert hside
      cases c'.side <;> cases c.side <;> simp [Side.other]
    rw [chain, chain, hother, other_call]

variable {e}

theorem call_of_missing (h : e.chain c = none) : e.call c = (none, e) := by
  rw [call, RatchetState.takeKey_of_missing h]
  exact congrArg _ (Function.update_eq_self ..)

end Call

/-! ### Runs of calls -/

section Run
variable (e : Ends) (calls : List Call) (c : Call)

/-- The invariant of a run: each of the four chains is as many steps along
as calls were made on it. -/
theorem chain_after : (e.after calls).chain c = (e.chain c).map (·.after (calls.count c)) := by
  -- the rest of a run starts from the ends after the first call
  induction calls generalizing e with
  | nil => exact Option.map_id.symm ▸ rfl
  | cons c' rest ih =>
    have hrun : e.after (c' :: rest) = (e.call c').2.after rest := rfl
    rw [hrun, ih]
    by_cases h : c' = c
    · subst h
      rw [chain_call_self, List.count_cons_self, Option.map_map]
      simp only [ChainKey.after_succ, Function.comp_def]
    · rw [chain_call_of_ne e (Ne.symm h), List.count_cons_of_ne h]

/-- The answers to one kind of call are the message keys of its chain, in order from its start. -/
theorem answers_eq : e.answers calls c =
    (List.range (calls.count c)).map fun i => (e.chain c).map fun start =>
      (start.after i).messageKey := by
  induction calls generalizing e with
  | nil => rfl
  | cons c' rest ih =>
    by_cases h : c' = c
    · -- the first answer is the key at the start, and the others are those of the chain one step on
      subst h
      have hrun : e.answers (c' :: rest) c' = (e.call c').1 :: (e.call c').2.answers rest c' := by
        simp [answers, run]
      rw [hrun, ih, key_call, chain_call_self, List.count_cons_self, List.range_succ_eq_map,
        List.map_cons, List.map_map]
      simp only [Option.map_map, Function.comp_def, ChainKey.after_succ]
      rfl
    · have hrun : e.answers (c' :: rest) c = (e.call c').2.answers rest c := by
        simp [answers, run, h]
      rw [hrun, ih, chain_call_of_ne e (Ne.symm h), List.count_cons_of_ne h]

theorem getElem?_answers {i : ℕ} (hi : i < calls.count c) : (e.answers calls c)[i]? =
    some ((e.chain c).map fun start => (start.after i).messageKey) := by
  rw [answers_eq, List.getElem?_map, List.getElem?_range hi]
  rfl

theorem length_answers : (e.answers calls c).length = calls.count c := by simp [answers_eq]

/-- The keys that name an end stay the same in every run. -/
theorem keys_after (side : Side) : ((e.after calls) side).rootKey = (e side).rootKey ∧
    ((e.after calls) side).localKey = (e side).localKey ∧
    ((e.after calls) side).remoteKey = (e side).remoteKey := by
  induction calls generalizing e with
  | nil => exact ⟨rfl, rfl, rfl⟩
  | cons c' rest ih =>
    have hrun : e.after (c' :: rest) = (e.call c').2.after rest := rfl
    rw [hrun]
    obtain ⟨hroot, hlocal, hremote⟩ := ih (e.call c').2
    have hcall := RatchetState.sameExcept_takeKey (e c'.side) c'.course
    by_cases hside : side = c'.side
    · subst hside
      rw [side_call] at hroot hlocal hremote
      exact ⟨hroot.trans hcall.rootKey, hlocal.trans hcall.localKey, hremote.trans hcall.remoteKey⟩
    · have hother : side = c'.side.other := by
        revert hside
        cases side <;> cases c'.side <;> simp [Side.other]
      subst hother
      rw [other_call] at hroot hlocal hremote
      exact ⟨hroot, hlocal, hremote⟩

variable {e calls}

theorem isPaired_after (h : e.IsPaired) (hcount : ∀ c, calls.count c = calls.count c.paired) :
    (e.after calls).IsPaired := by
  rw [isPaired_iff] at h ⊢
  intro c
  rw [chain_after, chain_after, ← h c, ← hcount c]

end Run

/-! ### Lockstep -/

/-- What two ends answer to calls that interleave in any way, and how they are left. -/
structure Lockstep (e : Ends) (calls : List Call) : Prop where
  /-- Each chain is as many steps along as calls were made on it. -/
  steps : ∀ c, (e.after calls).chain c = (e.chain c).map (·.after (calls.count c))
  /-- Every call is answered. -/
  length : ∀ c, (e.answers calls c).length = calls.count c
  /-- The `i`-th answer on a chain is the `i`-th answer on the copy of it. -/
  agree : ∀ (c : Call) (i : ℕ) (k k' : Option MessageKey), (e.answers calls c)[i]? = some k →
    (e.answers calls c.paired)[i]? = some k' → k = k'
  /-- The answers on a chain are keys, whose indices go on from that of its start. -/
  index : ∀ c start, e.chain c = some start → ∀ i < calls.count c, ∃ k : MessageKey,
    (e.answers calls c)[i]? = some (some k) ∧ k.index.toNat = (start.index.toNat + i) % UInt32.size
  /-- Where a chain is missing, every answer is no key, and no call on it changes the ends. -/
  missing : ∀ c, e.chain c = none →
    (∀ k ∈ e.answers calls c, k = none) ∧ (e.after calls).call c = (none, e.after calls)
  /-- Whichever call is next, it changes nothing but its own chain. -/
  frame : ∀ c, ((e.after calls) c.side).SameExcept c.course (((e.after calls).call c).2 c.side) ∧
    ((e.after calls).call c).2 c.side.other = (e.after calls) c.side.other
  /-- After equally many calls on a chain and on its copy, the ends pair again. -/
  rejoin : (∀ c, calls.count c = calls.count c.paired) → (e.after calls).IsPaired ∧
    ((e .ours).mirrors (e .theirs) → ((e.after calls) .ours).mirrors ((e.after calls) .theirs))

theorem lockstep_of_isPaired {e : Ends} (h : e.IsPaired) (calls : List Call) :
    Lockstep e calls where
  steps := chain_after e calls
  length := length_answers e calls
  agree c i k k' hk hk' := by
    have hi : i < calls.count c := length_answers e calls c ▸ (List.getElem?_eq_some_iff.mp hk).1
    have hi' : i < calls.count c.paired :=
      length_answers e calls c.paired ▸ (List.getElem?_eq_some_iff.mp hk').1
    rw [getElem?_answers e calls c hi] at hk
    rw [getElem?_answers e calls c.paired hi', ← isPaired_iff.mp h c] at hk'
    exact Option.some.inj (hk.symm.trans hk')
  index c start hc i hi := by
    refine ⟨(start.after i).messageKey, ?_, ChainKey.index_after start i⟩
    rw [getElem?_answers e calls c hi, hc]
    rfl
  missing c hc := by
    constructor
    · intro k hk
      rw [answers_eq, hc] at hk
      obtain ⟨i, -, rfl⟩ := List.mem_map.mp hk
      rfl
    · refine call_of_missing ?_
      rw [chain_after, hc]
      rfl
  frame c := by
    refine ⟨?_, other_call _ c⟩
    rw [side_call]
    exact RatchetState.sameExcept_takeKey _ c.course
  rejoin hcount := by
    have hpaired := isPaired_after h hcount
    refine ⟨hpaired, fun hmirrors => ?_⟩
    obtain ⟨⟨hroot, -⟩, hlocal, hremote⟩ := RatchetState.mirrors_iff.mp hmirrors
    obtain ⟨hroot₁, hlocal₁, hremote₁⟩ := keys_after e calls .ours
    obtain ⟨hroot₂, hlocal₂, hremote₂⟩ := keys_after e calls .theirs
    rw [RatchetState.mirrors_iff, hroot₁, hlocal₁, hremote₁, hroot₂, hlocal₂, hremote₂]
    exact ⟨⟨hroot, hpaired.sending, hpaired.receiving⟩, hlocal, hremote⟩

/-- Two ends with one chain, at its last index, and none the other way. -/
def sample : Ends
  | .ours => ⟨.replicate 1, ⟨.replicate 2⟩, ⟨.replicate 3⟩, some ⟨.replicate 4, 0xffffffff⟩, none⟩
  | .theirs => ⟨.replicate 1, ⟨.replicate 3⟩, ⟨.replicate 2⟩, none, some ⟨.replicate 4, 0xffffffff⟩⟩

/-- Calls on the ends above. -/
def sampleCalls : List Call :=
  [⟨.ours, .sending⟩, ⟨.theirs, .sending⟩, ⟨.ours, .sending⟩, ⟨.theirs, .receiving⟩,
    ⟨.ours, .receiving⟩, ⟨.theirs, .receiving⟩]

theorem lockstep_sample : sample.IsPaired ∧ Lockstep sample sampleCalls ∧
    (sample.answers sampleCalls ⟨.theirs, .receiving⟩).map (·.map (·.index)) =
      [some 0xffffffff, some 0] := by
  have h : sample.IsPaired := ⟨rfl, rfl⟩
  exact ⟨h, lockstep_of_isPaired h sampleCalls, rfl⟩

end Ends

end SecureSession
