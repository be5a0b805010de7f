import Mathlib.Data.List.Forall2
import SecureSession.Dispatch

/-! # Actions are carried out in order

A sink may refuse any call, and may answer by all the calls it has received so far. Whatever it
answers, carrying out some actions makes one call for each, in order, but for the messages that
cannot be encoded (`Dispatch.observed_run`); the report counts the calls that were accepted, and all
other actions as failed. -/

namespace SecureSession

/-! ### The call for an action -/

/-- Whether a call does what an action asks for. -/
inductive SessionAction.IsDoneBy : SessionAction → SinkCall → Prop
  | sendHandshake {address : Address} {thread : UInt64} {m : HandshakeMessage} {payload : Bytes}
    (h : m.encode = .ok payload) :
    IsDoneBy (.sendHandshake address thread m) (.sendHandshake address thread m.kind payload)
  | securityUpdate (thread : UInt64) : IsDoneBy (.securityUpdate thread) (.securityUpdated thread)
  | drainPending (address : Address) : IsDoneBy (.drainPending address) (.schedulePending address)
  | notify (notice : IdentityNotice) :
    IsDoneBy (.notify notice) (.insertMessage notice notice.describe)

namespace SessionAction

/-- Whether there is a call for an action: a handshake message has to have an encoding. -/
def isCallable : SessionAction → Bool
  | sendHandshake _ _ m => m.encode.isOk
  | _ => true

theorem isCallable_eq (action : SessionAction) : action.isCallable = action.call?.isSome := by
  cases action with
  | sendHandshake address thread m => simp only [isCallable, call?]; cases m.encode <;> rfl
  | _ => rfl

theorem isDoneBy_of_call? {action : SessionAction} {call : SinkCall}
    (h : action.call? = some call) : action.IsDoneBy call := by
  cases action with
  | sendHandshake address thread m =>
    simp only [call?] at h
    cases hencode : m.encode with
    | error e => simp [hencode] at h
    | ok payload =>
      simp only [hencode, Option.some.injEq] at h
      subst h
      exact .sendHandshake hencode
  | securityUpdate thread => cases h; exact .securityUpdate thread
  | drainPending address => cases h; exact .drainPending address
  | notify notice => cases h; exact .notify notice

/-- The calls for some actions, in order. -/
def calls (actions : List SessionAction) : List SinkCall := actions.filterMap call?

theorem forall₂_isDoneBy_calls (actions : List SessionAction) :
    List.Forall₂ IsDoneBy (actions.filter isCallable) (calls actions) := by
  induction actions with
  | nil => exact .nil
  | cons action rest ih =>
    have hcallable := action.isCallable_eq
    cases hcall : action.call? with
    | none =>
      rw [hcall] at hcallable
      simpa [calls, hcall, hcallable] using ih
    | some call =>
      rw [hcall] at hcallable
      have hdone := isDoneBy_of_call? hcall
      simpa [calls, hcall, hcallable] using ⟨hdone, ih⟩

end SessionAction

/-! ### Sinks -/

namespace Sink

variable {σ : Type}

/-- What a sink answers to some calls. -/
def answers (sink : Sink σ) : σ → List SinkCall → List Bool
  | _, [] => []
  | s, call :: rest => (sink s call).1 :: answers sink (sink s call).2 rest

/-- The state of a sink after some calls. -/
def after (sink : Sink σ) (s : σ) (l : List SinkCall) : σ :=
  l.foldl (fun s call => (sink s call).2) s

/-- The sink that takes down every call it receives, with its answer. -/
def observed (sink : Sink σ) : Sink (σ × List (SinkCall × Bool)) := fun s call =>
  ((sink s.1 call).1, (sink s.1 call).2, s.2 ++ [(call, (sink s.1 call).1)])

theorem length_answers (sink : Sink σ) (l : List SinkCall) :
    ∀ s, (sink.answers s l).length = l.length := by
  induction l with
  | nil => exact fun _ => rfl
  | cons call rest ih => exact fun s => congrArg (· + 1) (ih _)

/-- To be observed does not change what a sink answers. -/
theorem answers_observed (sink : Sink σ) (l : List SinkCall) :
    ∀ s log, sink.observed.answers (s, log) l = sink.answers s l := by
  induction l with
  | nil => exact fun _ _ => rfl
  | cons call rest ih => exact fun s log => congrArg ((sink s call).1 :: ·) (ih _ _)

theorem after_observed (sink : Sink σ) (l : List SinkCall) : ∀ s log,
    sink.observed.after (s, log) l = (sink.after s l, log ++ l.zip (sink.answers s l)) := by
  induction l with
  | nil => intro s log; simp [after, answers]
  | cons call rest ih =>
    intro s log
    have hrest := ih (sink s call).2 (log ++ [(call, (sink s call).1)])
    rw [List.append_assoc, List.singleton_append] at hrest
    exact hrest

end Sink

/-! ### Carrying out -/

/-- A report is told by the calls accepted and the actions in all. -/
theorem DispatchReport.ext_total {r r' : DispatchReport}
    (h : r.executed = r'.executed) (htotal : r.executed + r.failed = r'.executed + r'.failed) :
    r = r' := by
  obtain ⟨executed, failed⟩ := r
  obtain ⟨executed', failed'⟩ := r'
  simp only at h htotal
  simp only [DispatchReport.mk.injEq]
  omega

namespace Dispatch

variable {σ : Type} (sink : Sink σ)

/-- What carrying out some more actions adds to a report, and makes of the state of the sink. -/
theorem foldl_step (actions : List SessionAction) : ∀ (r : DispatchReport) (s : σ),
    let out := actions.foldl (step sink) (r, s)
    let accepted := (sink.answers s (SessionAction.calls actions)).count true
    out.2 = sink.after s (SessionAction.calls actions) ∧ out.1.executed = r.executed + accepted ∧
      out.1.executed + out.1.failed = r.executed + r.failed + actions.length := by
  induction actions with
  | nil => intro r s; exact ⟨rfl, rfl, rfl⟩
  | cons action rest ih =>
    intro r s
    cases hcall : action.call? with
    | none =>
      obtain ⟨hstate, hexecuted, htotal⟩ := ih (count false r) s
      have hcalls : SessionAction.calls (action :: rest) = SessionAction.calls rest := by
        simp [SessionAction.calls, hcall]
      simp only [List.foldl_cons, step, hcall, hcalls, List.length_cons]
      refine ⟨hstate, hexecuted, ?_⟩
      rw [htotal]
      simp only [count, Bool.false_eq_true, if_false]
      omega
    | some call =>
      obtain ⟨hstate, hexecuted, htotal⟩ := ih (count (sink s call).1 r) (sink s call).2
      have hcalls : SessionAction.calls (action :: rest) = call :: SessionAction.calls rest := by
        simp [SessionAction.calls, hcall]
      simp only [List.foldl_cons, step, hcall, hcalls, List.length_cons, Sink.answers,
        List.count_cons]
      refine ⟨hstate, ?_, ?_⟩
      · rw [hexecuted]
        cases (sink s call).1 <;> simp [count]
        omega
      · rw [htotal]
        cases (sink s call).1 <;> simp only [count, Bool.false_eq_true, if_false, if_true] <;> omega

/-- The state of a sink after some actions is that after the calls for them. -/
theorem state_run (actions : List SessionAction) (s : σ) :
    (run sink actions s).2 = sink.after s (SessionAction.calls actions) :=
  (foldl_step sink actions ⟨0, 0⟩ s).1

theorem executed_run (actions : List SessionAction) (s : σ) : (run sink actions s).1.executed =
    (sink.answers s (SessionAction.calls actions)).count true := by
  have h := (foldl_step sink actions ⟨0, 0⟩ s).2.1
  rwa [Nat.zero_add] at h

theorem total_run (actions : List SessionAction) (s : σ) :
    (run sink actions s).1.executed + (run sink actions s).1.failed = actions.length := by
  have h := (foldl_step sink actions ⟨0, 0⟩ s).2.2
  rwa [Nat.zero_add, Nat.zero_add] at h

/-- A sink that is observed while some actions are carried out receives the calls for them, one each
and in order. It ends in the state in which it ends unobserved, and the report is the same. -/
theorem observed_run (actions : List SessionAction) (s : σ) :
    let out := run sink.observed actions (s, [])
    out.2.2.map Prod.fst = SessionAction.calls actions ∧ run sink actions s = (out.1, out.2.1) ∧
      out.1.executed = out.2.2.countP Prod.snd := by
  intro out
  have hstate : out.2 = _ := state_run sink.observed actions (s, [])
  have hexecuted : out.1.executed = _ := executed_run sink.observed actions (s, [])
  have htotal : out.1.executed + out.1.failed = _ := total_run sink.observed actions (s, [])
  rw [Sink.after_observed, List.nil_append] at hstate
  rw [Sink.answers_observed] at hexecuted
  have hlength := sink.length_answers (SessionAction.calls actions) s
  refine ⟨?_, Prod.ext ?_ ?_, ?_⟩
  · rw [hstate, List.map_fst_zip (Nat.le_of_eq hlength.symm)]
  · refine DispatchReport.ext_total ?_ ?_
    · rw [executed_run, hexecuted]
    · rw [total_run, htotal]
  · rw [state_run, hstate]
  · have hanswers : (out.2.2.map Prod.snd).count true = out.2.2.countP Prod.snd := by
      rw [List.count, List.countP_map]
      exact List.countP_congr fun x _ => by simp
    rw [hexecuted, ← hanswers, hstate, List.map_snd_zip (Nat.le_of_eq hlength)]

end Dispatch

end SecureSession
