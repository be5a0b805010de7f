import SecureSession.Proofs.Dispatch
import SecureSession.Proofs.Simulation.Steps

/-! # From actions to the network

A call on a world lets one device take a step of a handshake, and carries out the actions that the
step returns (`World.Performs`). Each message among them is at the back of its link afterwards, and
is read there as the message it was. -/

namespace SecureSession.World

/-! ### The result -/

/-- Whatever a sink answers, by whatever it has received, it receives one call for each action,
in order, but for the messages that have no encoding; the report counts the calls that it
accepts, and all other actions as failed. In an attainable world, each message among the
actions of a successful step is at the back of the link from the device that took the step,
once, and is read there as it was. -/
theorem actions_are_carried_out :
    (∀ (σ : Type) (sink : Sink σ) (actions : List SessionAction) (s : σ),
      let out := Dispatch.run sink.observed actions (s, [])
      List.Forall₂ SessionAction.IsDoneBy (actions.filter SessionAction.isCallable)
        (out.2.2.map Prod.fst) ∧
      Dispatch.run sink actions s = (out.1, out.2.1) ∧
      out.1.executed = out.2.2.countP Prod.snd ∧ out.1.executed + out.1.failed = actions.length) ∧
    (∀ (suite : Suite) (w : World), Attainable suite w → ∀ c status w',
      c.run suite w = .ok (some status) w' →
      ∃ a o n, Performs suite w c a o n ∧ o.status = status ∧ n.Posts a o.actions w'.network) := by
  refine ⟨fun σ sink actions s => ?_, fun suite w hw c status w' h => ?_⟩
  · obtain ⟨hcalls, hrun, hexecuted⟩ := Dispatch.observed_run sink actions s
    refine ⟨?_, hrun, hexecuted, Dispatch.total_run sink.observed actions (s, [])⟩
    rw [hcalls]
    exact SessionAction.forall₂_isDoneBy_calls actions
  · obtain ⟨a, o, n, hperforms, hstatus, hnetwork⟩ := performs_of_run hw.isTidy h
    rw [hnetwork]
    exact ⟨a, o, n, hperforms, hstatus, Network.posts_sendAll_mail n a hperforms.isSendable⟩

/-- When the initiates of Alice and Bob cross, Bob's response to hers waits
behind his own initiate. -/
theorem actions_are_carried_out_crossed :
    Attainable .plain crossed ∧ ∃ o n w',
      (Call.deliver ⟨⟨"alice", 1⟩, ⟨"bob", 1⟩⟩).run .plain crossed = .ok (some .established) w' ∧
      Performs .plain crossed (.deliver ⟨⟨"alice", 1⟩, ⟨"bob", 1⟩⟩) ⟨"bob", 1⟩ o n ∧
      n.Posts ⟨"bob", 1⟩ o.actions w'.network ∧
      (n.queue ⟨⟨"bob", 1⟩, ⟨"alice", 1⟩⟩).length = 1 ∧
      (w'.network.queue ⟨⟨"bob", 1⟩, ⟨"alice", 1⟩⟩).length = 2 := by
  have hanswer : answer ((Call.deliver ⟨⟨"alice", 1⟩, ⟨"bob", 1⟩⟩).run .plain crossed) =
      .ok (some .established) := by decide +kernel
  have hbefore : ((crossed.network.deliver ⟨⟨"alice", 1⟩, ⟨"bob", 1⟩⟩).2.queue
      ⟨⟨"bob", 1⟩, ⟨"alice", 1⟩⟩).length = 1 := by decide +kernel
  have hafter : ((crossed.after .plain (.deliver ⟨⟨"alice", 1⟩, ⟨"bob", 1⟩⟩)).network.queue
      ⟨⟨"bob", 1⟩, ⟨"alice", 1⟩⟩).length = 2 := by decide +kernel
  have hrun := eq_ok_of_answer hanswer
  obtain ⟨a, o, n, hperforms, -, hposts⟩ :=
    actions_are_carried_out.2 .plain crossed attainable_crossed _ _ _ hrun
  cases hperforms with
  | deliver hq hd ho =>
    exact ⟨attainable_crossed, o, _, _, hrun, .deliver hq hd ho, hposts, hbefore, hafter⟩

end SecureSession.World
