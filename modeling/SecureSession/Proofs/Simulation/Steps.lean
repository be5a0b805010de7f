import SecureSession.Proofs.Simulation.Sending

/-! # Steps behind calls

A call on a world that answers with a status lets one device take a step of a handshake, and ends by
carrying out what the step asks for (`World.settled_of_run`): the messages among it are sent
(`World.performs_of_run`). -/

namespace SecureSession.World

/-! ### Steps of calls -/

/-- The number of the conversation of two accounts, if need be the one that is
given out at first use. -/
def thread (w : World) (a b : String) : UInt64 :=
  (w.threads.get? (.between a b)).getD w.nextThread

/-- Which step of which device a call performs, with the outcome of the step and the network it
leaves for the messages of the outcome. -/
inductive Performs (suite : Suite) (w : World) : Call → Address → HandshakeOutcome → Network → Prop
  | establishFromBundle {source target : Address} {d publisher : Device} {o : HandshakeOutcome}
    (hpublisher : w.devices.get? target = some publisher)
    (hd : (w.setDevice target (publisher.publishNext suite).2).devices.get? source = some d)
    (ho : (d.useBundle suite target (w.thread source.name target.name)
      (publisher.publishNext suite).1).1 = .ok o) :
    Performs suite w (.establishFromBundle source target) source o w.network
  | initiate {source target : Address} {d : Device} {o : HandshakeOutcome}
    (hd : w.devices.get? source = some d)
    (ho : (d.initiate suite target (w.thread source.name target.name)).1 = .ok o) :
    Performs suite w (.initiate source target) source o w.network
  | deliver {l : Link} {d : Device} {e : Envelope} {rest : List Envelope} {o : HandshakeOutcome}
    (hq : w.network.queue l = e :: rest) (hd : w.devices.get? l.target = some d)
    (ho : (d.receive suite e).1 = .ok o) :
    Performs suite w (.deliver l) l.target o (w.network.deliver l).2

variable {suite : Suite} {w w' : World}

/-- What is sent in a step can be read. -/
theorem Performs.isSendable {c : Call} {a : Address} {o : HandshakeOutcome} {n : Network}
    (h : Performs suite w c a o n) : ∀ x ∈ SessionAction.sent o.actions, x.2.IsSendable := by
  cases h with
  | establishFromBundle _ _ ho =>
    exact fun x hx => (Device.sendsTo_useBundle suite _ _ _ _ o ho x hx).2
  | initiate _ ho => exact fun x hx => (Device.sendsTo_initiate suite _ _ _ o ho x hx).2
  | deliver _ _ ho => exact fun x hx => (Device.sendsTo_receive suite _ _ o ho x hx).2

theorem threadId_ok (a b : String) (w : World) :
    ∃ w', World.threadId a b w = .ok (w.thread a b) w' ∧ w.Same w' := by
  obtain ⟨id, w', hid, hsame⟩ := threadId_spec a b w
  have hthread : id = w.thread a b := by
    rw [World.threadId, WorldStep.modifyGet_eq] at hid
    dsimp only at hid
    rw [thread]
    split at hid
    · next h => cases hid; rw [h, Option.getD_some]
    · next h => cases hid; rw [h, Option.getD_none]
  exact ⟨w', hthread ▸ hid, hsame⟩

/-! ### What calls carry out -/

/-- A device that acts with success has taken a step, and what the step asks for is carried out. -/
theorem act_eq_ok {a : Address} {f : Device → Except SessionError HandshakeOutcome × Device}
    {status : HandshakeStatus} (h : act a f w = .ok status w') :
    ∃ d o, w.devices.get? a = some d ∧ (f d).1 = .ok o ∧
      settle a o (w.setDevice a (f d).2) = .ok status w' := by
  cases hd : w.devices.get? a with
  | none =>
    rw [act_unknown hd] at h
    cases h
  | some d =>
    rw [act, WorldStep.bind_eq, onDevice_eq hd] at h
    cases ho : (f d).1 with
    | error e =>
      rw [ho] at h
      cases h
    | ok o =>
      rw [ho] at h
      exact ⟨d, o, rfl, ho, h⟩

/-- A call answers with a status once a step of a device has been performed, and it ends by carrying
out what the step asks for. -/
theorem settled_of_run {c : Call} {status : HandshakeStatus}
    (h : c.run suite w = .ok (some status) w') :
    ∃ a o v, settle a o v = .ok status w' ∧ Performs suite w c a o v.network ∧
      v.recordings = w.recordings ∧ (w.IsTidy → v.IsTidy) := by
  cases c with
  | establishFromBundle source target =>
    obtain ⟨w₁, hthread, hsame⟩ := threadId_ok source.name target.name w
    obtain ⟨status, w₂, hrun, hpure⟩ := WorldStep.bind_eq_ok h
    cases hpure
    cases hpublisher : w.devices.get? target with
    | none =>
      rw [World.establishFromBundle, WorldStep.bind_eq, hthread] at hrun
      dsimp only at hrun
      rw [WorldStep.bind_eq, useDevice_unknown (hsame.devices ▸ hpublisher)] at hrun
      cases hrun
    | some publisher =>
      rw [establishFromBundle_eq source target hthread (hsame.devices ▸ hpublisher)] at hrun
      obtain ⟨d, o, hd, ho, hsettle⟩ := act_eq_ok hrun
      rw [setDevice, hsame.devices] at hd
      refine ⟨source, o, _, hsettle, ?_, hsame.recordings,
        fun hw => hw.of_eq hsame.recordings hsame.network⟩
      show Performs suite w _ source o w₁.network
      rw [hsame.network]
      exact .establishFromBundle hpublisher hd ho
  | initiate source target =>
    obtain ⟨w₁, hthread, hsame⟩ := threadId_ok source.name target.name w
    obtain ⟨status, w₂, hrun, hpure⟩ := WorldStep.bind_eq_ok h
    cases hpure
    rw [initiate_eq source target hthread] at hrun
    obtain ⟨d, o, hd, ho, hsettle⟩ := act_eq_ok hrun
    refine ⟨source, o, _, hsettle, ?_, hsame.recordings,
      fun hw => hw.of_eq hsame.recordings hsame.network⟩
    show Performs suite w _ source o w₁.network
    rw [hsame.network]
    exact .initiate (hsame.devices ▸ hd) ho
  | deliver l =>
    cases hq : w.network.queue l with
    | nil =>
      rw [Call.run, deliver_nil hq] at h
      cases h
    | cons e rest =>
      rw [Call.run, deliver_cons hq] at h
      obtain ⟨status, w₂, hrun, hpure⟩ := WorldStep.bind_eq_ok h
      cases hpure
      obtain ⟨d, o, hd, ho, hsettle⟩ := act_eq_ok hrun
      exact ⟨l.target, o, _, hsettle, .deliver hq hd ho, rfl, fun hw => (hw.pop l).of_eq rfl rfl⟩
  | addAccount | threadId | sendFirstMessage | acknowledge | rotateIdentity | failNextCommit
  | advance =>
    obtain ⟨_, _, _, hpure⟩ := WorldStep.bind_eq_ok h
    cases hpure

/-- The messages of the step behind a call are sent, and nothing else is. -/
theorem performs_of_run (hw : w.IsTidy) {c : Call} {status : HandshakeStatus}
    (h : c.run suite w = .ok (some status) w') :
    ∃ a o n, Performs suite w c a o n ∧ o.status = status ∧
      w'.network = n.sendAll (SessionAction.mail a o.actions) := by
  obtain ⟨a, o, v, hsettle, hperforms, -, htidy⟩ := settled_of_run h
  have hnetwork := network_settle (htidy hw) a o
  rw [hsettle] at hnetwork
  cases hsettle
  exact ⟨a, o, v.network, hperforms, rfl, hnetwork⟩

end SecureSession.World
