import SecureSession.Proofs.Simulation.Call
import SecureSession.Simulation.Operation

/-! # What steps of a world change

A call on a world is made of a few changes: keys are drawn, a device is registered, one device acts,
and messages and numbers of conversations come and go (`World.Changes`). So what all these changes
keep is kept by every call, and by every random operation, however it ends. The clock is apart: it
is moved by a call of its own. -/

namespace SecureSession

/-! ### What a step keeps -/

/-- Whether a step keeps a property of worlds, failed or not. -/
def WorldStep.Keeps (P : World → Prop) {α : Type} (x : WorldStep α) : Prop :=
  ∀ w, P w → P (World.ending (x w))

namespace WorldStep.Keeps

variable {P : World → Prop} {α β : Type}

theorem pure (a : α) : Keeps P (Pure.pure a : WorldStep α) := fun _ h => h

theorem throw (e : WorldError) : Keeps P (MonadExcept.throw e : WorldStep α) := fun _ h => h

theorem bind {x : WorldStep α} {f : α → WorldStep β} (hx : Keeps P x) (hf : ∀ a, Keeps P (f a)) :
    Keeps P (x >>= f) := by
  intro w h
  have hfirst := hx w h
  rw [WorldStep.bind_eq]
  cases hr : x w with
  | error e w' =>
    rw [hr] at hfirst
    exact hfirst
  | ok a w' =>
    rw [hr] at hfirst
    exact hf a w' hfirst

theorem modifyGet {f : World → α × World} (hf : ∀ w, P w → P (f w).2) :
    Keeps P (MonadStateOf.modifyGet f : WorldStep α) := fun w h => hf w h

theorem forM {f : α → WorldStep Unit} (hf : ∀ a, Keeps P (f a)) : ∀ l : List α, Keeps P (l.forM f)
  | [] => pure ()
  | a :: l => bind (hf a) fun _ => forM hf l

/-- A step that is made for its effect, or answers in another way. -/
theorem map {x : WorldStep α} (hx : Keeps P x) (f : α → β) :
    Keeps P (do return f (← x) : WorldStep β) := bind hx fun a => pure (f a)

end WorldStep.Keeps

/-! ### Changes -/

/-- What a call may do with a device. -/
inductive Device.Acts (suite : Suite) (d : Device) : Device → Prop
  | read : Acts suite d d
  | publish : Acts suite d (d.publishNext suite).2
  | useBundle (peer : Address) (thread : UInt64) (b : PreKeyBundle) :
    Acts suite d (d.useBundle suite peer thread b).2
  | initiate (peer : Address) (thread : UInt64) : Acts suite d (d.initiate suite peer thread).2
  | receive (e : Envelope) : Acts suite d (d.receive suite e).2
  | acknowledge (peer : Address) : Acts suite d (d.runPlan (·.acknowledge peer)).2
  | rotateIdentity (identity : KeyPair) : Acts suite d (d.rotateIdentity identity)
  | failNextCommit : Acts suite d d.failNextCommit

namespace World

/-- The changes that calls are made of, those of the clock apart. -/
inductive Changes (suite : Suite) (w : World) : World → Prop
  | draw : Changes suite w { w with environment := (w.environment.keyPair suite).2 }
  | register (identity : KeyPair) (a : Address) : Changes suite w { w with
      environment := w.environment.fork.2
      devices := w.devices.insert a (.create a w.environment.fork.1 w.config identity)
      recordings := w.recordings.insert a .empty }
  | act {a : Address} {d d' : Device} (hd : w.devices.get? a = some d) (h : d.Acts suite d') :
    Changes suite w (w.setDevice a d')
  | settle (a : Address) (o : HandshakeOutcome) : Changes suite w (ending (settle a o w))
  | number (threads : SortedMap Conversation UInt64) (nextThread : UInt64) :
    Changes suite w { w with threads, nextThread }
  | post (e : Envelope) : Changes suite w { w with network := w.network.send e }
  | pop (l : Link) : Changes suite w (w.pop l)

/-- Whether a property is kept by all changes. -/
def Lasts (suite : Suite) (P : World → Prop) : Prop := ∀ ⦃w w'⦄, Changes suite w w' → P w → P w'

end World

/-! ### Steps -/

namespace WorldStep.Keeps

open World

variable {suite : Suite} {P : World → Prop} (hP : Lasts suite P) {α : Type}
include hP

theorem drawIdentity : Keeps P (World.drawIdentity suite) := modifyGet fun _ h => hP .draw h

theorem addDevice (identity : KeyPair) (a : Address) : Keeps P (World.addDevice identity a) :=
  modifyGet fun _ h => hP (.register identity a) h

theorem addAccount (name : String) (devices : Nat) :
    Keeps P (World.addAccount suite name devices) :=
  bind (drawIdentity hP) fun identity => bind (forM (addDevice hP identity) _) fun _ => pure _

theorem useDevice (a : Address) {f : Device → α × Device}
    (hf : ∀ d : Device, d.Acts suite (f d).2) : Keeps P (World.useDevice a f) := by
  intro w h
  cases hd : w.devices.get? a with
  | none =>
    rw [useDevice_unknown hd]
    exact h
  | some d =>
    rw [useDevice_eq hd]
    exact hP (.act hd (hf d)) h

theorem onDevice (a : Address) {f : Device → Except SessionError α × Device}
    (hf : ∀ d : Device, d.Acts suite (f d).2) : Keeps P (World.onDevice a f) := by
  refine bind (useDevice hP a hf) fun r => ?_
  cases r with
  | ok x => exact pure x
  | error e => exact throw _

theorem settle (a : Address) (o : HandshakeOutcome) : Keeps P (World.settle a o) :=
  fun _ h => hP (.settle a o) h

theorem act (a : Address) {f : Device → Except SessionError HandshakeOutcome × Device}
    (hf : ∀ d : Device, d.Acts suite (f d).2) : Keeps P (World.act a f) :=
  bind (onDevice hP a hf) (settle hP a)

theorem threadId (a b : String) : Keeps P (World.threadId a b) := by
  refine modifyGet fun w h => ?_
  dsimp only
  split
  · exact h
  · exact hP (.number _ _) h

theorem establishFromBundle (source target : Address) :
    Keeps P (World.establishFromBundle suite source target) :=
  bind (threadId hP _ _) fun _ => bind (useDevice hP target fun _ => .publish) fun _ =>
    act hP source fun _ => .useBundle ..

theorem sendFirstMessage (source target : Address) :
    Keeps P (World.sendFirstMessage source target) := by
  refine bind (threadId hP _ _) fun _ => bind (onDevice hP source fun _ => .read) fun first => ?_
  cases first with
  | none => exact pure false
  | some m => exact bind (modifyGet fun _ h => hP (.post _) h) fun _ => pure true

theorem initiate (source target : Address) : Keeps P (World.initiate suite source target) :=
  bind (threadId hP _ _) fun _ => act hP source fun _ => .initiate ..

theorem deliver (l : Link) : Keeps P (World.deliver suite l) := by
  refine bind (modifyGet fun _ h => hP (.pop l) h) fun taken => ?_
  cases taken with
  | none => exact pure none
  | some e =>
    exact bind (onDevice hP l.target fun _ => .receive e) fun o => map (settle hP _ o) some

theorem deliverRounds : ∀ (limit : Nat) (round : List Link),
    Keeps P (World.deliverRounds suite limit round)
  | 0, _ => pure 0
  | limit + 1, l :: round => by
    unfold World.deliverRounds
    exact bind (deliver hP l) fun _ => map (deliverRounds limit round) (· + 1)
  | limit + 1, [] => by
    unfold World.deliverRounds
    refine bind (x := get) (fun _ h => h) fun w => ?_
    split
    · exact pure 0
    · exact bind (deliver hP _) fun _ => map (deliverRounds limit _) (· + 1)

theorem rotateIdentity (name : String) : Keeps P (World.rotateIdentity suite name) := by
  refine bind (drawIdentity hP) fun identity => modifyGet fun w h => ?_
  suffices hfold : ∀ (l : List Address) (w : World), P w → P (l.foldl (fun w a =>
      { w with devices := w.devices.modify a (·.rotateIdentity identity) }) w) from hfold _ w h
  intro l
  induction l with
  | nil => exact fun _ h => h
  | cons a l ih =>
    refine fun w h => ih _ ?_
    dsimp only [SortedMap.modify]
    split
    · rename_i d hd
      exact hP (.act hd (.rotateIdentity identity)) h
    · exact h

theorem failNextCommit (a : Address) : Keeps P (World.failNextCommit a) :=
  useDevice hP a fun _ => .failNextCommit

/-! ### Calls and operations -/

/-- What all changes keep is kept by a call, if the clock may move where the call moves it. -/
theorem call (c : Call) (hclock : ∀ ms, c = .advance ms → Keeps P (World.advance ms)) :
    Keeps P (c.run suite) := by
  cases c with
  | addAccount name devices => exact map (addAccount hP name devices) _
  | threadId a b => exact map (threadId hP a b) _
  | establishFromBundle source target => exact map (establishFromBundle hP source target) _
  | sendFirstMessage source target => exact map (sendFirstMessage hP source target) _
  | acknowledge source target => exact map (onDevice hP source fun _ => .acknowledge target) _
  | initiate source target => exact map (initiate hP source target) _
  | deliver l => exact deliver hP l
  | rotateIdentity name => exact map (rotateIdentity hP name) _
  | failNextCommit a => exact map (failNextCommit hP a) _
  | advance ms => exact map (hclock ms rfl) _

omit hP in
theorem betweenAccounts {source target : Address} {step : WorldStep Unit} (h : Keeps P step) :
    Keeps P (Operation.betweenAccounts source target step) := by
  unfold Operation.betweenAccounts
  split
  · exact pure ()
  · exact h

omit hP in
/-- To leave out a failure leaves the world as it is. -/
theorem absorb {step : WorldStep Unit} (h : Keeps P step) : Keeps P (Operation.absorb step) := by
  intro w hw
  have hstep := h w hw
  unfold Operation.absorb
  cases hr : step w with
  | ok x w' =>
    rw [hr] at hstep
    exact hstep
  | error e w' =>
    rw [hr] at hstep
    dsimp only
    split <;> exact hstep

/-- What all changes keep is kept by a random operation, if the clock may move where it moves it. -/
theorem operation (o : Operation) (hclock : ∀ ms, o = .advanceTime ms →
    Keeps P (World.advance (UInt64.ofNat ms.toNat))) : Keeps P (o.apply suite) := by
  refine bind (x := get) (fun _ h => h) fun w => ?_
  split
  · exact pure ()
  · refine absorb ?_
    cases o with
    | initiate source target => exact betweenAccounts (map (initiate hP _ _) _)
    | sendFirstMessage source target =>
      exact betweenAccounts
        (bind (establishFromBundle hP _ _) fun _ => map (sendFirstMessage hP _ _) _)
    | deliver source target => exact map (deliver hP _) _
    | deliverAll => exact map (deliverRounds hP _ _) _
    | rotateIdentity device => exact rotateIdentity hP _
    | failNextCommit device => exact failNextCommit hP _
    | advanceTime ms => exact hclock ms rfl

end WorldStep.Keeps

end SecureSession
