import SecureSession.Message.PreKeyBundle
import SecureSession.Proofs.Simulation.Trace

/-! # Offers

A device offers a session with each bundle of a peer that it uses (`Offer`), and tells the peer of
its last offer with each first message it sends. `World.Progress` counts, from the calls of a run
alone, how many offers were made, which of them the messages on the way tell of, and which was taken
up last: never an earlier one than before (`World.Progress.InOrder`). -/

namespace SecureSession

/-! ### What is drawn for a session -/

/-- What two devices draw for a session from a bundle: one the prekey, the other its base and
ephemeral keys. -/
structure Offer where
  prekeyId : UInt32
  prekey : KeyPair
  base : KeyPair
  ephemeral : KeyPair

namespace Offer

variable {suite : Suite} (o : Offer)

/-- The key pairs drawn for an offer. -/
def keyPairs : List KeyPair := [o.prekey, o.base, o.ephemeral]

/-- The public keys drawn for an offer. -/
def publicKeys : List PublicKey := o.keyPairs.map KeyPair.publicKey

/-- Whether the pairs of an offer are made of secrets. -/
structure IsSound (suite : Suite) (o : Offer) : Prop where
  prekey : suite.Owns o.prekey
  base : suite.Owns o.base
  ephemeral : suite.Owns o.ephemeral

/-- The keys of the device that makes the offer. -/
def sourceParameters (own : KeyPair) (their : PublicKey) : RatchetParameters where
  ourBase := o.base
  theirBase := o.prekey.publicKey
  ourEphemeral := o.ephemeral
  theirEphemeral := o.prekey.publicKey
  ourIdentity := own
  theirIdentity := their

/-- The keys of the device that takes the offer up, with its prekey in place of a base key and of an
ephemeral key. -/
def targetParameters (own : KeyPair) (their : PublicKey) : RatchetParameters where
  ourBase := o.prekey
  theirBase := o.base.publicKey
  ourEphemeral := o.prekey
  theirEphemeral := o.ephemeral.publicKey
  ourIdentity := own
  theirIdentity := their

/-- The session of the device that makes the offer. -/
def sourceState (own their : PublicKey) (ratchet : RatchetState) : SessionState :=
  { SessionState.fresh own their ratchet with
    unacknowledged := some ⟨o.prekeyId, o.base.publicKey⟩ }

/-- Whether a message tells of an offer. -/
inductive Announces (o : Offer) (identity : PublicKey) : HandshakeMessage → Prop
  | bundle {m : PreKeyMessage} (prekeyId : m.prekeyId = o.prekeyId)
    (base : m.baseKey = o.base.publicKey) (identityKey : m.identityKey = identity)
    (ephemeral : m.message.senderEphemeral = o.ephemeral.publicKey) :
    Announces o identity (.bundle m)

/-- The bundle that an offer is made with. -/
def bundle (device : UInt32) (identity : PublicKey) : PreKeyBundle where
  deviceId := device
  prekeyId := o.prekeyId
  prekey := o.prekey.publicKey
  identityKey := identity

variable {o} {own their : KeyPair}

theorem isSound_sourceParameters (ho : o.IsSound suite) {their : PublicKey}
    (htheir : suite.IsPublic their) : (o.sourceParameters own their).IsSound suite :=
  ⟨ho.prekey.isPublic, ho.prekey.isPublic, htheir⟩

theorem isSound_targetParameters (ho : o.IsSound suite) {their : PublicKey}
    (htheir : suite.IsPublic their) : (o.targetParameters own their).IsSound suite :=
  ⟨ho.base.isPublic, ho.ephemeral.isPublic, htheir⟩

/-- The two ends of an offer mirror each other. -/
theorem mirrors (ha : suite.Agrees) (ho : o.IsSound suite) (hown : suite.Owns own)
    (htheir : suite.Owns their) (hne : o.prekey.publicKey ≠ o.base.publicKey) {r r' : RatchetState}
    (hr : suite.initialState (o.sourceParameters own their.publicKey) = .ok r)
    (hr' : suite.initialState (o.targetParameters their own.publicKey) = .ok r') :
    r.mirrors r' = true := by
  refine ha _ _ r r' ?_ ?_ hr hr'
  · exact ⟨ho.base, ho.ephemeral, hown, rfl, rfl, rfl, hne.symm⟩
  · exact ⟨ho.prekey, ho.prekey, htheir, rfl, rfl, rfl, hne⟩

end Offer

/-! ### Offers in turn -/

namespace Environment

/-- The environment once the keys of some exchanges are drawn. -/
def afterExchanges (suite : Suite) (e : Environment) : Nat → Environment
  | 0 => e
  | n + 1 => (e.afterExchanges suite n).afterExchange suite

/-- The environment once some key pairs are drawn. -/
def afterKeyPairs (suite : Suite) (e : Environment) : Nat → Environment
  | 0 => e
  | n + 1 => ((e.afterKeyPairs suite n).keyPair suite).2

end Environment

/-- The offer drawn from the environments of two devices. -/
def Offer.draw (suite : Suite) (prekeyId : UInt32) (source target : Environment) : Offer where
  prekeyId
  prekey := (target.keyPair suite).1
  base := (source.keyPair suite).1
  ephemeral := ((source.keyPair suite).2.keyPair suite).1

theorem Offer.isSound_draw (suite : Suite) (prekeyId : UInt32) (source target : Environment) :
    (draw suite prekeyId source target).IsSound suite :=
  ⟨suite.owns_keyPair _, suite.owns_keyPair _, suite.owns_keyPair _⟩

namespace Device

variable (suite : Suite) (d e : Device)

/-- The offer that a device would make another. -/
def offer : Offer := .draw suite e.nextPreKey d.party.environment e.party.environment

/-- The offer that a device would make another after some more. -/
def nthOffer (i : Nat) : Offer :=
  .draw suite (e.nextPreKey + UInt32.ofNat i) (d.party.environment.afterExchanges suite i)
    (e.party.environment.afterKeyPairs suite i)

/-- Offers have different numbers, up to the range of numbers. -/
theorem prekeyId_nthOffer_ne {i j : Nat} (hi : i < 2 ^ 32) (hj : j < 2 ^ 32) (hne : i ≠ j) :
    (d.nthOffer suite e i).prekeyId ≠ (d.nthOffer suite e j).prekeyId := by
  intro heq
  have hsame := congrArg UInt32.toNat ((UInt32.add_right_inj e.nextPreKey).mp heq)
  rw [UInt32.toNat_ofNat_of_lt' hi, UInt32.toNat_ofNat_of_lt' hj] at hsame
  exact hne hsame

end Device

namespace World

/-! ### The offers of a run -/

section Run
variable (suite : Suite) (x y : Address)

/-- The offer that a device makes another at a moment. -/
def Moment.offer (m : Moment) : Option Offer :=
  if m.call = .establishFromBundle x y then
    (m.world.devices.get? x).bind fun d => (m.world.devices.get? y).map fun e => d.offer suite e
  else none

/-- The offers that a device makes another in a run. -/
def offers (t : List Moment) : List Offer := t.filterMap (Moment.offer suite x y)

variable {suite x y}

theorem Moment.offer_establish {w : World} {d e : Device} (hd : w.devices.get? x = some d)
    (he : w.devices.get? y = some e) :
    (⟨w, .establishFromBundle x y⟩ : Moment).offer suite x y = some (d.offer suite e) := by
  rw [offer, if_pos rfl, hd, he]
  rfl

theorem Moment.offer_of_ne {w : World} {c : Call} (h : c ≠ .establishFromBundle x y) :
    (⟨w, c⟩ : Moment).offer suite x y = none := if_neg h

end Run

/-! ### How far a run has come -/

/-- How many offers were made, the places of those that the messages on the way tell of, oldest
message first, and how many had been made up to the one taken up last. -/
structure Progress where
  made : Nat
  underway : List Nat
  taken : Nat
deriving DecidableEq

namespace Progress

/-- Nothing has happened. -/
def start : Progress := ⟨0, [], 0⟩

variable (p : Progress)

/-- An offer is made. -/
def offer : Progress := { p with made := p.made + 1 }

/-- A message about the last offer is sent, if there is one. -/
def post : Progress :=
  if p.made = 0 then p else { p with underway := p.underway ++ [p.made - 1] }

/-- The oldest message is taken in, if there is one. -/
def take : Progress :=
  match p.underway with
  | [] => p
  | i :: rest => { p with underway := rest, taken := i + 1 }

/-- What a call comes to, for the offers of one device to another. -/
def step (x y : Address) (c : Call) : Progress :=
  if c = .establishFromBundle x y then p.offer
  else if c = .sendFirstMessage x y then p.post
  else if c = .deliver ⟨x, y⟩ then p.take
  else p

/-- What a run comes to. -/
def run (x y : Address) (calls : List Call) : Progress := calls.foldl (fun p c => p.step x y c) p

/-- Whether the messages on the way tell of later and later offers, of none
before the one taken up last. -/
structure InOrder : Prop where
  sorted : p.underway.Pairwise (· ≤ ·)
  taken_le : ∀ i ∈ p.underway, p.taken ≤ i + 1
  lt_made : ∀ i ∈ p.underway, i < p.made
  taken_le_made : p.taken ≤ p.made

/-- Whether the last offer was taken up, or a message on the way tells of it. -/
def IsAnnounced : Prop := p.made - 1 ∈ p.underway ∨ p.taken = p.made

variable {p} {x y : Address}

theorem inOrder_start : start.InOrder := ⟨List.Pairwise.nil, nofun, nofun, le_rfl⟩

theorem InOrder.offer (h : p.InOrder) : p.offer.InOrder := by
  refine ⟨h.sorted, h.taken_le, fun i hi => ?_, ?_⟩
  · have hlt := h.lt_made i hi
    unfold Progress.offer
    dsimp only
    omega
  · have hle := h.taken_le_made
    unfold Progress.offer
    dsimp only
    omega

theorem InOrder.post (h : p.InOrder) : p.post.InOrder := by
  have hle := h.taken_le_made
  unfold Progress.post
  split_ifs with hmade
  · exact h
  refine ⟨?_, fun i hi => ?_, fun i hi => ?_, hle⟩
  · refine List.pairwise_append.mpr ⟨h.sorted, List.pairwise_singleton .., fun i hi j hj => ?_⟩
    have hlt := h.lt_made i hi
    rw [List.mem_singleton] at hj
    omega
  · rcases List.mem_append.mp hi with hi | hi
    · exact h.taken_le i hi
    · rw [List.mem_singleton] at hi
      dsimp only
      omega
  · rcases List.mem_append.mp hi with hi | hi
    · exact h.lt_made i hi
    · rw [List.mem_singleton] at hi
      dsimp only
      omega

theorem InOrder.take (h : p.InOrder) : p.take.InOrder := by
  unfold Progress.take
  split
  · exact h
  · rename_i i rest hunderway
    obtain ⟨sorted, taken_le, lt_made, -⟩ := h
    rw [hunderway] at sorted taken_le lt_made
    obtain ⟨hfirst, hrest⟩ := List.pairwise_cons.mp sorted
    refine ⟨hrest, fun j hj => ?_, fun j hj => ?_, ?_⟩
    · exact Nat.succ_le_succ (hfirst j hj)
    · exact lt_made j (List.mem_cons_of_mem _ hj)
    · exact lt_made i List.mem_cons_self

/-! ### Up to the last offer -/

/-- Where nothing is on the way, an offer that was announced was taken up. -/
theorem IsAnnounced.taken_eq (h : p.IsAnnounced) (hquiet : p.underway = []) : p.taken = p.made := by
  rcases h with h | h
  · rw [hquiet] at h
    exact absurd h (List.not_mem_nil)
  · exact h

theorem isAnnounced_post (h : p.made ≠ 0) : p.post.IsAnnounced := by
  left
  unfold post
  rw [if_neg h]
  simp

theorem IsAnnounced.post (h : p.IsAnnounced) : p.post.IsAnnounced := by
  unfold Progress.post
  split
  · exact h
  · exact h.imp_left fun h => List.mem_append_left _ h

theorem IsAnnounced.take (h : p.IsAnnounced) (horder : p.InOrder) : p.take.IsAnnounced := by
  unfold Progress.take
  split
  · exact h
  · rename_i i rest hunderway
    have hle := horder.taken_le i (hunderway ▸ List.mem_cons_self)
    have hlt := horder.lt_made i (hunderway ▸ List.mem_cons_self)
    unfold IsAnnounced at h ⊢
    rw [hunderway, List.mem_cons] at h
    dsimp only
    rcases h with (h | h) | h
    -- either the oldest message was about the last offer, or that was taken up long before
    · right
      omega
    · exact .inl h
    · right
      omega

/-! ### Calls in turn -/

theorem InOrder.step (h : p.InOrder) (c : Call) : (p.step x y c).InOrder := by
  unfold Progress.step
  split_ifs
  · exact h.offer
  · exact h.post
  · exact h.take
  · exact h

theorem made_step (p : Progress) (c : Call) : (p.step x y c).made =
    p.made + if c = .establishFromBundle x y then 1 else 0 := by
  unfold step
  split_ifs
  · rfl
  · unfold post
    split_ifs <;> rfl
  · unfold take
    split <;> rfl
  · rfl

theorem made_run (p : Progress) (calls : List Call) :
    (p.run x y calls).made = p.made + calls.count (.establishFromBundle x y) := by
  induction calls generalizing p with
  | nil => rfl
  | cons c calls ih =>
    rw [run, List.foldl_cons, ← run, ih, made_step, List.count_cons]
    simp only [beq_iff_eq]
    omega

theorem InOrder.run (h : p.InOrder) (calls : List Call) : (p.run x y calls).InOrder := by
  induction calls generalizing p with
  | nil => exact h
  | cons c calls ih => exact ih (h.step c)

/-- An offer stays announced while no other is made. -/
theorem IsAnnounced.step (h : p.IsAnnounced) (horder : p.InOrder) {c : Call}
    (hc : c ≠ .establishFromBundle x y) : (p.step x y c).IsAnnounced := by
  unfold Progress.step
  rw [if_neg hc]
  split
  · exact IsAnnounced.post h
  · split
    · exact IsAnnounced.take h horder
    · exact h

/-- The last offer is announced once a message is sent after it. -/
theorem isAnnounced_run (calls : List Call) (horder : p.InOrder) (hmade : p.made ≠ 0)
    (hcalls : .establishFromBundle x y ∉ calls)
    (h : p.IsAnnounced ∨ .sendFirstMessage x y ∈ calls) : (p.run x y calls).IsAnnounced := by
  -- the call that announces the offer comes first, or later, or is behind already
  induction calls generalizing p with
  | nil => exact h.resolve_right (List.not_mem_nil)
  | cons c calls ih =>
    rw [List.mem_cons, not_or] at hcalls
    obtain ⟨hc, hrest⟩ := hcalls
    have hmade' : (p.step x y c).made ≠ 0 := by
      rw [made_step]
      omega
    refine ih (horder.step c) hmade' hrest ?_
    rcases h with h | h
    · exact .inl (h.step horder (Ne.symm hc))
    · rcases List.mem_cons.mp h with rfl | h
      · left
        show (p.step x y (.sendFirstMessage x y)).IsAnnounced
        unfold Progress.step
        rw [if_neg (Ne.symm hc), if_pos rfl]
        exact isAnnounced_post hmade
      · exact .inr h

theorem isAnnounced_of_sent (horder : p.InOrder) (before : List Call) {after : List Call}
    (hlast : .establishFromBundle x y ∉ after) (hsent : .sendFirstMessage x y ∈ after) :
    (p.run x y (before ++ .establishFromBundle x y :: after)).IsAnnounced := by
  have hrun : p.run x y (before ++ .establishFromBundle x y :: after) =
      ((p.run x y before).step x y (.establishFromBundle x y)).run x y after := by
    unfold run
    rw [List.foldl_append, List.foldl_cons]
  rw [hrun]
  refine isAnnounced_run after ((horder.run before).step _) ?_ hlast (.inr hsent)
  rw [made_step, if_pos rfl]
  omega

end Progress

end World

end SecureSession
