import SecureSession.Ratchet

/-! # Agreement on a ratchet

Two parties that hold each other's public keys, all made from secrets, start mirrored ratchets. The
laws of the Diffie–Hellman function this rests on are `DiffieHellman.Contributory`, for a ratchet to
start at all, and `DiffieHellman.Commutative`, for the two to be the same. -/

namespace SecureSession

/-! ### Laws -/

namespace DiffieHellman

/-- No secret is shared with the holder of another secret as zeros. -/
def Contributory (dh : DiffieHellman) : Prop :=
  ∀ s t, dh.sharedSecret s (dh.publicKey t) ≠ .replicate 0

/-- The holders of two secrets share one secret. -/
def Commutative (dh : DiffieHellman) : Prop :=
  ∀ s t, dh.sharedSecret s (dh.publicKey t) = dh.sharedSecret t (dh.publicKey s)

end DiffieHellman

namespace Suite

/-- Whether a key is the public key of some secret. -/
def IsPublic (suite : Suite) (k : PublicKey) : Prop := ∃ s, k = suite.publicKey s

/-- Whether the public key of a pair goes with its secret. -/
def Owns (suite : Suite) (pair : KeyPair) : Prop := pair.publicKey = suite.publicKey pair.secretKey

theorem owns_keyPair (suite : Suite) (s : SecretKey) : suite.Owns (suite.keyPair s) := rfl

theorem Owns.isPublic {suite : Suite} {pair : KeyPair} (h : suite.Owns pair) :
    suite.IsPublic pair.publicKey := ⟨_, h⟩

end Suite

/-! ### Agreement of two pairs -/

section Pairs
variable {dh : DiffieHellman}

theorem KeyPair.agree_eq_ok (h : dh.Contributory) (pair : KeyPair) {k : PublicKey}
    (hk : (Suite.tripleAgreement dh).IsPublic k) :
    pair.agree dh k = .ok (dh.sharedSecret pair.secretKey k) := by
  obtain ⟨s, rfl⟩ := hk
  exact if_neg (h pair.secretKey s)

theorem KeyPair.agree_comm (h : dh.Commutative) {p q : KeyPair}
    (hp : (Suite.tripleAgreement dh).Owns p) (hq : (Suite.tripleAgreement dh).Owns q) :
    p.agree dh q.publicKey = q.agree dh p.publicKey := by
  have hshared : dh.sharedSecret p.secretKey q.publicKey =
      dh.sharedSecret q.secretKey p.publicKey := by
    rw [hp, hq]
    exact h _ _
  rw [KeyPair.agree, KeyPair.agree, hshared]

/-- Of two keys exactly one is the lower. -/
theorem Key.lt_of_ne {a b : Key} (h : a ≠ b) : b.lt a = !a.lt b := by
  have hne : a.bytes ≠ b.bytes := fun he => h (by cases a; cases b; congr)
  rw [Key.lt, Key.lt]
  rcases Std.lt_trichotomy a.bytes b.bytes with hlt | heq | hlt
  · simp [hlt, List.lt_asymm hlt]
  · exact absurd heq hne
  · simp [hlt, List.lt_asymm hlt]

end Pairs

/-! ### Both ends of a ratchet -/

theorem RatchetState.mirrors_iff {r s : RatchetState} : r.mirrors s = true ↔
    (r.rootKey = s.rootKey ∧ r.sendingChain = s.receivingChain ∧
      r.receivingChain = s.sendingChain) ∧ r.localKey = s.remoteKey ∧ r.remoteKey = s.localKey := by
  simp only [mirrors, sharesChains, decide_eq_true_iff]

namespace RatchetParameters

/-- Whether the peer's keys are public keys of secrets. -/
structure IsSound (suite : Suite) (q : RatchetParameters) : Prop where
  base : suite.IsPublic q.theirBase
  ephemeral : suite.IsPublic q.theirEphemeral
  identity : suite.IsPublic q.theirIdentity

/-- Whether each of two parties holds the public keys of the other, and its own pairs are made from
secrets. The base keys differ, so one is the lower. -/
structure Face (suite : Suite) (q q' : RatchetParameters) : Prop where
  ownsBase : suite.Owns q.ourBase
  ownsEphemeral : suite.Owns q.ourEphemeral
  ownsIdentity : suite.Owns q.ourIdentity
  theirBase : q'.theirBase = q.ourBase.publicKey
  theirEphemeral : q'.theirEphemeral = q.ourEphemeral.publicKey
  theirIdentity : q'.theirIdentity = q.ourIdentity.publicKey
  distinct : q.ourBase.publicKey ≠ q.theirBase

section Initial
variable {dh : DiffieHellman} {q q' : RatchetParameters}

theorem material_eq_ok (h : dh.Contributory) (hq : q.IsSound (.tripleAgreement dh)) :
    ∃ bytes, q.material dh = .ok bytes := by
  obtain ⟨hb, he, hi⟩ := hq
  cases hlow : q.isLow <;>
    simp [material, crossAgreements, hlow, KeyPair.agree_eq_ok h _ hb, KeyPair.agree_eq_ok h _ he,
      KeyPair.agree_eq_ok h _ hi, bind, Except.bind, pure, Except.pure]

theorem initialState_eq (q : RatchetParameters) (dh : DiffieHellman) :
    q.initialState dh = (q.material dh).map q.start := by
  unfold initialState
  cases q.material dh <;> rfl

theorem initialState_eq_ok_iff {r : RatchetState} :
    q.initialState dh = .ok r ↔ ∃ bytes, q.material dh = .ok bytes ∧ q.start bytes = r := by
  rw [initialState_eq]
  cases q.material dh <;> simp [Except.map]

theorem initialState_eq_ok (h : dh.Contributory) (hq : q.IsSound (.tripleAgreement dh)) :
    ∃ r, q.initialState dh = .ok r := by
  obtain ⟨bytes, hbytes⟩ := material_eq_ok h hq
  exact ⟨q.start bytes, initialState_eq_ok_iff.mpr ⟨bytes, hbytes, rfl⟩⟩

/-- A ratchet starts with the keys exchanged as its ratchet keys, and with something to send on. -/
theorem keys_of_initialState {r : RatchetState} (h : q.initialState dh = .ok r) :
    r.localKey = q.ourEphemeral.publicKey ∧ r.remoteKey = q.theirEphemeral ∧ r.canSend := by
  obtain ⟨bytes, -, rfl⟩ := initialState_eq_ok_iff.mp h
  exact ⟨rfl, rfl, rfl⟩

theorem isLow_of_face {suite : Suite} (h : q.Face suite q') (h' : q'.Face suite q) :
    q'.isLow = !q.isLow := by
  have hne : q.ourBase.publicKey.key ≠ q'.ourBase.publicKey.key := by
    intro he
    refine h.distinct ?_
    rw [h'.theirBase]
    cases hq : q.ourBase.publicKey; cases hq' : q'.ourBase.publicKey
    rw [hq, hq'] at he
    exact congrArg _ he
  rw [isLow, isLow, h.theirBase, h'.theirBase]
  exact Key.lt_of_ne hne

/-- Two parties that share the four secrets that their keys are derived from derive them from the
same material. -/
theorem material_of_agree (hlow : q'.isLow = !q.isLow)
    (hbase : q'.ourBase.agree dh q'.theirBase = q.ourBase.agree dh q.theirBase)
    (hephemeral : q'.ourEphemeral.agree dh q'.theirEphemeral =
      q.ourEphemeral.agree dh q.theirEphemeral)
    (hfirst : q'.ourBase.agree dh q'.theirIdentity = q.ourIdentity.agree dh q.theirBase)
    (hsecond : q'.ourIdentity.agree dh q'.theirBase = q.ourBase.agree dh q.theirIdentity) :
    q'.material dh = q.material dh := by
  rw [material, material, crossAgreements, crossAgreements, hlow, hbase, hephemeral,
    hfirst, hsecond]
  cases q.isLow <;> rfl

theorem material_of_face (hc : dh.Commutative) (h : q.Face (.tripleAgreement dh) q')
    (h' : q'.Face (.tripleAgreement dh) q) : q'.material dh = q.material dh := by
  refine material_of_agree (isLow_of_face h h') ?_ ?_ ?_ ?_
  · rw [h.theirBase, h'.theirBase]
    exact KeyPair.agree_comm hc h'.ownsBase h.ownsBase
  · rw [h.theirEphemeral, h'.theirEphemeral]
    exact KeyPair.agree_comm hc h'.ownsEphemeral h.ownsEphemeral
  · rw [h.theirIdentity, h'.theirBase]
    exact KeyPair.agree_comm hc h'.ownsBase h.ownsIdentity
  · rw [h.theirBase, h'.theirIdentity]
    exact KeyPair.agree_comm hc h'.ownsIdentity h.ownsBase

/-- What two parties make of one material mirrors. -/
theorem mirrors_start {bytes : Bytes} (hlow : q'.isLow = !q.isLow)
    (hlocal : q.ourEphemeral.publicKey = q'.theirEphemeral)
    (hremote : q.theirEphemeral = q'.ourEphemeral.publicKey) :
    (q.start bytes).mirrors (q'.start bytes) = true := by
  rw [RatchetState.mirrors_iff]
  simp only [start, hlow]
  refine ⟨⟨trivial, ?_, ?_⟩, hlocal, hremote⟩
  · cases q.isLow <;> simp
  · cases q.isLow <;> simp

/-- Two parties that hold each other's keys start mirrored ratchets. -/
theorem mirrors_of_face (hc : dh.Commutative) (h : q.Face (.tripleAgreement dh) q')
    (h' : q'.Face (.tripleAgreement dh) q) {r r' : RatchetState} (hr : q.initialState dh = .ok r)
    (hr' : q'.initialState dh = .ok r') : r.mirrors r' = true := by
  obtain ⟨bytes, hbytes, rfl⟩ := initialState_eq_ok_iff.mp hr
  obtain ⟨bytes', hbytes', rfl⟩ := initialState_eq_ok_iff.mp hr'
  have hsame : bytes' = bytes :=
    Except.ok.inj (hbytes'.symm.trans ((material_of_face hc h h').trans hbytes))
  rw [hsame]
  exact mirrors_start (isLow_of_face h h') h.theirEphemeral.symm h'.theirEphemeral

end Initial

end RatchetParameters

/-! ### Suites -/

namespace Suite

/-- Whether ratchets start from any keys made of secrets. -/
def Starts (suite : Suite) : Prop :=
  ∀ q, RatchetParameters.IsSound suite q → ∃ r, suite.initialState q = .ok r

/-- Whether ratchets start with the keys exchanged as ratchet keys. -/
def KeepsKeys (suite : Suite) : Prop := ∀ q r, suite.initialState q = .ok r →
  r.localKey = q.ourEphemeral.publicKey ∧ r.remoteKey = q.theirEphemeral ∧ r.canSend

/-- Whether two parties that hold each other's keys start mirrored ratchets. -/
def Agrees (suite : Suite) : Prop := ∀ q q' r r', RatchetParameters.Face suite q q' →
  RatchetParameters.Face suite q' q → suite.initialState q = .ok r →
    suite.initialState q' = .ok r' →
  r.mirrors r' = true

/-- What handshakes need of a suite, for their sessions to be made. -/
structure Completes (suite : Suite) : Prop where
  starts : suite.Starts
  keepsKeys : suite.KeepsKeys

/-- No ratchet fails to start from keys made of secrets, where ratchets start. -/
theorem not_starts {suite : Suite} {q : RatchetParameters} (hq : q.IsSound suite) {e : CryptoError}
    (h : suite.initialState q = .error e) : ¬suite.Starts := by
  intro hs
  obtain ⟨r, hr⟩ := hs q hq
  cases h.symm.trans hr

theorem starts_tripleAgreement {dh : DiffieHellman} (h : dh.Contributory) :
    (tripleAgreement dh).Starts := fun _ hq => RatchetParameters.initialState_eq_ok h hq

theorem keepsKeys_tripleAgreement (dh : DiffieHellman) : (tripleAgreement dh).KeepsKeys :=
  fun _ _ hr => RatchetParameters.keys_of_initialState hr

theorem completes_tripleAgreement {dh : DiffieHellman} (h : dh.Contributory) :
    (tripleAgreement dh).Completes := ⟨starts_tripleAgreement h, keepsKeys_tripleAgreement dh⟩

theorem agrees_tripleAgreement {dh : DiffieHellman} (h : dh.Commutative) :
    (tripleAgreement dh).Agrees :=
  fun _ _ _ _ hq hq' hr hr' => RatchetParameters.mirrors_of_face h hq hq' hr hr'

end Suite

end SecureSession
