import SecureSession.Proofs.Agreement
import SecureSession.Proofs.Cbor.Reading

/-! # Mirrored ratchets

The ratchets that two sides start from three secrets each. The side with the lower base key takes
its chains and lists the agreements across identities in one order, the other side in the reverse,
so where the agreements commute both derive the same three keys from the same bytes, or both refuse
the same secret of zeros. -/

namespace SecureSession

/-! ### Both sides -/

/-- Whether the holders of two secrets share the same with each other. -/
def DiffieHellman.Commutes (dh : DiffieHellman) (s t : SecretKey) : Prop :=
  dh.sharedSecret s (dh.publicKey t) = dh.sharedSecret t (dh.publicKey s)

instance (dh : DiffieHellman) (s t : SecretKey) : Decidable (dh.Commutes s t) :=
  inferInstanceAs (Decidable (_ = _))

/-- The secrets of one side of a handshake. -/
structure Secrets where
  base : SecretKey
  ephemeral : SecretKey
  identity : SecretKey
deriving DecidableEq

namespace Secrets

variable (dh : DiffieHellman)

/-- The keys of a handshake as one side holds them. -/
def view (ours theirs : Secrets) : RatchetParameters where
  ourBase := .ofSecret dh ours.base
  theirBase := dh.publicKey theirs.base
  ourEphemeral := .ofSecret dh ours.ephemeral
  theirEphemeral := dh.publicKey theirs.ephemeral
  ourIdentity := .ofSecret dh ours.identity
  theirIdentity := dh.publicKey theirs.identity

/-- Whether the agreements between two sides commute. -/
structure Commute (A B : Secrets) : Prop where
  base : dh.Commutes A.base B.base
  ephemeral : dh.Commutes A.ephemeral B.ephemeral
  baseIdentity : dh.Commutes A.base B.identity
  identityBase : dh.Commutes A.identity B.base

variable {dh} {A B : Secrets}

theorem face_view (h : dh.publicKey A.base ≠ dh.publicKey B.base) :
    (A.view dh B).Face (.tripleAgreement dh) (B.view dh A) := ⟨rfl, rfl, rfl, rfl, rfl, rfl, h⟩

theorem agree_comm {s t : SecretKey} (h : dh.Commutes s t) :
    (KeyPair.ofSecret dh t).agree dh (dh.publicKey s) =
      (KeyPair.ofSecret dh s).agree dh (dh.publicKey t) := by
  have hshared : dh.sharedSecret (KeyPair.ofSecret dh t).secretKey (dh.publicKey s) =
      dh.sharedSecret (KeyPair.ofSecret dh s).secretKey (dh.publicKey t) := h.symm
  rw [KeyPair.agree, KeyPair.agree, hshared]

/-- Both sides derive their keys from the same material. -/
theorem material_view (hc : A.Commute dh B) (hne : dh.publicKey A.base ≠ dh.publicKey B.base) :
    (B.view dh A).material dh = (A.view dh B).material dh :=
  RatchetParameters.material_of_agree
    (RatchetParameters.isLow_of_face (face_view hne) (face_view hne.symm))
    (agree_comm hc.base) (agree_comm hc.ephemeral) (agree_comm hc.identityBase)
    (agree_comm hc.baseIdentity)

end Secrets

/-! ### Secrets of zeros -/

namespace RatchetParameters

variable {dh : DiffieHellman} {q : RatchetParameters}

/-- The four secrets that a ratchet is derived from. -/
def sharedSecrets (dh : DiffieHellman) (q : RatchetParameters) : List Key :=
  [dh.sharedSecret q.ourBase.secretKey q.theirIdentity,
    dh.sharedSecret q.ourIdentity.secretKey q.theirBase,
    dh.sharedSecret q.ourBase.secretKey q.theirBase,
    dh.sharedSecret q.ourEphemeral.secretKey q.theirEphemeral]

theorem error_of_agree {pair : KeyPair} {k : PublicKey} {e : CryptoError}
    (h : pair.agree dh k = .error e) : e = .nonContributory := by
  unfold KeyPair.agree at h
  dsimp only at h
  split at h
  · exact (Except.error.inj h).symm
  · cases h

theorem agree_of_ne {pair : KeyPair} {k : PublicKey}
    (h : .replicate 0 ≠ dh.sharedSecret pair.secretKey k) :
    pair.agree dh k = .ok (dh.sharedSecret pair.secretKey k) := if_neg h.symm

theorem ne_of_agree {pair : KeyPair} {k : PublicKey} {shared : Key}
    (h : pair.agree dh k = .ok shared) : .replicate 0 ≠ dh.sharedSecret pair.secretKey k := by
  unfold KeyPair.agree at h
  dsimp only at h
  split at h
  · cases h
  · exact Ne.symm ‹_›

theorem material_of_notMem (h : .replicate 0 ∉ q.sharedSecrets dh) :
    ∃ bytes, q.material dh = .ok bytes := by
  simp only [sharedSecrets, List.mem_cons, List.not_mem_nil, or_false, not_or] at h
  obtain ⟨hidentity, hidentity', hbase, hephemeral⟩ := h
  simp only [material, crossAgreements, agree_of_ne hidentity, agree_of_ne hidentity',
    agree_of_ne hbase, agree_of_ne hephemeral]
  cases q.isLow <;> exact ⟨_, rfl⟩

theorem error_of_material {e : CryptoError} (h : q.material dh = .error e) :
    e = .nonContributory := by
  rcases bind_eq_error.mp h with h | ⟨⟨first, second⟩, -, h⟩
  · unfold crossAgreements at h
    split at h
    all_goals
      rcases bind_eq_error.mp h with h | ⟨_, -, h⟩
      · exact error_of_agree h
      · rcases bind_eq_error.mp h with h | ⟨_, -, h⟩
        · exact error_of_agree h
        · cases h
  · rcases bind_eq_error.mp h with h | ⟨base, -, h⟩
    · exact error_of_agree h
    · rcases bind_eq_error.mp h with h | ⟨ephemeral, -, h⟩
      · exact error_of_agree h
      · cases h

/-- Where a secret of zeros would be shared, nothing is derived. -/
theorem material_of_mem (h : .replicate 0 ∈ q.sharedSecrets dh) :
    q.material dh = .error .nonContributory := by
  cases hm : q.material dh with
  | error e => rw [error_of_material hm]
  | ok bytes =>
    refine absurd h ?_
    obtain ⟨⟨first, second⟩, hcross, hm⟩ := bind_eq_ok.mp hm
    obtain ⟨base, hbase, hm⟩ := bind_eq_ok.mp hm
    obtain ⟨ephemeral, hephemeral, -⟩ := bind_eq_ok.mp hm
    have hidentities : .replicate 0 ≠ dh.sharedSecret q.ourBase.secretKey q.theirIdentity ∧
        .replicate 0 ≠ dh.sharedSecret q.ourIdentity.secretKey q.theirBase := by
      unfold crossAgreements at hcross
      split at hcross
      · obtain ⟨_, hfirst, hcross⟩ := bind_eq_ok.mp hcross
        obtain ⟨_, hsecond, -⟩ := bind_eq_ok.mp hcross
        exact ⟨ne_of_agree hfirst, ne_of_agree hsecond⟩
      · obtain ⟨_, hfirst, hcross⟩ := bind_eq_ok.mp hcross
        obtain ⟨_, hsecond, -⟩ := bind_eq_ok.mp hcross
        exact ⟨ne_of_agree hsecond, ne_of_agree hfirst⟩
    simp only [sharedSecrets, List.mem_cons, List.not_mem_nil, or_false, not_or]
    exact ⟨hidentities.1, hidentities.2, ne_of_agree hbase, ne_of_agree hephemeral⟩

end RatchetParameters

/-! ### The result -/

/-- Two sides whose base keys differ and whose agreements commute both refuse the keys, where one of
the four secrets they would share is zeros, or both start a ratchet: with one root key, each sending
on the chain the other receives on, and each with its ratchet key known to the other. -/
theorem Secrets.initialStates_mirror (dh : DiffieHellman) (A B : Secrets) (hc : A.Commute dh B)
    (hne : dh.publicKey A.base ≠ dh.publicKey B.base) :
    (.replicate 0 ∈ (A.view dh B).sharedSecrets dh →
      (A.view dh B).initialState dh = .error .nonContributory ∧
        (B.view dh A).initialState dh = .error .nonContributory) ∧
    (.replicate 0 ∉ (A.view dh B).sharedSecrets dh →
      ∃ r r', (A.view dh B).initialState dh = .ok r ∧ (B.view dh A).initialState dh = .ok r' ∧
        r.rootKey = r'.rootKey ∧ r.sendingChain = r'.receivingChain ∧
        r.receivingChain = r'.sendingChain ∧
        r.localKey = r'.remoteKey ∧ r.remoteKey = r'.localKey) := by
  have hsame := material_view hc hne
  rw [RatchetParameters.initialState_eq, RatchetParameters.initialState_eq, hsame]
  refine ⟨fun hzero => ?_, fun hnonzero => ?_⟩
  · rw [RatchetParameters.material_of_mem hzero]
    exact ⟨rfl, rfl⟩
  · obtain ⟨bytes, hbytes⟩ := RatchetParameters.material_of_notMem hnonzero
    rw [hbytes]
    have hmirrors : ((A.view dh B).start bytes).mirrors ((B.view dh A).start bytes) = true :=
      RatchetParameters.mirrors_start
        (RatchetParameters.isLow_of_face (face_view hne) (face_view hne.symm)) rfl rfl
    obtain ⟨⟨hroot, hsending, hreceiving⟩, hlocal, hremote⟩ := RatchetState.mirrors_iff.mp hmirrors
    exact ⟨_, _, rfl, rfl, hroot, hsending, hreceiving, hlocal, hremote⟩

/-! ### On Curve25519 -/

namespace X25519

/-- A function of a number that is computed before the function is. -/
def computed {α : Type} (n : Nat) (f : Nat → α) : α :=
  match n with
  | 0 => f 0
  | n + 1 => f (n + 1)

theorem computed_eq {α : Type} (n : Nat) (f : Nat → α) : computed n f = f n := by cases n <;> rfl

/-- A power by repeated squaring that is a number after every step. -/
def power (a : Nat) : List Bool → Nat → Nat
  | [], acc => acc
  | bit :: rest, acc => computed (powStep a acc bit) (power a rest)

theorem power_eq (a : Nat) : ∀ (l : List Bool) (acc : Nat), power a l acc = l.foldl (powStep a) acc
  | [], _ => rfl
  | bit :: rest, acc => by rw [power, computed_eq, power_eq a rest, List.foldl_cons]

/-- What is left of a ladder, its two points numbers after every step. -/
def climb (u : Nat) : List Bool → (x z x' z' : Nat) → Nat
  | [], x, z, _, _ => computed z fun z => mul x (power z (bits 255 (p - 2)) 1)
  | bit :: rest, x, z, x', z' =>
    let s := ladderStep u (⟨x, z⟩, ⟨x', z'⟩) bit
    computed s.1.x fun x => computed s.1.z fun z => computed s.2.x fun x' =>
      computed s.2.z fun z' =>
      climb u rest x z x' z'

theorem climb_eq (u : Nat) : ∀ (l : List Bool) (q r : Point), climb u l q.x q.z r.x r.z =
    mul (l.foldl (ladderStep u) (q, r)).1.x (inv (l.foldl (ladderStep u) (q, r)).1.z)
  | [], q, r => by
    rw [climb, computed_eq, power_eq]
    rfl
  | bit :: rest, q, r => by
    simp only [climb, computed_eq]
    exact climb_eq u rest _ _

/-- Scalar multiplication by the computed ladder. -/
def climbed (secret : Bytes) (u : Nat) : Bytes := computed u fun u =>
  computed (climb u (bits 255 (scalar secret)) 1 0 u 1) (Bytes.ofNatLE 32)

theorem multiply_eq (secret : Bytes) (u : Nat) : multiply secret u = climbed secret u := by
  rw [climbed, computed_eq, computed_eq, multiply]
  exact congrArg _ (climb_eq u _ ⟨1, 0⟩ ⟨u, 1⟩).symm

theorem length_climbed (secret : Bytes) (u : Nat) : (climbed secret u).length = 32 := by
  rw [← multiply_eq, length_multiply]

end X25519

namespace DiffieHellman

/-- Diffie–Hellman on Curve25519 by the computed ladder. -/
def climbed : DiffieHellman where
  publicKey s := ⟨X25519.climbed s.key.bytes X25519.basePoint, X25519.length_climbed ..⟩
  sharedSecret s k :=
    ⟨X25519.climbed s.key.bytes (X25519.coordinate k.bytes), X25519.length_climbed ..⟩

theorem x25519_eq : x25519 = climbed := by
  simp only [x25519, climbed, X25519.publicKey, X25519.sharedSecret, X25519.multiply_eq]

end DiffieHellman

namespace Secrets

/-- The side that opens a session from a bundle. -/
def opener : Secrets := ⟨⟨.replicate 21⟩, ⟨.replicate 22⟩, ⟨.replicate 23⟩⟩

/-- The owner of the bundle, whose prekey is both its base and its ephemeral key. -/
def owner : Secrets := ⟨⟨.replicate 24⟩, ⟨.replicate 24⟩, ⟨.replicate 26⟩⟩

theorem commute_opener_owner : opener.Commute .x25519 owner := by
  have hall : DiffieHellman.x25519.Commutes opener.base owner.base ∧
      DiffieHellman.x25519.Commutes opener.ephemeral owner.ephemeral ∧
      DiffieHellman.x25519.Commutes opener.base owner.identity ∧
      DiffieHellman.x25519.Commutes opener.identity owner.base := by
    rw [DiffieHellman.x25519_eq]
    decide +kernel
  exact ⟨hall.1, hall.2.1, hall.2.2.1, hall.2.2.2⟩

/-- On Curve25519 the opener of a session from a bundle and the owner of the bundle
start mirrored ratchets. -/
theorem initialStates_mirror_bundle :
    ∃ r r', (opener.view .x25519 owner).initialState .x25519 = .ok r ∧
    (owner.view .x25519 opener).initialState .x25519 = .ok r' ∧
    r.rootKey = r'.rootKey ∧ r.sendingChain = r'.receivingChain ∧
    r.receivingChain = r'.sendingChain ∧ r.localKey = r'.remoteKey ∧ r.remoteKey = r'.localKey := by
  have hfacts : DiffieHellman.x25519.publicKey opener.base ≠
      DiffieHellman.x25519.publicKey owner.base ∧
      .replicate 0 ∉ (opener.view .x25519 owner).sharedSecrets .x25519 := by
    rw [DiffieHellman.x25519_eq]
    decide +kernel
  exact (initialStates_mirror .x25519 opener owner commute_opener_owner hfacts.1).2 hfacts.2

end Secrets

end SecureSession
