import Mathlib.Algebra.Ring.Parity
import Mathlib.Tactic.Ring
import SecureSession.Proofs.Agreement
import SecureSession.Proofs.ByteOrder

/-! # Agreement on powers of three

The Diffie–Hellman function of the powers of three modulo `2 ^ 256`. It can be computed, and has the
laws that agreement on a ratchet rests on. -/

namespace SecureSession

theorem Bytes.toNatLE_lt : ∀ bytes : Bytes, toNatLE bytes < 256 ^ bytes.length
  | [] => by simp [toNatLE]
  | b :: rest => by
    have hrest := toNatLE_lt rest
    have hb := b.toNat_lt
    rw [toNatLE, List.length_cons, Nat.pow_succ]
    omega

/-- The first byte is what the number leaves modulo 256. -/
theorem Bytes.toNatLE_mod (bytes : Bytes) : toNatLE bytes % 256 = (bytes.headD 0).toNat := by
  cases bytes with
  | nil => rfl
  | cons b rest =>
    have hb := b.toNat_lt
    rw [toNatLE, List.headD_cons]
    omega

namespace Modular

/-! ### Powers -/

/-- What numbers are taken modulo. -/
def modulus : Nat := 2 ^ 256

/-- The power of a base to an exponent of so many bits, by squaring. -/
def power : (bits : Nat) → (b e : Nat) → Nat
  | 0, _, _ => 1
  | bits + 1, b, e =>
    power bits (b * b % modulus) (e / 2) * (if e % 2 = 1 then b else 1) % modulus

theorem power_eq : ∀ {bits : Nat} (b : Nat) {e : Nat}, e < 2 ^ bits →
    power bits b e = b ^ e % modulus
  | 0, b, e, h => by
    obtain rfl : e = 0 := by omega
    rfl
  | bits + 1, b, e, h => by
    have hhalf : e / 2 < 2 ^ bits := by omega
    have hsquare : (b * b) ^ (e / 2) = b ^ (2 * (e / 2)) := by rw [pow_mul, sq]
    rw [power, power_eq _ hhalf, ← Nat.pow_mod, Nat.mod_mul_mod, hsquare]
    split
    · rename_i hodd
      rw [← pow_succ, show 2 * (e / 2) + 1 = e by omega]
    · rw [mul_one, show 2 * (e / 2) = e by omega]

theorem pow_ne_zero (n : Nat) : 3 ^ n % modulus ≠ 0 := by
  intro h
  have hodd : Odd (3 ^ n) := (by decide : Odd 3).pow
  have heven : Even (3 ^ n) :=
    ((by decide : Even 2).trans_dvd (dvd_pow_self 2 (by decide))).trans_dvd
      (Nat.dvd_of_mod_eq_zero h)
  exact absurd heven (Nat.not_even_iff_odd.mpr hodd)

/-! ### Keys -/

/-- The number that a key stands for. -/
def number (k : Key) : Nat := Bytes.toNatLE k.bytes

/-- The key of a number. -/
def key (n : Nat) : Key := ⟨Bytes.ofNatLE 32 n, Bytes.length_ofNatLE 32 n⟩

theorem number_lt (k : Key) : number k < 2 ^ 256 := by
  have h := Bytes.toNatLE_lt k.bytes
  rwa [k.length_bytes] at h

theorem number_key {n : Nat} (h : n < 2 ^ 256) : number (key n) = n := Bytes.toNatLE_ofNatLE h

end Modular

open SecureSession.Modular

/-! ### The function -/

/-- Diffie–Hellman on the powers of three. -/
def DiffieHellman.modular : DiffieHellman where
  publicKey s := ⟨key (power 256 3 (number s.key))⟩
  sharedSecret s k := key (power 256 (number k.key) (number s.key))

namespace DiffieHellman

theorem number_publicKey (s : SecretKey) :
    number (modular.publicKey s).key = 3 ^ number s.key % modulus := by
  have hlt : 3 ^ number s.key % modulus < 2 ^ 256 := Nat.mod_lt _ (by decide)
  simp only [modular]
  rw [power_eq 3 (number_lt s.key), number_key hlt]

theorem sharedSecret_modular (s t : SecretKey) :
    modular.sharedSecret s (modular.publicKey t) =
      key (3 ^ (number t.key * number s.key) % modulus) := by
  have hshared : modular.sharedSecret s (modular.publicKey t) =
      key (power 256 (number (modular.publicKey t).key) (number s.key)) := rfl
  rw [hshared, power_eq _ (number_lt s.key), number_publicKey, ← Nat.pow_mod, ← pow_mul]

theorem commutative_modular : modular.Commutative := by
  intro s t
  rw [sharedSecret_modular, sharedSecret_modular, mul_comm]

theorem contributory_modular : modular.Contributory := by
  intro s t h
  have hlt : 3 ^ (number t.key * number s.key) % modulus < 2 ^ 256 := Nat.mod_lt _ (by decide)
  refine pow_ne_zero (number t.key * number s.key) ?_
  rw [← number_key hlt, ← sharedSecret_modular, h]
  rfl

/-- What a secret leaves of its public key: the power of three that its first byte
stands for, modulo 256. -/
def residue (s : SecretKey) : Nat := 3 ^ ((s.key.bytes.headD 0).toNat % 64) % 256

theorem number_publicKey_mod (s : SecretKey) :
    number (modular.publicKey s).key % 256 = residue s := by
  have hdvd : 256 ∣ modulus := ⟨2 ^ 248, by decide⟩
  have hcycle : 3 ^ number s.key % 256 = 3 ^ (number s.key % 64) % 256 := by
    conv_lhs => rw [← Nat.div_add_mod (number s.key) 64, pow_add, pow_mul, Nat.mul_mod, Nat.pow_mod]
    norm_num
  have hbyte : number s.key % 64 = (s.key.bytes.headD 0).toNat % 64 := by
    rw [← Bytes.toNatLE_mod, Nat.mod_mod_of_dvd _ (by decide : 64 ∣ 256)]
    rfl
  rw [number_publicKey, Nat.mod_mod_of_dvd _ hdvd, hcycle, hbyte, residue]

end DiffieHellman

/-- Triple agreement on the powers of three. -/
abbrev Suite.modular : Suite := .tripleAgreement .modular

theorem Suite.completes_modular : modular.Completes :=
  completes_tripleAgreement DiffieHellman.contributory_modular

/-- Pairs whose secrets leave different residues have different public keys. -/
theorem KeyPair.publicKey_ne_of_residue {p q : KeyPair} (hp : Suite.modular.Owns p)
    (hq : Suite.modular.Owns q)
    (h : DiffieHellman.residue p.secretKey ≠ DiffieHellman.residue q.secretKey) :
    p.publicKey ≠ q.publicKey := by
  intro heq
  rw [hp, hq] at heq
  refine h ?_
  rw [← DiffieHellman.number_publicKey_mod, ← DiffieHellman.number_publicKey_mod]
  exact congrArg (fun k : PublicKey => number k.key % 256) heq

/-- Pairs whose secrets leave distinct residues have distinct public keys. -/
theorem KeyPair.nodup_publicKey {l : List KeyPair} (hl : ∀ k ∈ l, Suite.modular.Owns k)
    (h : (l.map fun k => DiffieHellman.residue k.secretKey).Nodup) :
    (l.map KeyPair.publicKey).Nodup :=
  List.pairwise_map.mpr <| (List.pairwise_map.mp h).imp_of_mem fun hp hq hne =>
    publicKey_ne_of_residue (hl _ hp) (hl _ hq) hne

end SecureSession
