import SecureSession.Bytes

/-! # X25519

Scalar multiplication on Curve25519 by the Montgomery ladder on u-coordinates, with numbers in place
of field elements. -/

namespace SecureSession.X25519

/-! ### The field -/

/-- The order of the field. -/
def p : Nat := (1 <<< 255) - 19

/-- The difference of two field elements. -/
def sub (a b : Nat) : Nat := (a + (p - b)) % p

/-- The product of two field elements. -/
def mul (a b : Nat) : Nat := a * b % p

/-- The square of a field element. -/
def square (a : Nat) : Nat := mul a a

/-- The bits of a number below `2 ^ n`, highest first. -/
def bits (n k : Nat) : List Bool := (List.range n).reverse.map k.testBit

/-- One step of a power by repeated squaring. -/
def powStep (a acc : Nat) (bit : Bool) : Nat :=
  if bit then mul (square acc) a else square acc

/-- The inverse of a field element, and zero for zero. -/
def inv (a : Nat) : Nat := (bits 255 (p - 2)).foldl (powStep a) 1

/-! ### The ladder -/

/-- A point by the ratio `x / z` of its u-coordinate. -/
structure Point where
  x : Nat
  z : Nat

/-- Twice a point. -/
def Point.double (q : Point) : Point :=
  let a := square (q.x + q.z)
  let b := square (sub q.x q.z)
  let e := sub a b
  ⟨mul a b, mul e ((a + 121665 * e) % p)⟩

/-- The sum of two points whose difference has u-coordinate `u`. -/
def Point.add (u : Nat) (q r : Point) : Point :=
  let s := mul (sub r.x r.z) (q.x + q.z)
  let t := mul (r.x + r.z) (sub q.x q.z)
  ⟨square (s + t), mul u (square (sub s t))⟩

/-- One step of the ladder; the second point stays ahead of the first by the base point. -/
def ladderStep (u : Nat) (qr : Point × Point) (bit : Bool) : Point × Point :=
  if bit then (qr.1.add u qr.2, qr.2.double) else (qr.1.double, qr.1.add u qr.2)

/-- The u-coordinate of the `k`-th multiple of the point at `u`. -/
def ladder (k u : Nat) : Nat :=
  let q := ((bits 255 k).foldl (ladderStep u) (⟨1, 0⟩, ⟨u, 1⟩)).1
  mul q.x (inv q.z)

/-! ### Byte strings -/

/-- The scalar of a secret: a multiple of eight with bit 254 as its highest. -/
def scalar (secret : Bytes) : Nat :=
  let k := Bytes.toNatLE secret % (1 <<< 254)
  (1 <<< 254) + (k - k % 8)

/-- The u-coordinate a public key stands for; the highest bit is ignored. -/
def coordinate (key : Bytes) : Nat := Bytes.toNatLE key % (1 <<< 255) % p

/-- The u-coordinate of the generator. -/
def basePoint : Nat := 9

/-- The multiple by `secret` of the point at `u`, thirty-two bytes. -/
def multiply (secret : Bytes) (u : Nat) : Bytes := Bytes.ofNatLE 32 (ladder (scalar secret) u)

/-- The public key of a secret. -/
def publicKey (secret : Bytes) : Bytes := multiply secret basePoint

/-- The secret shared with the holder of a public key. -/
def sharedSecret (secret key : Bytes) : Bytes := multiply secret (coordinate key)

@[simp] theorem length_multiply (secret : Bytes) (u : Nat) : (multiply secret u).length = 32 := by
  simp [multiply]

end SecureSession.X25519
