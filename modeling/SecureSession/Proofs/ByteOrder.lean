import Mathlib.Algebra.Order.Ring.Nat
import SecureSession.Bytes

/-! # Numbers as bytes

A number that fits a width is read back from its bytes, in either byte order. -/

namespace SecureSession.Bytes

/-- Least significant byte first, a number that fits the width is read back. -/
theorem toNatLE_ofNatLE : ∀ {width n : Nat}, n < 256 ^ width → toNatLE (ofNatLE width n) = n
  | 0, n, h => by simp [toNatLE, ofNatLE]; omega
  | width + 1, n, h => by
    have hd : n / 256 < 256 ^ width := by
      rw [Nat.div_lt_iff_lt_mul (by decide)]; rwa [Nat.pow_succ] at h
    simp only [ofNatLE, toNatLE, toNatLE_ofNatLE hd, UInt8.toNat_ofNat']
    omega

/-- Most significant byte first, a number that fits the width is read back: both orders hold the
same bytes, one the reverse of the other. -/
theorem toNatBE_ofNatBE {width n : Nat} (h : n < 256 ^ width) : toNatBE (ofNatBE width n) = n := by
  rw [ofNatBE, toNatBE_reverse, toNatLE_ofNatLE h]

end SecureSession.Bytes
