/-! # Byte strings

Byte strings are lists of bytes. Numbers go in and out of them in either byte order, and hexadecimal
text shows them. -/

namespace SecureSession

/-- A string of bytes. -/
abbrev Bytes := List UInt8

namespace Bytes

/-! ### Numbers -/

/-- The number whose bytes are given, least significant first. -/
def toNatLE : Bytes → Nat
  | [] => 0
  | b :: rest => b.toNat + 256 * toNatLE rest

/-- The number whose bytes are given, most significant first. -/
def toNatBE (bytes : Bytes) : Nat := bytes.foldl (fun n b => 256 * n + b.toNat) 0

/-- The lowest `width` bytes of a number, least significant first. -/
def ofNatLE : (width n : Nat) → Bytes
  | 0, _ => []
  | width + 1, n => UInt8.ofNat n :: ofNatLE width (n / 256)

/-- The lowest `width` bytes of a number, most significant first. -/
def ofNatBE (width n : Nat) : Bytes := (ofNatLE width n).reverse

@[simp] theorem length_ofNatLE : ∀ width n, (ofNatLE width n).length = width
  | 0, _ => rfl
  | width + 1, n => by simp [ofNatLE, length_ofNatLE width]

@[simp] theorem length_ofNatBE (width n : Nat) : (ofNatBE width n).length = width := by
  simp [ofNatBE]

/-- The reading order of reversed bytes is the other byte order. -/
theorem toNatBE_reverse (bytes : Bytes) : toNatBE bytes.reverse = toNatLE bytes := by
  induction bytes with
  | nil => rfl
  | cons b rest ih =>
    simp only [toNatBE, List.reverse_cons, List.foldl_append, List.foldl_cons,
      List.foldl_nil] at ih ⊢
    rw [ih, toNatLE]; omega

/-! ### Text -/

/-- The UTF-8 encoding of a text. -/
def ofString (s : String) : Bytes := s.toUTF8.data.toList

/-- The lowercase hexadecimal digit of a number below sixteen. -/
def hexDigit (n : Nat) : Char := "0123456789abcdef".toList.getD n '0'

/-- Two lowercase hexadecimal digits per byte. -/
def hex (bytes : Bytes) : String :=
  String.ofList (bytes.flatMap fun b => [hexDigit (b.toNat / 16), hexDigit (b.toNat % 16)])

/-- The value of a hexadecimal digit in either case. -/
def hexValue? (c : Char) : Option Nat :=
  if '0' ≤ c ∧ c ≤ '9' then some (c.toNat - '0'.toNat)
  else if 'a' ≤ c ∧ c ≤ 'f' then some (c.toNat - 'a'.toNat + 10)
  else if 'A' ≤ c ∧ c ≤ 'F' then some (c.toNat - 'A'.toNat + 10)
  else none

/-- The bytes of which the characters are the hexadecimal digits. -/
def ofHexDigits? : List Char → Option Bytes
  | [] => some []
  | [_] => none
  | high :: low :: rest => do
    let high ← hexValue? high
    let low ← hexValue? low
    return UInt8.ofNat (16 * high + low) :: (← ofHexDigits? rest)

/-- The bytes a hexadecimal text shows. -/
def ofHex? (s : String) : Option Bytes := ofHexDigits? s.toList

/-! ### Length -/

/-- Whether there are at least `n` bytes; stops looking after `n`. -/
def hasLength (n : Nat) (bytes : Bytes) : Bool := n == 0 || !(bytes.drop (n - 1)).isEmpty

theorem hasLength_iff {n : Nat} {bytes : Bytes} : hasLength n bytes = true ↔ n ≤ bytes.length := by
  cases n with
  | zero => simp [hasLength]
  | succ n =>
    rw [hasLength, Bool.or_eq_true, Bool.not_eq_true', ← Bool.not_eq_true, List.isEmpty_iff,
      List.drop_eq_nil_iff, Nat.not_le, beq_iff_eq]
    omega

end Bytes

end SecureSession
