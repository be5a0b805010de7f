import SecureSession.Bytes

/-! # Well-formed UTF-8

Which byte strings are texts. `unread` drops whole characters from the front, so what it leaves
starts where the text stops being well formed. -/

namespace SecureSession.Utf8

/-- Whether a byte continues a character. -/
def isTail (b : UInt8) : Bool := 0x80 ≤ b && b ≤ 0xbf

/-- Whether two bytes start a character of three bytes: neither overlong nor a surrogate. -/
def isLead3 (a b : UInt8) : Bool :=
  (a == 0xe0 && 0xa0 ≤ b && b ≤ 0xbf) || (0xe1 ≤ a && a ≤ 0xec && isTail b) ||
    (a == 0xed && 0x80 ≤ b && b ≤ 0x9f) || (0xee ≤ a && a ≤ 0xef && isTail b)

/-- Whether two bytes start a character of four bytes: neither overlong nor above U+10FFFF. -/
def isLead4 (a b : UInt8) : Bool :=
  (a == 0xf0 && 0x90 ≤ b && b ≤ 0xbf) || (0xf1 ≤ a && a ≤ 0xf3 && isTail b) ||
    (a == 0xf4 && 0x80 ≤ b && b ≤ 0x8f)

/-- What follows the longest well-formed prefix that ends with a whole character. -/
def unread : Bytes → Bytes
  | [] => []
  | a :: rest =>
    if a < 0x80 then unread rest
    else
      match rest with
      | [] => [a]
      | b :: rest2 =>
        if 0xc2 ≤ a && a ≤ 0xdf && isTail b then unread rest2
        else
          match rest2 with
          | [] => [a, b]
          | c :: rest3 =>
            if isLead3 a b && isTail c then unread rest3
            else
              match rest3 with
              | [] => [a, b, c]
              | d :: rest4 =>
                if isLead4 a b && isTail c && isTail d then unread rest4
                  else a :: b :: c :: d :: rest4

/-- Whether a byte string is a text. -/
def isValid (bytes : Bytes) : Bool := (unread bytes).isEmpty

end SecureSession.Utf8
