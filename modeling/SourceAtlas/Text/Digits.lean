import SourceAtlas.Text.CharClass
import SourceAtlas.Text.Chars

/-!
# Digits

The values of digits and of the numbers that they write.
-/

namespace SourceAtlas.Text

/-- The value of a hexadecimal digit. -/
def hexDigit? (c : Char) : Option Nat :=
  if '0' ≤ c && c ≤ '9' then some (c.toNat - 48)
  else if 'a' ≤ c && c ≤ 'f' then some (c.toNat - 87)
  else if 'A' ≤ c && c ≤ 'F' then some (c.toNat - 55)
  else none

/-- The value of a digit, zero for any other character. -/
def digitValue (c : Char) : Nat :=
  (hexDigit? c).getD 0

/-- Whether a character is a digit of a base up to sixteen. -/
def isDigitOf (base : Nat) (c : Char) : Bool :=
  (hexDigit? c).any (· < base)

/-- The number that digits write in a base. -/
def natOf (base : Nat) (digits : List Char) : Nat :=
  digits.foldl (fun n c => n * base + digitValue c) 0

/-- The greatest unsigned integer of 64 bits. -/
def maxUnsigned : Nat := 0xFFFFFFFFFFFFFFFF

/-- The greatest signed integer of 64 bits. -/
def maxSigned : Nat := 0x7FFFFFFFFFFFFFFF

/-- Reads an unsigned integer of 64 bits: digits, after a plus sign or not. -/
def unsigned? (s : String) : Option Nat :=
  let digits := (Chars.stripPrefix? ['+'] s.toList).getD s.toList
  if digits.isEmpty || !digits.all isAsciiDigit then none
  else
    let n := natOf 10 digits
    if n ≤ maxUnsigned then some n else none

end SourceAtlas.Text
