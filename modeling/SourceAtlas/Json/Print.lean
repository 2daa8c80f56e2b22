import SourceAtlas.Decimal.Shortest
import SourceAtlas.Json.Basic
import SourceAtlas.Text.Basic

/-!
# Writing JSON text

Two forms: compact, without any blanks, and pretty, with one item a line and two blanks a level.
-/

namespace SourceAtlas.Json

/-! ### Numbers -/

/-- How a floating point number is written. -/
structure RealFormat where
  /-- Numbers below `10 ^ minScale` are written with an exponent. -/
  minScale : Int
  /-- Numbers from `10 ^ maxScale` on are written with an exponent. -/
  maxScale : Int
  /-- The sign of an exponent above zero. -/
  plus : String

/--
Positional from `0.00001` up to, not including, `10 ^ 16`, with `.0` after an integer; elsewhere
with a signed exponent.
-/
def realFormat : RealFormat := ⟨-5, 16, "+"⟩

/-- `n` zeros. -/
def zeros (n : Nat) : String :=
  String.ofList (List.replicate n '0')

/-- The text of an exponent. -/
def exponentText (format : RealFormat) (e : Int) : String :=
  if e < 0 then "e-" ++ Text.ofNat e.natAbs else "e" ++ format.plus ++ Text.ofNat e.natAbs

/-- The text of the decimal `0.d₁d₂… * 10 ^ scale`. -/
def decimalText (format : RealFormat) (d : Binary64.Decimal) : String :=
  let digits := Nat.toDigits 10 d.digits
  let n : Int := digits.length
  let text := String.ofList digits
  if format.minScale < d.scale && d.scale ≤ format.maxScale then
    if n ≤ d.scale then text ++ zeros (d.scale - n).toNat ++ ".0"
    else if 0 < d.scale then
      String.ofList (digits.take d.scale.toNat) ++ "." ++ String.ofList (digits.drop d.scale.toNat)
    else "0." ++ zeros (-d.scale).toNat ++ text
  else
    let mantissa :=
      if n == 1 then text else String.ofList (digits.take 1) ++ "." ++ String.ofList (digits.drop 1)
    mantissa ++ exponentText format (d.scale - 1)

/-- The text of a floating point number: the fewest digits that read back. -/
def realText (x : Binary64) : String :=
  let body := if x.isZero then "0.0" else decimalText realFormat x.shortest
  if x.negative then "-" ++ body else body

def numberText : Number → String
  | .int i => if i < 0 then "-" ++ Text.ofNat i.natAbs else Text.ofNat i.natAbs
  | .real x => realText x

/-! ### Strings -/

/-- A hexadecimal digit in small letters. -/
def hexChar (n : Nat) : Char :=
  if n < 10 then Char.ofNat (48 + n) else Char.ofNat (87 + n)

/-- A character as it stands in a string: quotes, backslashes and control characters escaped. -/
def escapeChar (c : Char) : List Char :=
  if c == '"' then ['\\', '"']
  else if c == '\\' then ['\\', '\\']
  else if c == '\x08' then ['\\', 'b']
  else if c == '\x0c' then ['\\', 'f']
  else if c == '\n' then ['\\', 'n']
  else if c == '\r' then ['\\', 'r']
  else if c == '\t' then ['\\', 't']
  else if c.toNat < 0x20 then
    ['\\', 'u', '0', '0', hexChar (c.toNat / 16), hexChar (c.toNat % 16)]
  else [c]

def stringText (s : String) : List Char :=
  '"' :: s.toList.flatMap escapeChar ++ ['"']

/-! ### Values -/

mutual

/-- The compact text of a value. -/
def compactChars : Json → List Char
  | .null => "null".toList
  | .bool true => "true".toList
  | .bool false => "false".toList
  | .num n => (numberText n).toList
  | .str s => stringText s
  | .arr items => '[' :: compactItems items
  | .obj members => '\x7b' :: compactMembers members

/-- The items of an array with the closing bracket. -/
def compactItems : List Json → List Char
  | [] => [']']
  | [v] => compactChars v ++ [']']
  | v :: rest => compactChars v ++ ',' :: compactItems rest

/-- The members of an object with the closing brace. -/
def compactMembers : List (String × Json) → List Char
  | [] => ['\x7d']
  | [(key, v)] => stringText key ++ ':' :: compactChars v ++ ['\x7d']
  | (key, v) :: rest => stringText key ++ ':' :: compactChars v ++ ',' :: compactMembers rest

end

/-- A line break and the blanks of a level. -/
def newline (level : Nat) : List Char :=
  '\n' :: List.replicate (2 * level) ' '

mutual

/-- The pretty text of a value that stands at a level. -/
def prettyChars (level : Nat) : Json → List Char
  | .arr [] => ['[', ']']
  | .arr items => '[' :: prettyItems (level + 1) items
  | .obj [] => ['\x7b', '\x7d']
  | .obj members => '\x7b' :: prettyMembers (level + 1) members
  | .null => "null".toList
  | .bool true => "true".toList
  | .bool false => "false".toList
  | .num n => (numberText n).toList
  | .str s => stringText s

/-- The items of an array, each on a line of its own, with the closing bracket. -/
def prettyItems (level : Nat) : List Json → List Char
  | [] => [']']
  | [v] => newline level ++ prettyChars level v ++ newline (level - 1) ++ [']']
  | v :: rest => newline level ++ prettyChars level v ++ ',' :: prettyItems level rest

/-- The members of an object, each on a line of its own, with the closing brace. -/
def prettyMembers (level : Nat) : List (String × Json) → List Char
  | [] => ['\x7d']
  | [(key, v)] =>
    newline level ++ stringText key ++ ':' :: ' ' :: prettyChars level v
      ++ newline (level - 1) ++ ['\x7d']
  | (key, v) :: rest =>
    newline level ++ stringText key ++ ':' :: ' ' :: prettyChars level v
      ++ ',' :: prettyMembers level rest

end

/-- The text of a value on one line. -/
def compact (v : Json) : String :=
  String.ofList (compactChars v)

/-- The text of a value over several lines. -/
def pretty (v : Json) : String :=
  String.ofList (prettyChars 0 v)

end SourceAtlas.Json
