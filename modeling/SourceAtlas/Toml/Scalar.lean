import SourceAtlas.Calendar
import SourceAtlas.Decimal.Binary64
import SourceAtlas.Text.CharClass
import SourceAtlas.Text.Digits
import SourceAtlas.Toml.Basic

/-!
# Strings, numbers and dates of TOML

Readers on character lists. Each takes the text from where the value starts and gives the value with
the text after it, or nothing if the text is not such a value.
-/

namespace SourceAtlas.Toml

/-- A blank within a line. -/
def isBlank (c : Char) : Bool :=
  c == ' ' || c == '\t'

def skipBlank (cs : List Char) : List Char :=
  cs.dropWhile isBlank

/-- Whether a character may stand in a comment or a literal string: no control character but tab. -/
def isPrintable (c : Char) : Bool :=
  c == '\t' || (0x20 ≤ c.toNat && c.toNat != 0x7F)

/-! ### Strings -/

/-- The character that a one-letter escape stands for. -/
def shortEscape? : Char → Option Char
  | 'b' => some '\x08'
  | 't' => some '\t'
  | 'n' => some '\n'
  | 'f' => some '\x0c'
  | 'r' => some '\r'
  | '"' => some '"'
  | '\\' => some '\\'
  | _ => none

/-- The character with the code that hexadecimal digits write. -/
def scalar? (digits : List Char) : Option Char :=
  if digits.all (Text.isDigitOf 16) then
    let n := Text.natOf 16 digits
    if n.isValidChar then some (Char.ofNat n) else none
  else none

/-- Reads a basic string after its opening quote; `read` holds the characters so far, last first. -/
def readBasic (read : List Char) : List Char → Option (String × List Char)
  | '"' :: rest => some (String.ofList read.reverse, rest)
  | '\\' :: 'u' :: a :: b :: c :: d :: rest =>
    match scalar? [a, b, c, d] with
    | some x => readBasic (x :: read) rest
    | none => none
  | '\\' :: 'U' :: a :: b :: c :: d :: e :: f :: g :: h :: rest =>
    match scalar? [a, b, c, d, e, f, g, h] with
    | some x => readBasic (x :: read) rest
    | none => none
  | '\\' :: c :: rest =>
    match shortEscape? c with
    | some x => readBasic (x :: read) rest
    | none => none
  | c :: rest => if isPrintable c && c != '\\' then readBasic (c :: read) rest else none
  | [] => none

/-- Whether nothing but blanks stand before the end of the line. -/
def atLineEnd (cs : List Char) : Bool :=
  match skipBlank cs with
  | '\n' :: _ => true
  | '\r' :: '\n' :: _ => true
  | _ => false

/--
Reads a basic string of several lines. After a backslash at the end of a line, `skipping` is set and
blanks and line ends do not count. Up to two quotes may stand before the three closing ones.
-/
def readBasicLines (read : List Char) : Bool → List Char → Option (String × List Char)
  | _, '"' :: '"' :: '"' :: '"' :: '"' :: rest =>
    some (String.ofList ('"' :: '"' :: read).reverse, rest)
  | _, '"' :: '"' :: '"' :: '"' :: rest => some (String.ofList ('"' :: read).reverse, rest)
  | _, '"' :: '"' :: '"' :: rest => some (String.ofList read.reverse, rest)
  | skipping, '\r' :: '\n' :: rest =>
    readBasicLines (if skipping then read else '\n' :: read) skipping rest
  | skipping, '\n' :: rest => readBasicLines (if skipping then read else '\n' :: read) skipping rest
  | _, '\\' :: 'u' :: a :: b :: c :: d :: rest =>
    match scalar? [a, b, c, d] with
    | some x => readBasicLines (x :: read) false rest
    | none => none
  | _, '\\' :: 'U' :: a :: b :: c :: d :: e :: f :: g :: h :: rest =>
    match scalar? [a, b, c, d, e, f, g, h] with
    | some x => readBasicLines (x :: read) false rest
    | none => none
  | _, '\\' :: c :: rest =>
    if atLineEnd (c :: rest) then readBasicLines read true (c :: rest)
    else
      match shortEscape? c with
      | some x => readBasicLines (x :: read) false rest
      | none => none
  | skipping, c :: rest =>
    if skipping && isBlank c then readBasicLines read true rest
    else if isPrintable c && c != '\\' then readBasicLines (c :: read) false rest
    else none
  | _, [] => none

/-- Reads a literal string after its opening quote. -/
def readLiteral (read : List Char) : List Char → Option (String × List Char)
  | '\'' :: rest => some (String.ofList read.reverse, rest)
  | c :: rest => if isPrintable c then readLiteral (c :: read) rest else none
  | [] => none

/-- Reads a literal string of several lines. -/
def readLiteralLines (read : List Char) : List Char → Option (String × List Char)
  | '\'' :: '\'' :: '\'' :: '\'' :: '\'' :: rest =>
    some (String.ofList ('\'' :: '\'' :: read).reverse, rest)
  | '\'' :: '\'' :: '\'' :: '\'' :: rest => some (String.ofList ('\'' :: read).reverse, rest)
  | '\'' :: '\'' :: '\'' :: rest => some (String.ofList read.reverse, rest)
  | '\r' :: '\n' :: rest => readLiteralLines ('\n' :: read) rest
  | '\n' :: rest => readLiteralLines ('\n' :: read) rest
  | c :: rest => if isPrintable c then readLiteralLines (c :: read) rest else none
  | [] => none

/-- Drops a line end. -/
def dropNewline : List Char → List Char
  | '\n' :: rest => rest
  | '\r' :: '\n' :: rest => rest
  | cs => cs

/-- Reads a string of any of the four kinds. -/
def readString : List Char → Option (String × List Char)
  | '"' :: '"' :: '"' :: rest => readBasicLines [] false (dropNewline rest)
  | '"' :: rest => readBasic [] rest
  | '\'' :: '\'' :: '\'' :: rest => readLiteralLines [] (dropNewline rest)
  | '\'' :: rest => readLiteral [] rest
  | _ => none

/-! ### Numbers -/

/-- The digits from here on, where an underscore may stand between two of them. -/
def moreDigits (base : Nat) : List Char → Option (List Char × List Char)
  | '_' :: c :: rest =>
    if Text.isDigitOf base c then (moreDigits base rest).map fun (ds, r) => (c :: ds, r) else none
  | c :: rest =>
    if Text.isDigitOf base c then (moreDigits base rest).map fun (ds, r) => (c :: ds, r)
    else if c == '_' then none
    else some ([], c :: rest)
  | [] => some ([], [])

/-- One digit or more, where an underscore may stand between two of them. -/
def readDigits (base : Nat) : List Char → Option (List Char × List Char)
  | c :: rest => if Text.isDigitOf base c then moreDigits base (c :: rest) else none
  | [] => none

/-- The digits of a decimal integer, which has no needless zero in front. -/
def readWhole : List Char → Option (List Char × List Char)
  | '0' :: rest => some (['0'], rest)
  | cs => readDigits 10 cs

/-- An integer that 64 bits with sign hold. -/
def integer? (negative : Bool) (n : Nat) : Option Toml :=
  if n ≤ Text.maxSigned || (negative && n == Text.maxSigned + 1) then
    some (.int (if negative then -n else n))
  else none

/-- Whether a sign stands here, and if so whether it is a minus, with the text after it. -/
def readSign : List Char → Option Bool × List Char
  | '+' :: rest => (some false, rest)
  | '-' :: rest => (some true, rest)
  | cs => (none, cs)

/--
Whether `digits * 10 ^ e` is too large for a floating point number. Only numbers with 309 digits
before the point need a closer look.
-/
def overflows (digits : List Char) (e : Int) : Bool :=
  let digits := digits.dropWhile (· == '0')
  let size := (digits.length : Int) + e
  if digits.isEmpty || size < 309 then false
  else if 309 < size then true
  else
    let n := Text.natOf 10 digits
    (if 0 ≤ e then Binary64.ofRatio (n * Nat.pow 10 e.toNat) 1
      else Binary64.ofRatio n (Nat.pow 10 (-e).toNat)).isNone

/-- The exponent of a number, if one is written. -/
def readExponent (cs : List Char) : Option (Option Int × List Char) :=
  match cs with
  | c :: rest =>
    if c == 'e' || c == 'E' then
      let (sign, rest) := readSign rest
      (readDigits 10 rest).map fun (ds, r) =>
        let n : Int := Text.natOf 10 ds
        (some (if sign == some true then -n else n), r)
    else some (none, cs)
  | [] => some (none, [])

/-- A floating point number; a positive one may not be too large. -/
def real? (negative : Bool) (digits : List Char) (e : Int) : Option Toml :=
  if !negative && overflows digits e then none else some .real

/-- Reads the decimal number after its sign. -/
def readDecimal (negative : Bool) (cs : List Char) : Option (Toml × List Char) := do
  let (whole, rest) ← readWhole cs
  match rest with
  | '.' :: tail => do
    let (fraction, tail) ← readDigits 10 tail
    let (e, tail) ← readExponent tail
    let v ← real? negative (whole ++ fraction) (e.getD 0 - fraction.length)
    return (v, tail)
  | rest => do
    match ← readExponent rest with
    | (some e, tail) => return (← real? negative whole e, tail)
    | (none, tail) => return (← integer? negative (Text.natOf 10 whole), tail)

/-- Reads an integer in another base, after its mark. -/
def readBased (base : Nat) (cs : List Char) : Option (Toml × List Char) := do
  let (digits, rest) ← readDigits base cs
  return (← integer? false (Text.natOf base digits), rest)

/-- Reads a number. -/
def readNumber (cs : List Char) : Option (Toml × List Char) :=
  match cs with
  | '0' :: 'x' :: rest => readBased 16 rest
  | '0' :: 'o' :: rest => readBased 8 rest
  | '0' :: 'b' :: rest => readBased 2 rest
  | _ =>
    let (sign, rest) := readSign cs
    match rest with
    | 'i' :: 'n' :: 'f' :: rest => some (.real, rest)
    | 'n' :: 'a' :: 'n' :: rest => some (.real, rest)
    | rest => readDecimal (sign == some true) rest

/-! ### Dates and times -/

/-- Reads exactly `count` digits whose number lies between two bounds. -/
def readField (count low high : Nat) (cs : List Char) : Option (Nat × List Char) :=
  let digits := cs.take count
  let n := Text.natOf 10 digits
  if digits.length == count && digits.all Text.isAsciiDigit && low ≤ n && n ≤ high then
    some (n, cs.drop count)
  else none

/-- The text after a character that has to stand here. -/
def expect (c : Char) : List Char → Option (List Char)
  | d :: rest => if d == c then some rest else none
  | [] => none

/-- Passes a date. -/
def skipDate (cs : List Char) : Option (List Char) := do
  let (year, cs) ← readField 4 0 9999 cs
  let cs ← expect '-' cs
  let (month, cs) ← readField 2 1 12 cs
  let cs ← expect '-' cs
  let (_, cs) ← readField 2 1 (Day.daysIn year month) cs
  return cs

/-- Passes a fraction of a second, if there is one. -/
def skipFraction : List Char → List Char
  | '.' :: c :: rest =>
    if Text.isAsciiDigit c then rest.dropWhile Text.isAsciiDigit else '.' :: c :: rest
  | cs => cs

/-- Passes a time of day. -/
def skipTime (cs : List Char) : Option (List Char) := do
  let (_, cs) ← readField 2 0 23 cs
  let cs ← expect ':' cs
  let (_, cs) ← readField 2 0 59 cs
  let cs ← expect ':' cs
  let (_, cs) ← readField 2 0 60 cs
  return skipFraction cs

/-- Passes an offset from universal time, if there is one. -/
def skipOffset (cs : List Char) : Option (List Char) :=
  match cs with
  | 'Z' :: rest => some rest
  | 'z' :: rest => some rest
  | _ =>
    match readSign cs with
    | (none, rest) => some rest
    | (some _, rest) => do
      let (_, rest) ← readField 2 0 23 rest
      let rest ← expect ':' rest
      let (_, rest) ← readField 2 0 59 rest
      return rest

/-- Passes a date, a time, or a date with a time. -/
def skipMoment (cs : List Char) : Option (List Char) :=
  match skipDate cs with
  | some rest =>
    match rest with
    | c :: tail =>
      if c == 'T' || c == 't' || c == ' ' then
        match skipTime tail with
        | some tail => skipOffset tail
        | none => some rest
      else some rest
    | [] => some []
  | none => skipTime cs

/-- Reads a value that is neither an array nor a table. -/
def readScalar (cs : List Char) : Option (Toml × List Char) :=
  match cs with
  | '"' :: _ => (readString cs).map fun (s, r) => (.str s, r)
  | '\'' :: _ => (readString cs).map fun (s, r) => (.str s, r)
  | 't' :: 'r' :: 'u' :: 'e' :: rest => some (.bool true, rest)
  | 'f' :: 'a' :: 'l' :: 's' :: 'e' :: rest => some (.bool false, rest)
  | _ =>
    match skipMoment cs with
    | some rest => some (.moment, rest)
    | none => readNumber cs

end SourceAtlas.Toml
