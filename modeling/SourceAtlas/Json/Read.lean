import SourceAtlas.Json.Basic
import SourceAtlas.Text.CharClass
import SourceAtlas.Text.Digits

/-!
# Reading JSON text

A recursive reader. The depth of nesting is limited, and the remaining depth is what the recursion
descends on; within one array or object the number of characters left bounds the steps.

Numbers are read as integers where 64 bits hold them. Every other number is a significand of at
most 64 bits, scaled by a power of ten in one rounded multiplication or division.
-/

namespace SourceAtlas.Json

/-- The values nest at most this deep. -/
def maxDepth : Nat := 127

def isBlank (c : Char) : Bool :=
  c == ' ' || c == '\n' || c == '\t' || c == '\r'

def skipBlank (cs : List Char) : List Char :=
  cs.dropWhile isBlank

/-! ### Strings -/

/-- The value of four hexadecimal digits. -/
def hex4? (a b c d : Char) : Option Nat := do
  let a ← Text.hexDigit? a
  let b ← Text.hexDigit? b
  let c ← Text.hexDigit? c
  let d ← Text.hexDigit? d
  return ((a * 16 + b) * 16 + c) * 16 + d

def isHighSurrogate (n : Nat) : Bool := 0xD800 ≤ n && n < 0xDC00

def isLowSurrogate (n : Nat) : Bool := 0xDC00 ≤ n && n < 0xE000

/-- The character that a one-letter escape stands for. -/
def shortEscape? : Char → Option Char
  | '"' => some '"'
  | '\\' => some '\\'
  | '/' => some '/'
  | 'b' => some '\x08'
  | 'f' => some '\x0c'
  | 'n' => some '\n'
  | 'r' => some '\r'
  | 't' => some '\t'
  | _ => none

/--
Reads a string after its opening quote; `read` holds the characters so far, last first. A surrogate
is only good as the first half of a pair, and control characters must be escaped.
-/
def readStringBody (read : List Char) : List Char → Option (String × List Char)
  | '"' :: rest => some (String.ofList read.reverse, rest)
  | '\\' :: 'u' :: a :: b :: c :: d :: '\\' :: 'u' :: a' :: b' :: c' :: d' :: rest =>
    match hex4? a b c d with
    | none => none
    | some n =>
      if isHighSurrogate n then
        match hex4? a' b' c' d' with
        | none => none
        | some m =>
          if isLowSurrogate m then
            let code := 0x10000 + (n - 0xD800) * 0x400 + (m - 0xDC00)
            readStringBody (Char.ofNat code :: read) rest
          else none
      else if isLowSurrogate n then none
      else readStringBody (Char.ofNat n :: read) ('\\' :: 'u' :: a' :: b' :: c' :: d' :: rest)
  | '\\' :: 'u' :: a :: b :: c :: d :: rest =>
    match hex4? a b c d with
    | none => none
    | some n =>
      if isHighSurrogate n || isLowSurrogate n then none
      else readStringBody (Char.ofNat n :: read) rest
  | '\\' :: c :: rest =>
    match shortEscape? c with
    | none => none
    | some c => readStringBody (c :: read) rest
  | c :: rest => if c.toNat < 0x20 || c == '\\' then none else readStringBody (c :: read) rest
  | [] => none

/-! ### Numbers -/

/-- The greatest exponent that is read; a longer one is out of range. -/
def maxExponent : Nat := 0x7FFFFFFF

/--
Adds digits to a significand as long as 64 bits hold it. Gives the significand, the number of
digits added and the digits left over.
-/
def addDigits (significand added : Nat) : List Char → Nat × Nat × List Char
  | [] => (significand, added, [])
  | c :: cs =>
    let next := significand * 10 + Text.digitValue c
    if next ≤ Text.maxUnsigned then addDigits next (added + 1) cs else (significand, added, c :: cs)

/-- `10 ^ k` rounded, for `k ≤ 308`. -/
def powerOfTen (k : Nat) : Binary64 :=
  (Binary64.ofRatio (Nat.pow 10 k) 1).getD Binary64.zero

/--
`x * 10 ^ e` by rounded steps: one multiplication or division by a power up to `10 ^ 308`, after
divisions by `10 ^ 308` while the exponent lies below that. Fails when the result is too large.
-/
def scale (x : Binary64) (e : Int) : Nat → Option Binary64
  | 0 => some x
  | fuel + 1 =>
    if e.natAbs ≤ 308 then
      if 0 ≤ e then x.mul (powerOfTen e.natAbs) else x.div (powerOfTen e.natAbs)
    else if x.isZero then some x
    else if 0 ≤ e then none
    else
      match x.div (powerOfTen 308) with
      | none => none
      | some y => scale y (e + 308) fuel

/-- The number with this sign, significand and power of ten. -/
def ofParts (negative : Bool) (significand : Nat) (e : Int) : Option Number := do
  let x ← scale ((Binary64.ofRatio significand 1).getD Binary64.zero) e 8
  return .real (if negative then x.neg else x)

/-- Clamps an exponent to 32 bits. -/
def clampExponent (e : Int) : Int :=
  max (-0x80000000) (min e 0x7FFFFFFF)

/-- The part of a number from its exponent mark, if any, with the power of ten read before. -/
def readExponent (negative : Bool) (significand : Nat) (e : Int) (cs : List Char) :
    Option (Number × List Char) :=
  let finish (rest : List Char) := (ofParts negative significand e).map (·, rest)
  match cs with
  | c :: rest =>
    if c == 'e' || c == 'E' then
      let (down, rest) :=
        match rest with
        | '+' :: r => (false, r)
        | '-' :: r => (true, r)
        | r => (false, r)
      let digits := rest.takeWhile Text.isAsciiDigit
      let rest := rest.dropWhile Text.isAsciiDigit
      if digits.isEmpty then none
      else
        let n := Text.natOf 10 digits
        if maxExponent < n then
          if significand != 0 && !down then none
          else some (.real (if negative then Binary64.zero.neg else Binary64.zero), rest)
        else
          let e := clampExponent (if down then e - n else e + n)
          (ofParts negative significand e).map (·, rest)
    else finish (c :: rest)
  | [] => finish []

/-- An integer: as such if 64 bits hold it, else rounded. Minus zero is no integer. -/
def integer (negative : Bool) (n : Nat) : Option Number :=
  if !negative then some (.int n)
  else if n != 0 && n ≤ Text.maxSigned + 1 then some (.int (-n))
  else ofParts true n 0

/-- Reads a number after its sign. -/
def readUnsigned (negative : Bool) (cs : List Char) : Option (Number × List Char) :=
  let digits := cs.takeWhile Text.isAsciiDigit
  let rest := cs.dropWhile Text.isAsciiDigit
  match digits with
  | [] => none
  | first :: more =>
    if first == '0' && !more.isEmpty then none
    else
      let (significand, _, surplus) := addDigits 0 0 digits
      match rest with
      | '.' :: tail =>
        let fraction := tail.takeWhile Text.isAsciiDigit
        let tail := tail.dropWhile Text.isAsciiDigit
        if fraction.isEmpty then none
        else
          let (significand', added, _) := addDigits significand 0 fraction
          readExponent negative significand' ((surplus.length : Int) - added) tail
      | c :: tail =>
        if c == 'e' || c == 'E' then readExponent negative significand surplus.length (c :: tail)
        else if surplus.isEmpty then (integer negative significand).map (·, c :: tail)
        else (ofParts negative significand surplus.length).map (·, c :: tail)
      | [] =>
        if surplus.isEmpty then (integer negative significand).map (·, [])
        else (ofParts negative significand surplus.length).map (·, [])

/-! ### Values -/

/-- A reader of one value: the value and the text after it, or nothing if the text is no value. -/
abbrev ValueReader := List Char → Option (Json × List Char)

/-- Reads array items up to the closing bracket; `read` holds the items so far, last first. -/
def readItems (value : ValueReader) : Nat → List Json → List Char → Option (List Json × List Char)
  | 0, _, _ => none
  | fuel + 1, read, cs =>
    match value (skipBlank cs) with
    | none => none
    | some (v, rest) =>
      match skipBlank rest with
      | ',' :: rest => readItems value fuel (v :: read) rest
      | ']' :: rest => some ((v :: read).reverse, rest)
      | _ => none

/-- Reads object members up to the closing brace; `read` holds the members so far, last first. -/
def readMembers (value : ValueReader) :
    Nat → List (String × Json) → List Char → Option (List (String × Json) × List Char)
  | 0, _, _ => none
  | fuel + 1, read, cs =>
    match skipBlank cs with
    | '"' :: rest =>
      match readStringBody [] rest with
      | none => none
      | some (key, rest) =>
        match skipBlank rest with
        | ':' :: rest =>
          match value (skipBlank rest) with
          | none => none
          | some (v, rest) =>
            match skipBlank rest with
            | ',' :: rest => readMembers value fuel ((key, v) :: read) rest
            | '\x7d' :: rest => some (((key, v) :: read).reverse, rest)
            | _ => none
        | _ => none
    | _ => none

/-- Reads a value that starts right here and nests at most `depth` deep. -/
def readValue : Nat → ValueReader
  | depth, '[' :: rest =>
    match depth with
    | 0 => none
    | depth + 1 =>
      match skipBlank rest with
      | ']' :: rest => some (.arr [], rest)
      | rest => (readItems (readValue depth) rest.length [] rest).map fun (v, r) => (.arr v, r)
  | depth, '\x7b' :: rest =>
    match depth with
    | 0 => none
    | depth + 1 =>
      match skipBlank rest with
      | '\x7d' :: rest => some (.obj [], rest)
      | rest => (readMembers (readValue depth) rest.length [] rest).map fun (v, r) => (.obj v, r)
  | _, '"' :: rest => (readStringBody [] rest).map fun (s, r) => (.str s, r)
  | _, '-' :: rest => (readUnsigned true rest).map fun (n, r) => (.num n, r)
  | _, 'n' :: 'u' :: 'l' :: 'l' :: rest => some (.null, rest)
  | _, 't' :: 'r' :: 'u' :: 'e' :: rest => some (.bool true, rest)
  | _, 'f' :: 'a' :: 'l' :: 's' :: 'e' :: rest => some (.bool false, rest)
  | _, cs => (readUnsigned false cs).map fun (n, r) => (.num n, r)

/-- Reads a text that is one value with nothing but blanks around it. -/
def readChars? (cs : List Char) : Option Json :=
  match readValue maxDepth (skipBlank cs) with
  | some (v, rest) => if (skipBlank rest).isEmpty then some v else none
  | none => none

/-- Reads a text that is one value, nested no deeper than the limit. -/
def read? (text : String) : Option Json :=
  readChars? text.toList

end SourceAtlas.Json
