import SourceAtlas.Text.Chars
import SourceAtlas.Text.Table.Case
import SourceAtlas.Text.Table.Letter
import SourceAtlas.Text.Table.Lowercase
import SourceAtlas.Text.Table.Number

/-!
# Character classes

The classes by which names, blanks and words are told apart, over all of Unicode. A class is a list
of boundaries; ASCII characters are decided without looking into a table.
-/

namespace SourceAtlas.Text

/--
Membership in a class given by its boundaries: they alternate between the first code point inside
and the first one outside, so `n` is inside when an odd number of them lie at or below it.
-/
def memBoundaries : List Nat → Nat → Bool
  | [], _ => false
  | b :: bs, n => if b ≤ n then !memBoundaries bs n else false

/-- The boundaries of the class White_Space. -/
def whitespace : List Nat :=
  [9, 14, 32, 33, 133, 134, 160, 161, 5760, 5761, 8192, 8203, 8232, 8234, 8239, 8240, 8287, 8288,
   12288, 12289]

/-- Blank characters: spaces of every width, tabs, line ends and line separators. -/
def isWhitespace (c : Char) : Bool :=
  memBoundaries whitespace c.toNat

/-- Blank characters within ASCII: space, tab, line feed, form feed, carriage return. -/
def isAsciiWhitespace (c : Char) : Bool :=
  c == ' ' || c == '\t' || c == '\n' || c == '\r' || c == '\x0c'

def isAsciiDigit (c : Char) : Bool :=
  '0' ≤ c && c ≤ '9'

def isAsciiLetter (c : Char) : Bool :=
  ('a' ≤ c && c ≤ 'z') || ('A' ≤ c && c ≤ 'Z')

/-- Letters, letter numbers and the vowel signs that behave like letters. -/
def isAlphabetic (c : Char) : Bool :=
  if c.toNat < 128 then isAsciiLetter c else memBoundaries Table.alphabetic c.toNat

/-- Digits, letter-like numerals and fractions. -/
def isNumeric (c : Char) : Bool :=
  if c.toNat < 128 then isAsciiDigit c else memBoundaries Table.numeric c.toNat

def isAlphanumeric (c : Char) : Bool :=
  isAlphabetic c || isNumeric c

/-- Capital letters, of every script that has them. -/
def isUppercase (c : Char) : Bool :=
  if c.toNat < 128 then 'A' ≤ c && c ≤ 'Z' else memBoundaries Table.uppercase c.toNat

/--
Characters of a word: letters, marks, decimal digits, connecting punctuation and the two joiners.
-/
def isWordChar (c : Char) : Bool :=
  if c.toNat < 128 then
    isAsciiLetter c || isAsciiDigit c || c == '_'
  else
    memBoundaries Table.alphabetic c.toNat || memBoundaries Table.mark c.toNat
      || memBoundaries Table.decimal c.toNat || memBoundaries Table.connector c.toNat
      || c.toNat == 0x200C || c.toNat == 0x200D

/-- Characters that have case: they are a capital, a small letter or a title-case letter. -/
def isCased (c : Char) : Bool :=
  memBoundaries Table.cased c.toNat

/-- Characters that are passed over when the case context of a letter is looked at. -/
def isCaseIgnorable (c : Char) : Bool :=
  memBoundaries Table.caseIgnorable c.toNat

/-- The lowercase form of a character, looked up in runs of regular shifts. -/
def lowerVia : List (Nat × Nat × Nat × Int) → Nat → Nat
  | [], n => n
  | (first, last, step, shift) :: runs, n =>
    if first ≤ n && n ≤ last && (n - first) % step == 0 then (n + shift).toNat else lowerVia runs n

/--
The lowercase form of a single character. The capital I with a dot becomes an i followed by a
combining dot above; every other form is one character.
-/
def lowerChar (c : Char) : List Char :=
  if c.toNat < 128 then [Chars.asciiLower c]
  else if c.toNat == 0x130 then ['i', Char.ofNat 0x307]
  else [Char.ofNat (lowerVia Table.lowercaseRuns c.toNat)]

/--
Whether a capital sigma between `before` (nearest character first) and `after` stands at the end of
a word: some cased letter precedes it and none follows, case-ignorable characters not counting.
-/
def isFinalSigma (before after : List Char) : Bool :=
  let cased (cs : List Char) := ((cs.dropWhile isCaseIgnorable).head?.map isCased).getD false
  cased before && !cased after

/-- Lowercases `cs`, where `before` holds the characters already passed, nearest first. -/
def lowerFrom (before : List Char) : List Char → List Char
  | [] => []
  | c :: cs =>
    let here :=
      if c.toNat == 0x3A3 then [Char.ofNat (if isFinalSigma before cs then 0x3C2 else 0x3C3)]
      else lowerChar c
    here ++ lowerFrom (c :: before) cs

end SourceAtlas.Text
