import SourceAtlas.Total

/-!
# Character lists

Cutting, trimming and searching on `List Char`. The text rules of the library are stated here, on
lists, where recursion and the list lemmas of core apply directly; `Text.Basic` lifts them to
`String`.
-/

namespace SourceAtlas.Chars

/-- What follows `start`, if `cs` begins with it. -/
def stripPrefix? (start cs : List Char) : Option (List Char) :=
  start.isPrefixOf? cs

/-- What precedes `final`, if `cs` ends with it. -/
def stripSuffix? (final cs : List Char) : Option (List Char) :=
  final.isSuffixOf? cs

/-- Drops the longest run of characters satisfying `p` at the end. -/
def dropEndWhile (p : Char → Bool) (cs : List Char) : List Char :=
  (cs.reverse.dropWhile p).reverse

/-- Drops the longest runs of characters satisfying `p` at both ends. -/
def trimWhile (p : Char → Bool) (cs : List Char) : List Char :=
  dropEndWhile p (cs.dropWhile p)

/--
The text before and after the first occurrence of `mark`. An empty `mark` occurs at the very start.
-/
def splitFirst? (mark : List Char) : List Char → Option (List Char × List Char)
  | [] => if mark.isEmpty then some ([], []) else none
  | c :: cs =>
    match stripPrefix? mark (c :: cs) with
    | some rest => some ([], rest)
    | none => (splitFirst? mark cs).map fun (before, after) => (c :: before, after)

/-- The text before and after the last character satisfying `p`, which is left out. -/
def splitLast? (p : Char → Bool) : List Char → Option (List Char × List Char)
  | [] => none
  | c :: cs =>
    match splitLast? p cs with
    | some (before, after) => some (c :: before, after)
    | none => if p c then some ([], cs) else none

/-- Whether `mark` occurs in `cs`. -/
def contains (mark cs : List Char) : Bool :=
  (splitFirst? mark cs).isSome

/-- The lowercase form of a character in `A`–`Z`; every other character stands for itself. -/
def asciiLower (c : Char) : Char :=
  if 'A' ≤ c && c ≤ 'Z' then Char.ofNat (c.toNat + 32) else c

/-- Equality up to the case of ASCII letters. -/
def eqIgnoreAsciiCase (a b : List Char) : Bool :=
  a.map asciiLower == b.map asciiLower

/-- The number of bytes that characters take in UTF-8. -/
def byteLength (cs : List Char) : Nat :=
  total Char.utf8Size cs

end SourceAtlas.Chars
