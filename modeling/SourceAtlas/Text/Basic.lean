import SourceAtlas.Text.CharClass
import SourceAtlas.Text.Chars

/-!
# Text

The operations of `Chars` on `String`, and the ones that need the character classes.
-/

namespace SourceAtlas.Text

/-- Applies a function on character lists to a text. -/
def onChars (f : List Char → List Char) (s : String) : String :=
  String.ofList (f s.toList)

/-- Drops blanks at both ends. -/
def trim (s : String) : String :=
  onChars (Chars.trimWhile isWhitespace) s

/-- Drops blanks at the start. -/
def trimStart (s : String) : String :=
  onChars (List.dropWhile isWhitespace) s

/-- Drops characters satisfying `p` at the start. -/
def trimStartWhile (p : Char → Bool) (s : String) : String :=
  onChars (List.dropWhile p) s

/-- Drops characters satisfying `p` at the end. -/
def trimEndWhile (p : Char → Bool) (s : String) : String :=
  onChars (Chars.dropEndWhile p) s

def startsWith (s start : String) : Bool :=
  start.toList.isPrefixOf s.toList

def endsWith (s final : String) : Bool :=
  final.toList.isSuffixOf s.toList

/-- What follows `start` in `s`, if `s` begins with it. -/
def stripPrefix? (s start : String) : Option String :=
  (Chars.stripPrefix? start.toList s.toList).map String.ofList

/-- What precedes `final` in `s`, if `s` ends with it. -/
def stripSuffix? (s final : String) : Option String :=
  (Chars.stripSuffix? final.toList s.toList).map String.ofList

/-- Whether `mark` occurs in `s`. -/
def contains (s mark : String) : Bool :=
  Chars.contains mark.toList s.toList

def containsChar (s : String) (c : Char) : Bool :=
  s.toList.contains c

/-- The parts of `s` between the occurrences of `c`. -/
def splitOn (c : Char) (s : String) : List String :=
  (s.toList.splitOn c).map String.ofList

/-- The text before and after the first occurrence of `mark`. -/
def splitFirst? (s mark : String) : Option (String × String) :=
  (Chars.splitFirst? mark.toList s.toList).map fun (a, b) => (String.ofList a, String.ofList b)

/-- The text before and after the last `c`. -/
def splitLast? (s : String) (c : Char) : Option (String × String) :=
  (Chars.splitLast? (· == c) s.toList).map fun (a, b) => (String.ofList a, String.ofList b)

/-- The words of `s`: its longest parts without blanks. -/
def words (s : String) : List String :=
  ((s.toList.splitOnP isWhitespace).filter (!·.isEmpty)).map String.ofList

/-- Every `old` becomes `new`. -/
def replaceChar (old new : Char) (s : String) : String :=
  onChars (List.map fun c => if c == old then new else c) s

/-- The letters `A`–`Z` become small; everything else stays. -/
def asciiLower (s : String) : String :=
  onChars (List.map Chars.asciiLower) s

/-- The lowercase form over all of Unicode, with the final form of sigma at the end of words. -/
def lower (s : String) : String :=
  onChars (lowerFrom []) s

/-- Equality up to the case of ASCII letters. -/
def eqIgnoreAsciiCase (a b : String) : Bool :=
  Chars.eqIgnoreAsciiCase a.toList b.toList

/-- The texts with `between` put between each two of them. -/
def join (between : String) (parts : List String) : String :=
  String.ofList (between.toList.intercalate (parts.map String.toList))

/-- The decimal text of a natural number. -/
def ofNat (n : Nat) : String :=
  String.ofList (Nat.toDigits 10 n)

/-- `some s` unless `s` is empty. -/
def nonempty? (s : String) : Option String :=
  if s.isEmpty then none else some s

/-! ### Lines -/

/--
The lines of a text: the parts ended by a line feed, each without a carriage return before it, and
what follows the last line feed unless it is empty.
-/
def lines (s : String) : List String :=
  let parts := s.toList.splitOn '\n'
  let ended := parts.dropLast.map fun part => (Chars.stripSuffix? ['\r'] part).getD part
  (ended ++ parts.getLast?.toList.filter (!·.isEmpty)).map String.ofList

/-- The number of lines of a text. -/
def countLines (s : String) : Nat :=
  (lines s).length

end SourceAtlas.Text
