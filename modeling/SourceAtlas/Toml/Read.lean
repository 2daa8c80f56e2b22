import SourceAtlas.Toml.Draft
import SourceAtlas.Toml.Scalar

/-!
# Reading TOML text

A document is read line by line into a table under construction. Values nest to a limited depth,
which is what the recursion of the value reader descends on.
-/

namespace SourceAtlas.Toml

/-- Values nest at most this deep, and dotted keys have at most this many parts. -/
def maxDepth : Nat := 79

/-! ### Keys -/

def isKeyChar (c : Char) : Bool :=
  Text.isAsciiLetter c || Text.isAsciiDigit c || c == '_' || c == '-'

/-- Reads one part of a key. -/
def readKeyPart : List Char → Option (String × List Char)
  | '"' :: rest => readBasic [] rest
  | '\'' :: rest => readLiteral [] rest
  | cs =>
    let name := cs.takeWhile isKeyChar
    if name.isEmpty then none else some (String.ofList name, cs.dropWhile isKeyChar)

/-- Reads a key of at most `count` parts, with the blanks around it. -/
def readKey : (count : Nat) → List Char → Option (List String × List Char)
  | 0, _ => none
  | count + 1, cs => do
    let (part, rest) ← readKeyPart (skipBlank cs)
    match skipBlank rest with
    | '.' :: rest => do
      let (parts, rest) ← readKey count rest
      return (part :: parts, rest)
    | rest => return ([part], rest)

/-- A key as the path to its table and the last part. -/
def splitKey? (parts : List String) : Option (List String × String) :=
  parts.getLast?.map (parts.dropLast, ·)

/-! ### Values -/

/--
Passes blanks, line ends and comments; `inComment` tells whether a comment has begun. Fails at a
control character in a comment.
-/
def skipLayout : (inComment : Bool) → List Char → Option (List Char)
  | _, '\n' :: rest => skipLayout false rest
  | _, '\r' :: '\n' :: rest => skipLayout false rest
  | true, c :: rest => if isPrintable c then skipLayout true rest else none
  | false, c :: rest =>
    if c == '#' then skipLayout true rest
    else if isBlank c then skipLayout false rest
    else some (c :: rest)
  | _, [] => some []

abbrev ValueReader := List Char → Option (Toml × List Char)

/-- Reads the items of an array up to the closing bracket; a comma may stand before it. -/
def readItems (value : ValueReader) : Nat → List Toml → List Char → Option (List Toml × List Char)
  | 0, _, _ => none
  | fuel + 1, read, cs => do
    match ← skipLayout false cs with
    | ']' :: rest => return (read.reverse, rest)
    | cs => do
      let (v, rest) ← value cs
      match ← skipLayout false rest with
      | ',' :: rest => readItems value fuel (v :: read) rest
      | ']' :: rest => return ((v :: read).reverse, rest)
      | _ => none

/-- Reads `key = value`. -/
def readPair (value : ValueReader) (cs : List Char) :
    Option ((List String × String × Toml) × List Char) := do
  let (parts, rest) ← readKey maxDepth cs
  let (path, key) ← splitKey? parts
  match rest with
  | '=' :: rest => do
    let (v, rest) ← value (skipBlank rest)
    return ((path, key, v), rest)
  | _ => none

/-- Reads the pairs of a table in braces up to the closing brace. -/
def readPairs (value : ValueReader) : Nat → List (String × Draft) → List Char →
    Option (List (String × Draft) × List Char)
  | 0, _, _ => none
  | fuel + 1, read, cs => do
    let ((path, key, v), rest) ← readPair value cs
    let read ← Draft.addPair? path key v read
    match skipBlank rest with
    | ',' :: rest => readPairs value fuel read rest
    | '\x7d' :: rest => return (read, rest)
    | _ => none

/-- Reads a value that nests at most `depth` deep. -/
def readValue : (depth : Nat) → ValueReader
  | depth, '[' :: rest =>
    match depth with
    | 0 => none
    | depth + 1 =>
      (readItems (readValue depth) (rest.length + 1) [] rest).map fun (items, r) => (.arr items, r)
  | depth, '\x7b' :: rest =>
    match depth with
    | 0 => none
    | depth + 1 =>
      match skipBlank rest with
      | '\x7d' :: rest => some (.table [], rest)
      | rest =>
        (readPairs (readValue depth) rest.length [] rest).map fun (entries, r) =>
          (.table (Draft.finishEntries entries), r)
  | _, cs => readScalar cs

/-! ### Documents -/

/-- What one line says. -/
inductive Line where
  | blank
  | pair (path : List String) (key : String) (v : Toml)
  /-- The header of a table. -/
  | table (path : List String) (key : String)
  /-- The header of a table of an array. -/
  | item (path : List String) (key : String)

/-- Passes the end of a line, with a comment before it. -/
def skipLineEnd (cs : List Char) : Option (List Char) :=
  let cs := skipBlank cs
  let rest :=
    match cs with
    | '#' :: _ => cs.dropWhile isPrintable
    | _ => cs
  match rest with
  | '\n' :: rest => some rest
  | '\r' :: '\n' :: rest => some rest
  | [] => some []
  | _ => none

/-- Reads one line; the value of a pair may span several. -/
def readLine (cs : List Char) : Option (Line × List Char) :=
  match skipBlank cs with
  | [] => some (.blank, [])
  | '\n' :: rest => some (.blank, rest)
  | '\r' :: '\n' :: rest => some (.blank, rest)
  | '#' :: rest => (skipLineEnd ('#' :: rest)).map fun r => (.blank, r)
  | '[' :: '[' :: rest => do
    let (parts, rest) ← readKey maxDepth rest
    let (path, key) ← splitKey? parts
    match rest with
    | ']' :: ']' :: rest => return (.item path key, ← skipLineEnd rest)
    | _ => none
  | '[' :: rest => do
    let (parts, rest) ← readKey maxDepth rest
    let (path, key) ← splitKey? parts
    match rest with
    | ']' :: rest => return (.table path key, ← skipLineEnd rest)
    | _ => none
  | cs => do
    let ((path, key, v), rest) ← readPair (readValue maxDepth) cs
    return (.pair path key v, ← skipLineEnd rest)

/-- A document under construction: its entries and the path of the header that was opened last. -/
structure Progress where
  entries : List (String × Draft) := []
  header : List String := []

/-- Takes in one line. -/
def Progress.add? (p : Progress) : Line → Option Progress
  | .blank => some p
  | .table path key => do
    return { entries := ← Draft.openTable? path key p.entries, header := path ++ [key] }
  | .item path key => do
    return { entries := ← Draft.openItem? path key p.entries, header := path ++ [key] }
  | .pair path key v => do
    let entries ←
      Draft.change? .inner (fun _ inner => Draft.addPair? path key v inner) p.header .header
        p.entries
    return { p with entries }

/-- Reads the lines of a document. -/
def readLines : Nat → Progress → List Char → Option Progress
  | _, p, [] => some p
  | 0, _, _ :: _ => none
  | fuel + 1, p, c :: cs => do
    let (line, rest) ← readLine (c :: cs)
    readLines fuel (← p.add? line) rest

/-- Reads a document; a byte order mark may stand before it. -/
def read? (text : String) : Option Toml :=
  let cs := (Chars.stripPrefix? ['\ufeff'] text.toList).getD text.toList
  (readLines cs.length {} cs).map fun p => .table (Draft.finishEntries p.entries)

end SourceAtlas.Toml
