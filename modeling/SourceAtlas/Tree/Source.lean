import SourceAtlas.Text.Basic
import SourceAtlas.Tree.Basic

/-!
# Source text under a tree

The text that a tree was made from, cut out by the bytes of its nodes, and small readings of names
and literals that all languages share.
-/

namespace SourceAtlas

/-- A text with its bytes, which the nodes of its tree refer to. -/
structure SourceText where
  text : String
  bytes : ByteArray

namespace SourceText

def ofString (text : String) : SourceText :=
  ⟨text, text.toUTF8⟩

/-- The text between two bytes; empty if these do not bound a run of whole characters. -/
def slice (s : SourceText) (start stop : Nat) : String :=
  if start ≤ stop && stop ≤ s.bytes.size then
    (String.fromUTF8? (s.bytes.extract start stop)).getD ""
  else ""

/-- The text of a node. -/
def textOf (s : SourceText) (t : Tree) : String :=
  s.slice t.label.start t.label.stop

/-- The line, counted from one, of a byte. -/
def lineAt (s : SourceText) (offset : Nat) : Nat :=
  ((s.bytes.toList.take offset).filter (· == 10)).length + 1

def startLine (s : SourceText) (t : Tree) : Nat := s.lineAt t.label.start

def endLine (s : SourceText) (t : Tree) : Nat := s.lineAt t.label.stop

/-- The text of the first child in a field. -/
def field? (s : SourceText) (t : Tree) (field : String) : Option String :=
  (t.child? field).map s.textOf

end SourceText

/-! ### Small readings -/

/-- Takes one pair of matching quotes off a literal. -/
def unquote (text : String) : String :=
  let cs := Chars.trimWhile Text.isWhitespace text.toList
  match cs with
  | mark :: rest =>
    if mark == '"' || mark == '\'' || mark == Char.ofNat 96 then
      match Chars.stripSuffix? [mark] rest with
      | some inner => String.ofList inner
      | none => String.ofList cs
    else String.ofList cs
  | [] => ""

/-- A parameter that takes any number of arguments. -/
def variadic (name : String) : String :=
  let rec dropDots : List Char → List Char
    | '.' :: '.' :: '.' :: rest => dropDots rest
    | cs => cs
  "..." ++ String.ofList (dropDots name.toList)

/-- What stands for a parameter that takes an object apart. -/
def objectPattern : String := "\x7b...\x7d"

/-- What stands for a parameter that takes an array apart. -/
def arrayPattern : String := "[...]"

/-- The part of a name after its last dot or colon. -/
def lastSegment (name : String) : String :=
  match Chars.splitLast? (fun c => c == '.' || c == ':') name.toList with
  | some (_, after) => String.ofList after
  | none => name

end SourceAtlas
