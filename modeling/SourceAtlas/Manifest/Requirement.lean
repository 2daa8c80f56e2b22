import SourceAtlas.Text.Basic

/-!
# Requirements

A package that a manifest asks for, with the version it asks for, and the short text form
`name[extras] >= version` of Python packages.
-/

namespace SourceAtlas

/-- A package that is required. -/
structure Requirement where
  name : String
  version : Option String := none
  deriving DecidableEq, Repr

namespace Requirement

/-- The requirement without a version that says nothing: an empty one, or the one for any. -/
def withoutAnyVersion (r : Requirement) : Requirement :=
  { r with version := r.version.filter fun v => !v.isEmpty && v != "*" }

def isNameStart (c : Char) : Bool :=
  Text.isAsciiLetter c || Text.isAsciiDigit c

def isNameChar (c : Char) : Bool :=
  isNameStart c || c == '.' || c == '_' || c == '-'

/-- A character of a version; blanks, separators and comments end it. -/
def isVersionChar (c : Char) : Bool :=
  !Text.isWhitespace c && c != ';' && c != ',' && c != '#'

/-- The operators that compare versions, in the order in which they are tried. -/
def operators : List String :=
  ["==", ">=", "<=", "~=", "!=", ">", "<"]

/-- The text after extras in brackets, if there are any. -/
def skipExtras (cs : List Char) : List Char :=
  match cs with
  | '[' :: rest => ((Chars.splitFirst? [']'] rest).map Prod.snd).getD cs
  | _ => cs

/-- The version after an operator. Only the operator for equality is left out. -/
def versionAfter? (cs : List Char) (operator : String) : Option String := do
  let rest ← Chars.stripPrefix? operator.toList cs
  let version := (rest.dropWhile Text.isWhitespace).takeWhile isVersionChar
  if version.isEmpty then none
  else if operator == "==" then some (String.ofList version)
  else some (operator ++ String.ofList version)

/-- Reads `name[extras] operator version`; whatever follows does not count. -/
def parse? (text : String) : Option Requirement :=
  match (Text.trim text).toList with
  | c :: rest =>
    if isNameStart c then
      let name := c :: rest.takeWhile isNameChar
      let after := (skipExtras (rest.dropWhile isNameChar)).dropWhile Text.isWhitespace
      some { name := String.ofList name, version := operators.findSome? (versionAfter? after) }
    else none
  | [] => none

end Requirement

end SourceAtlas
