import SourceAtlas.Text.Basic

/-!
# Type names

The class that a written type refers to: pointers, references, nullability, arrays, type arguments
and optional wrappers are taken off, a qualifier is kept. So `*Repo`, `Repo?`, `Repo[]`,
`Optional[Repo]`, `Repo | null` and `"Repo"` all name `Repo`.
-/

namespace SourceAtlas.TypeName

def isQuote (c : Char) : Bool :=
  c == '"' || c == '\''

/-- Members of a union that stand for the absence of a value. -/
def isNullish (cs : List Char) : Bool :=
  cs == "null".toList || cs == "undefined".toList || cs == "None".toList || cs == []

/-- The first member of a union that is a type; a text without `|` is its only member. -/
def unionMember? (cs : List Char) : Option (List Char) :=
  if cs.contains '|' then
    ((cs.splitOn '|').map (Chars.trimWhile Text.isWhitespace)).find? (!isNullish ·)
  else some cs

/-- Takes off one keyword and the blanks after it. -/
def dropKeyword (cs : List Char) (keyword : String) : List Char :=
  match Chars.stripPrefix? keyword.toList cs with
  | some rest => rest.dropWhile Text.isWhitespace
  | none => cs

/-- Keywords before a type, each taken off at most once in this order. -/
def keywords : List String :=
  ["readonly ", "ref ", "out ", "in "]

/-- Takes off `[]` at the start, as often as it stands there, with the pointers after it. -/
def dropSlices : Nat → List Char → List Char
  | 0, cs => cs
  | fuel + 1, cs =>
    match Chars.stripPrefix? ['[', ']'] cs with
    | some rest => dropSlices fuel (rest.dropWhile (· == '*'))
    | none => cs

/-- The type inside an optional wrapper. -/
def optionalInner? (cs : List Char) : Option (List Char) := do
  let inner ←
    Chars.stripPrefix? "Optional[".toList cs <|> Chars.stripPrefix? "typing.Optional[".toList cs
  Chars.stripSuffix? [']'] inner

/-- The type without what stands before its name. -/
def dropMarks (cs : List Char) : List Char :=
  let cs := keywords.foldl dropKeyword (Chars.trimWhile isQuote cs)
  let cs := cs.dropWhile fun c => c == '*' || c == '&'
  dropSlices cs.length cs

/-- The name itself: what stands before type arguments or array brackets. -/
def head (cs : List Char) : List Char :=
  Chars.trimWhile Text.isWhitespace
    (Chars.dropEndWhile (· == '?') (cs.takeWhile fun c => c != '<' && c != '['))

/-- The class a written type refers to, where wrappers are followed at most `fuel` deep. -/
def normalizeWithin : Nat → List Char → Option (List Char)
  | 0, _ => none
  | fuel + 1, cs =>
    match unionMember? (Chars.trimWhile Text.isWhitespace cs) with
    | none => none
    | some cs =>
      let cs := dropMarks cs
      match optionalInner? cs with
      | some inner => normalizeWithin fuel inner
      | none =>
        let base := head cs
        if base == [] || base == ['_'] || base == "var".toList then none else some base

/-- The class a written type refers to. Every wrapper is shorter than the type it is taken off. -/
def normalizeChars (cs : List Char) : Option (List Char) :=
  normalizeWithin (cs.length + 1) cs

/-- The class a written type refers to; none for an empty or inferred type. -/
def normalize? (written : String) : Option String :=
  (normalizeChars written.toList).map String.ofList

end SourceAtlas.TypeName
