import SourceAtlas.Glob.Basic
import SourceAtlas.Text.Basic

/-!
# Reading glob patterns

The pattern is read character by character. Braces nest: for each open brace, the alternatives that
are complete are kept along with the tokens before it.
-/

namespace SourceAtlas.Glob

/-- What is wrong with a pattern. -/
inductive ReadError where
  | unclosedClass
  | invalidRange
  | unopenedChoice
  | unclosedChoice
  | danglingEscape
  deriving DecidableEq, Repr

/-! ### Classes -/

/-- A class under construction: the ranges so far, last first, and whether a dash is pending. -/
structure ClassDraft where
  ranges : List (Char × Char) := []
  inRange : Bool := false

/-- Adds a character: as the end of a range after a dash, else on its own. -/
def ClassDraft.add (d : ClassDraft) (c : Char) : Except ReadError ClassDraft :=
  match d.inRange, d.ranges with
  | true, (low, _) :: rest =>
    if c < low then .error .invalidRange else .ok { ranges := (low, c) :: rest }
  | _, ranges => .ok { ranges := (c, c) :: ranges }

/-- The ranges of a finished class, where a dash at the end stands for itself. -/
def ClassDraft.finish (d : ClassDraft) : List (Char × Char) :=
  (if d.inRange then ('-', '-') :: d.ranges else d.ranges).reverse

/-- Reads a class up to its closing bracket, which stands for itself at the start. -/
def readRanges (isFirst : Bool) (d : ClassDraft) :
    List Char → Except ReadError (List (Char × Char) × List Char)
  | [] => .error .unclosedClass
  | ']' :: rest =>
    if isFirst then do readRanges false (← d.add ']') rest else .ok (d.finish, rest)
  | '-' :: rest =>
    if isFirst || d.inRange then do readRanges false (← d.add '-') rest
    else readRanges false { d with inRange := true } rest
  | c :: rest => do readRanges false (← d.add c) rest

/-- Reads a class after its opening bracket. -/
def readClass (cs : List Char) : Except ReadError (Token × List Char) :=
  let (negated, cs) :=
    match cs with
    | '!' :: rest => (true, rest)
    | '^' :: rest => (true, rest)
    | _ => (false, cs)
  (readRanges true {} cs).map fun (ranges, rest) => (.oneOf negated ranges, rest)

/-! ### Patterns -/

/-- Tokens before an open brace, and the complete alternatives after it; both last first. -/
structure OpenChoice where
  before : List Token
  complete : List (List Token) := []

/-- A pattern under construction. -/
structure Draft where
  /-- The tokens of the innermost part, last first. -/
  tokens : List Token := []
  /-- The open braces, the innermost first. -/
  opened : List OpenChoice := []
  /-- The character before the ones still to be read. -/
  previous : Option Char := none
  /-- Whether a bracket was found that is never closed; brackets then stand for themselves. -/
  bracketsLiteral : Bool := false

namespace Draft

def push (d : Draft) (t : Token) : Draft :=
  { d with tokens := t :: d.tokens }

/-- Takes in two stars that have no special place. -/
def pushStars (d : Draft) : Draft :=
  { d with tokens := .many :: .many :: d.tokens, previous := some '*' }

/-- Puts the token for any depth in place of the last one, unless that one has any depth itself. -/
def pushDepth (d : Draft) (t : Token) : Draft :=
  let tokens :=
    match d.tokens with
    | .anyParents :: rest => .anyParents :: rest
    | .anyBelow :: rest => .anyBelow :: rest
    | _ :: rest => t :: rest
    | [] => [t]
  { d with tokens }

/--
Takes in `**`, given the text after it. The two stars stand for any depth at the start of a part and
after a slash, if a slash or the end of the part follows. Gives the text that is left.
-/
def addDoubleStar (d : Draft) (rest : List Char) : Draft × List Char :=
  if d.tokens.isEmpty then
    match rest with
    | [] => ({ d with tokens := [.anyParents], previous := some '*' }, [])
    | '/' :: rest => ({ d with tokens := [.anyParents], previous := some '/' }, rest)
    | _ => (d.pushStars, rest)
  else if d.previous != some '/'
      && (d.opened.isEmpty || (d.previous != some ',' && d.previous != some '\x7b')) then
    (d.pushStars, rest)
  else
    match rest with
    | [] => ({ d.pushDepth .anyBelow with previous := some '*' }, [])
    | '/' :: rest => ({ d.pushDepth .anyBetween with previous := some '/' }, rest)
    | c :: rest =>
      if (c == ',' || c == '\x7d') && !d.opened.isEmpty then
        ({ d.pushDepth .anyBelow with previous := some '*' }, c :: rest)
      else (d.pushStars, c :: rest)

/-- Takes in a character that is not special where it stands. -/
def addLiteral (d : Draft) (c : Char) : Draft :=
  { d.push (.literal c) with previous := some c }

/-- Takes in the next character, with what belongs to it. Gives the text that is left. -/
def step (lenient : Bool) (d : Draft) (c : Char) (rest : List Char) :
    Except ReadError (Draft × List Char) :=
  match c with
  | '?' => .ok ({ d.push .one with previous := some c }, rest)
  | '*' =>
    match rest with
    | '*' :: rest => .ok (d.addDoubleStar rest)
    | rest => .ok ({ d.push .many with previous := some c }, rest)
  | '[' =>
    if d.bracketsLiteral then .ok (d.addLiteral c, rest)
    else
      match readClass rest with
      | .ok (t, rest) => .ok ({ d.push t with previous := some ']' }, rest)
      | .error .unclosedClass =>
        if lenient then .ok ({ d.addLiteral c with bracketsLiteral := true }, rest)
        else .error .unclosedClass
      | .error e => .error e
  | '\x7b' =>
    .ok ({ d with tokens := [], opened := { before := d.tokens } :: d.opened, previous := some c },
      rest)
  | '\x7d' =>
    match d.opened with
    | [] => .error .unopenedChoice
    | o :: outer =>
      let alternatives := ((d.tokens :: o.complete).map List.reverse).reverse
      .ok ({ d with
        tokens := .choice alternatives :: o.before, opened := outer, previous := some c }, rest)
  | ',' =>
    match d.opened with
    | [] => .ok (d.addLiteral c, rest)
    | o :: outer =>
      .ok ({ d with
        tokens := []
        opened := { o with complete := d.tokens :: o.complete } :: outer
        previous := some c }, rest)
  | '\\' =>
    match rest with
    | [] => .error .danglingEscape
    | e :: rest => .ok (d.addLiteral e, rest)
  | c => .ok (d.addLiteral c, rest)

/-- The finished pattern. -/
def finish (d : Draft) : Except ReadError Glob :=
  if d.opened.isEmpty then .ok ⟨d.tokens.reverse⟩ else .error .unclosedChoice

end Draft

/-- Reads the rest of a pattern. -/
def readFrom (lenient : Bool) : Nat → Draft → List Char → Except ReadError Draft
  | _, d, [] => .ok d
  | 0, d, _ :: _ => .ok d
  | fuel + 1, d, c :: rest => do
    let (d, rest) ← d.step lenient c rest
    readFrom lenient fuel d rest

/-- Reads a pattern. A lenient reader takes a bracket that is never closed for itself. -/
def read (lenient : Bool) (pattern : String) : Except ReadError Glob := do
  let d ← readFrom lenient pattern.length {} pattern.toList
  d.finish

end SourceAtlas.Glob
