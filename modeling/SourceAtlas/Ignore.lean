import SourceAtlas.Glob.Read

/-!
# Ignore rules

The lines of an ignore file. Each line is a pattern for paths below the directory of the file; a
later line takes precedence over an earlier one.
-/

namespace SourceAtlas

/-- One line of an ignore file. -/
structure IgnoreRule where
  glob : Glob
  /-- Whether matching paths are kept rather than left out. -/
  keeps : Bool
  /-- Whether only directories match. -/
  onlyDirs : Bool
  deriving Repr

/-- What rules say of a path. -/
inductive Verdict where
  | leftOut
  | kept
  deriving DecidableEq, Repr

namespace IgnoreRule

/-- A line without the blanks at its end, unless the last one is escaped. -/
def trimLine (line : List Char) : List Char :=
  if ['\\', ' '].isSuffixOf line then line else Chars.dropEndWhile Text.isWhitespace line

/-- Splits off the marks at the start: whether the line keeps, and whether it is anchored. -/
def readStart (line : List Char) : Bool × Bool × List Char :=
  match line with
  | '\\' :: '!' :: rest => (false, false, '!' :: rest)
  | '\\' :: '#' :: rest => (false, false, '#' :: rest)
  | '!' :: '/' :: rest => (true, true, rest)
  | '!' :: rest => (true, false, rest)
  | '/' :: rest => (false, true, rest)
  | _ => (false, false, line)

/-- Splits off the slash at the end, with a backslash before it. -/
def readEnd (line : List Char) : Bool × List Char :=
  match Chars.stripSuffix? ['/'] line with
  | some line => (true, (Chars.stripSuffix? ['\\'] line).getD line)
  | none => (false, line)

/--
The pattern for whole paths. Without a slash it matches at any depth, and a final `/**` matches what
is in the directory but not the directory itself.
-/
def wholePattern (tied : Bool) (pattern : List Char) : List Char :=
  let isFree := !tied && !pattern.contains '/'
  let pattern := if isFree && pattern != ['*', '*'] then ['*', '*', '/'] ++ pattern else pattern
  if ['/', '*', '*'].isSuffixOf pattern then pattern ++ ['/', '*'] else pattern

/-- Reads a line; comments and blank lines are no rules. -/
def read (lenient : Bool) (line : String) : Except Glob.ReadError (Option IgnoreRule) :=
  if Text.startsWith line "#" then .ok none
  else
    let line := trimLine line.toList
    if line.isEmpty then .ok none
    else do
      let (keeps, tied, pattern) := readStart line
      let (onlyDirs, pattern) := readEnd pattern
      let glob ← Glob.read lenient (String.ofList (wholePattern tied pattern))
      return some { glob, keeps, onlyDirs }

/-- Whether a rule matches a path, which is a directory or not. -/
def isMatch (rule : IgnoreRule) (path : String) (isDir : Bool) : Bool :=
  (!rule.onlyDirs || isDir) && rule.glob.isMatch path

/-- What the rule says of the paths that it matches. -/
def verdict (rule : IgnoreRule) : Verdict :=
  if rule.keeps then .kept else .leftOut

/-- What the last of the rules that match a path says of it. -/
def verdictOf? (rules : List IgnoreRule) (path : String) (isDir : Bool) : Option Verdict :=
  (rules.reverse.find? (·.isMatch path isDir)).map verdict

/-- The rules of an ignore file. Lines that are malformed do not count. -/
def ofFile (text : String) : List IgnoreRule :=
  let text := Text.trimStartWhile (· == '\ufeff') text
  (Text.lines text).filterMap fun line =>
    match read true line with
    | .ok rule => rule
    | .error _ => none

end IgnoreRule

end SourceAtlas
