import SourceAtlas.Repository
import SourceAtlas.Text.Basic

/-!
# Go modules

A `go.mod` file gives a module path to its directory. The import path of a package is that of the
module which governs its directory, followed by the way from there.
-/

namespace SourceAtlas

/-- A module: the directory of its `go.mod` and the path it declares. -/
structure GoModule where
  dir : String
  path : String
  deriving DecidableEq, Repr, Inhabited

namespace GoModule

/-- The word after `module` and blanks, if that is what comes first. -/
def declaredHere? (cs : List Char) : Option (List Char) := do
  let rest ← Chars.stripPrefix? "module".toList (cs.dropWhile Text.isWhitespace)
  match rest with
  | c :: more =>
    let word := (more.dropWhile Text.isWhitespace).takeWhile (!Text.isWhitespace ·)
    if Text.isWhitespace c && !word.isEmpty then some word else none
  | [] => none

/-- The first declaration that starts at the start of a line. -/
def declared? (atLineStart : Bool) : List Char → Option (List Char)
  | [] => none
  | c :: cs =>
    match if atLineStart then declaredHere? (c :: cs) else none with
    | some word => some word
    | none => declared? (c == '\n') cs

/-- The module path that the text of a `go.mod` declares, without quotes. -/
def pathIn? (text : String) : Option String :=
  (declared? true text.toList).map fun word =>
    String.ofList (Chars.trimWhile (· == '"') word)

/-- Whether a directory lies in the directory of a module. -/
def governs (m : GoModule) (dir : String) : Bool :=
  m.dir.isEmpty || dir == m.dir || Text.startsWith dir (m.dir ++ "/")

/-- The module that governs a directory: of those around it the innermost, the last of several. -/
def governing? (modules : List GoModule) (dir : String) : Option GoModule :=
  (modules.filter (·.governs dir)).foldl
    (fun best m =>
      match best with
      | none => some m
      | some b => if b.dir.utf8ByteSize ≤ m.dir.utf8ByteSize then some m else some b)
    none

/-- The import path of the package in a directory; without a module the directory itself. -/
def packagePath (modules : List GoModule) (dir : String) : String :=
  match governing? modules dir with
  | none => dir
  | some m =>
    let below := Text.trimStartWhile (· == '/') ((Text.stripPrefix? dir m.dir).getD dir)
    if below.isEmpty then m.path else m.path ++ "/" ++ below

/-- The modules of a repository in the order of their paths. -/
def ofRepository (r : Repository) : List GoModule :=
  (r.named "go.mod").filterMap fun path => do
    return ⟨RepoPath.parentDir path, ← pathIn? (← r.read? path)⟩

end GoModule

end SourceAtlas
