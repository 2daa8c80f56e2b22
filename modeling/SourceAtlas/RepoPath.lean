import SourceAtlas.Text.Basic

/-!
# Paths in a repository

A repository path is relative to the root and divided by slashes. This module takes such paths
apart, brings written paths to this form, and follows relative references from a directory.
-/

namespace SourceAtlas.RepoPath

/-! ### Normal form -/

/-- Drops `./` as often as it stands at the start. -/
def dropDotSlash : List Char → List Char
  | '.' :: '/' :: rest => dropDotSlash rest
  | cs => cs

/--
Brings the characters of a path to normal form: backslashes become slashes, then every `./` at the
start is dropped, then every slash there.
-/
def normalChars (cs : List Char) : List Char :=
  (dropDotSlash (cs.map fun c => if c == '\\' then '/' else c)).dropWhile (· == '/')

/-- The normal form of a path; for `/./a` it is `./a`, which is not its own. -/
def normal (path : String) : String :=
  Text.onChars normalChars path

/-! ### Parts of a path -/

/-- The directory of a path; empty for a file at the root. -/
def parentDir (path : String) : String :=
  ((Text.splitLast? path '/').map Prod.fst).getD ""

/-- The part after the last slash. -/
def baseName (path : String) : String :=
  ((Text.splitLast? path '/').map Prod.snd).getD path

/-- What follows the last dot of the base name, unless the base name starts with that dot. -/
def extension? (path : String) : Option String :=
  match Text.splitLast? (baseName path) '.' with
  | some (stem, ext) => if stem.isEmpty then none else some ext
  | none => none

/-! ### Components -/

/--
The components of a path: `/` for a leading slash, then the parts between slashes. Empty parts and
`.` do not count, but for a `.` at the very start of a relative path.
-/
def components (path : String) : List String :=
  let parts := Text.splitOn '/' path
  let isPart (s : String) : Bool := !s.isEmpty && s != "."
  match parts with
  | "" :: rest => if path.isEmpty then [] else "/" :: rest.filter isPart
  | "." :: rest => "." :: rest.filter isPart
  | rest => rest.filter isPart

/-- The last component, if it names a file or directory rather than moving about. -/
def fileName? (path : String) : Option String :=
  match (components path).getLast? with
  | some name => if name == "/" || name == "." || name == ".." then none else some name
  | none => none

/-- The extension of the last component; a name that only starts with a dot has none. -/
def fileExtension? (path : String) : Option String := do
  let name ← fileName? path
  match Text.splitLast? name '.' with
  | some (stem, ext) => if stem.isEmpty then none else some ext
  | none => none

/-- The path of `path` below `root`; none if it does not lie strictly below. -/
def relativeTo? (root path : String) : Option String :=
  match (components root).isPrefixOf? (components path) with
  | some [] => none
  | some below => some (Text.join "/" below)
  | none => none

/-! ### Following a reference -/

/-- The segments of a path. -/
def segments (cs : List Char) : List (List Char) :=
  cs.splitOn '/'

/--
One step of a reference from the directory given by its segments, the innermost first: an empty
segment and `.` stay, `..` leaves the directory, any other segment enters one. The root cannot be
left.
-/
def step? (dir : List (List Char)) (segment : List Char) : Option (List (List Char)) :=
  if segment = [] ∨ segment = ['.'] then some dir
  else if segment = ['.', '.'] then
    match dir with
    | [] => none
    | _ :: outer => some outer
  else some (segment :: dir)

/-- Follows the segments of a reference one after another. -/
def follow? (dir : List (List Char)) (reference : List (List Char)) : Option (List (List Char)) :=
  reference.foldlM step? dir

/-- The segments of a directory that is taken as written, the innermost first. -/
def dirSegments (dir : List Char) : List (List Char) :=
  ((segments dir).filter (!·.isEmpty)).reverse

/-- The path made of segments, the innermost first. -/
def ofSegments (dir : List (List Char)) : List Char :=
  ['/'].intercalate dir.reverse

/-- Follows a reference segment by segment; none if it climbs above the root on its way. -/
def joinChars? (dir reference : List Char) : Option (List Char) :=
  (follow? (dirSegments dir) (segments reference)).map ofSegments

/-- The path that `reference` leads to from the directory `dir`, if it does not leave the root. -/
def join? (dir reference : String) : Option String :=
  (joinChars? dir.toList reference.toList).map String.ofList

end SourceAtlas.RepoPath
