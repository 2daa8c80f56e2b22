import SourceAtlas.Build
import SourceAtlas.Disk
import SourceAtlas.Ignore

/-!
# Walking a directory

The files of a repository on disk. Left out are what the settings exclude, what ignore files name,
and what is hidden. A directory that is left out is not entered, so nothing in it can be kept.
-/

namespace SourceAtlas

/-- The files that a walk came upon, and which of them are to be extracted. -/
structure Discovery where
  /-- Every file, of whatever kind, in increasing order. -/
  known : List String
  selection : Selection
  deriving DecidableEq, Repr

namespace Discovery

/-! ### What is left out -/

/-- The rules for what the settings exclude; whatever one of them matches is left out. -/
def excludeRules (scan : ScanConfig) : Except Glob.ReadError (List IgnoreRule) := do
  let lines :=
    scan.excludeDirs.map (fun dir => "!" ++ dir ++ "/") ++ scan.excludePatterns.map ("!" ++ ·)
  let rules ← lines.mapM (IgnoreRule.read false)
  return rules.filterMap id

/-- The ignore files of a directory; the first kind takes precedence. -/
def ignoreFiles : List String :=
  [".ignore", ".gitignore", ".git/info/exclude"]

/-- The path made of segments. -/
def pathOf (segments : List String) : String :=
  Text.join "/" segments

/-- The rules of the ignore file of some kind in a directory. -/
def rulesIn (d : Disk) (dir : List String) (kind : String) : List IgnoreRule :=
  match d.read? (pathOf (dir ++ [kind])) with
  | some text => IgnoreRule.ofFile text
  | none => []

/-- The directories above a path, the innermost first, each with the path from there. -/
def above (segments : List String) : List (List String × List String) :=
  (List.range segments.length).reverse.map fun n => (segments.take n, segments.drop n)

/-- What the ignore files say of a path: of each kind, the innermost one that says something. -/
def verdict? (d : Disk) (segments : List String) (isDir : Bool) : Option Verdict :=
  ignoreFiles.findSome? fun kind =>
    (above segments).findSome? fun (dir, rest) =>
      IgnoreRule.verdictOf? (rulesIn d dir kind) (pathOf rest) isDir

/-- Whether a name is hidden. -/
def isHidden (segments : List String) : Bool :=
  (segments.getLast?.map (Text.startsWith · ".")).getD false

/-- Whether a walk passes over a path. A hidden one is only entered if an ignore file keeps it. -/
def isSkipped (d : Disk) (excludes : List IgnoreRule) (segments : List String) (isDir : Bool) :
    Bool :=
  if excludes.any (·.isMatch (pathOf segments) isDir) then true
  else
    match verdict? d segments isDir with
    | some .leftOut => true
    | some .kept => false
    | none => isHidden segments

/-- Whether a walk comes upon a file: neither it nor a directory above it is passed over. -/
def isReached (d : Disk) (excludes : List IgnoreRule) (path : String) : Bool :=
  let segments := Text.splitOn '/' path
  (List.range segments.length).all fun n =>
    !isSkipped d excludes (segments.take (n + 1)) (n + 1 < segments.length)

/-! ### The walk -/

/-- The files that a walk comes upon. -/
def walk (d : Disk) (excludes : List IgnoreRule) : Dict FileContent :=
  d.files.filter fun path _ => isReached d excludes path

/-- Walks a directory with some settings. -/
def ofDisk (scan : ScanConfig) (d : Disk) : Except Glob.ReadError Discovery := do
  let excludes ← excludeRules scan
  let files := walk d excludes
  return {
    known := files.keys
    selection := files.entries.foldl (fun s (path, content) => s.add scan path content.size) {} }

end Discovery

namespace Builder

/-- The name of a project: the one given, else that of the directory. -/
def projectName (root : String) (name : Option String) : String :=
  name.getD ((RepoPath.fileName? root).getD "repository")

/-- Builds the document for the directory at `root`, if there is one. -/
def run (b : Builder) (root : String) (name : Option String) (disk : Option Disk) :
    Except BuildError BuildOutput :=
  match b.config.validate, disk with
  | .error e, _ => .error (.config e)
  | .ok _, none => .error (.repositoryNotFound root)
  | .ok _, some d =>
    match Discovery.ofDisk b.config.scan d with
    | .error _ => .error .badPattern
    | .ok found =>
      if found.selection.isEmpty then .error (.noRecognizedFiles root)
      else b.processSelection (projectName root name) (.ofDisk d found.known) found.selection

end Builder

end SourceAtlas
