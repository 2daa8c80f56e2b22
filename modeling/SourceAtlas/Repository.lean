import SourceAtlas.Dict
import SourceAtlas.Disk
import SourceAtlas.RepoPath

/-!
# The files of a repository

Every path that is known, and the texts that are at hand. A path without a text still counts where
only the existence of a file matters.
-/

namespace SourceAtlas

structure Repository where
  known : Dict Unit
  texts : Dict String
  deriving DecidableEq

namespace Repository

/--
Sources with their texts, the last one given for a path, and further paths that are known to exist.
-/
def ofSources (sources : List (String × String)) (skeleton : List String) : Repository :=
  let texts := sources.map fun (path, text) => (RepoPath.normal path, text)
  let paths := skeleton.map RepoPath.normal ++ texts.map Prod.fst
  { known := Dict.ofList (paths.map (·, ())), texts := Dict.ofList texts }

/-- The files under a directory, of which some paths are known. -/
def ofDisk (d : Disk) (paths : List String) : Repository :=
  { known := Dict.ofList (paths.map fun path => (RepoPath.normal path, ()))
    texts :=
      Dict.ofList (d.files.entries.filterMap fun (path, content) => content.text.map (path, ·)) }

/-- Whether a path is known. -/
def contains (r : Repository) (path : String) : Bool :=
  r.known.contains path

/-- The text of a path. -/
def read? (r : Repository) (path : String) : Option String :=
  r.texts.find? path

/-- The known paths in increasing order. -/
def paths (r : Repository) : List String :=
  r.known.keys

def size (r : Repository) : Nat :=
  r.known.size

/-- The files directly in a directory that have one of some extensions. -/
def filesIn (r : Repository) (dir : String) (extensions : List String) : List String :=
  r.paths.filter fun path =>
    RepoPath.parentDir path == dir
      && ((RepoPath.extension? path).map fun ext =>
            extensions.any (Text.eqIgnoreAsciiCase · ext)).getD false

/-- The files with a base name, in whatever directory. -/
def named (r : Repository) (name : String) : List String :=
  r.paths.filter fun path => RepoPath.baseName path == name

end Repository

end SourceAtlas
