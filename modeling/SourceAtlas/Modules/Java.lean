import SourceAtlas.RepoPath
import SourceAtlas.Text.Basic

/-!
# Java packages

The package of a file that declares none is inferred from its directory, below a source root.
-/

namespace SourceAtlas.JavaPackage

/-- Directories below which packages start. -/
def sourceRoots : List String :=
  ["src/main/java", "src/test/java", "src/main/kotlin", "src"]

/-- The part of a directory below a source root. -/
def below? (dir root : String) : Option String :=
  if dir == root then some ""
  else (Text.splitFirst? dir (root ++ "/")).map (·.2)

/-- The package that the directory of a file stands for. -/
def inferred (path : String) : String :=
  let dir := RepoPath.parentDir path
  Text.replaceChar '/' '.' ((sourceRoots.findSome? (below? dir)).getD dir)

end SourceAtlas.JavaPackage
