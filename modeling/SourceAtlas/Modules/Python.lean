import SourceAtlas.RepoPath
import SourceAtlas.Text.Basic

/-!
# Python modules
-/

namespace SourceAtlas.PythonModule

/-- The module of a file: `pkg.sub.mod`, where `__init__` stands for its package. -/
def ofPath (path : String) : String :=
  let stem := (Text.stripSuffix? path ".py").getD path
  let stem := (Text.stripSuffix? stem "/__init__").getD stem
  if stem == "__init__" then "" else Text.replaceChar '/' '.' stem

/-- The package that a file belongs to. -/
def packageOf (path : String) : String :=
  let name := ofPath path
  if RepoPath.baseName path == "__init__.py" then name
  else ((Text.splitLast? name '.').map (·.1)).getD ""

/-- The names below which the classes of a file are known: its module, with and without `src`. -/
def classPrefixes (path : String) : List String :=
  let name := ofPath path
  name :: (Text.stripPrefix? name "src.").toList

end SourceAtlas.PythonModule
