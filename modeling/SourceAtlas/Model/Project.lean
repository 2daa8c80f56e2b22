import SourceAtlas.Dict
import SourceAtlas.Json.Basic

/-!
# What is known of a project as a whole

The parts of the project data that do not belong to one source file.
-/

namespace SourceAtlas

/-- A build tool and the manifest that shows its use. -/
structure BuildTool where
  name : String
  file : String
  deriving DecidableEq, Repr

/-- A package that the project depends on. -/
structure Dependency where
  name : String
  version : Option String
  /-- The package universe in which the name is meant. -/
  ecosystem : String
  /-- The manifest that declares it. -/
  file : String
  deriving DecidableEq, Repr

/-- A configuration file with what is known about it. -/
structure ConfigFile where
  path : String
  kind : String
  metadata : Json := .null

/-- The counts for the files of one language. -/
structure LanguageSummary where
  files : Nat := 0
  classes : Nat := 0
  functions : Nat := 0
  failedFiles : Nat := 0
  unchangedFiles : Nat := 0
  deriving DecidableEq, Repr

end SourceAtlas
