import SourceAtlas.Config.Basic
import SourceAtlas.Json.Basic

/-!
# Settings as text

The settings as a JSON value, and as a TOML text in which every setting stands on its own line and
every item of a list on a line below it.
-/

namespace SourceAtlas

namespace Config

def toJson (c : Config) : Json :=
  .obj [
    ("scan", .obj [
      ("languages", .ofStrings (c.scan.languages.map (·.name))),
      ("exclude_dirs", .ofStrings c.scan.excludeDirs),
      ("exclude_patterns", .ofStrings c.scan.excludePatterns),
      ("max_file_size", .ofNat c.scan.maxFileSize)]),
    ("parallel", .obj [
      ("enabled", .bool c.parallel.enabled),
      ("workers", (c.parallel.workers.map Json.ofNat).getD .null),
      ("min_files", .ofNat c.parallel.minFiles)]),
    ("output", .obj [
      ("legacy_array", .bool c.output.legacyArray),
      ("pretty", .bool c.output.pretty)])]

/-! ### TOML -/

/-- A line that sets a setting to a value. -/
def settingLine (name value : String) : String :=
  name ++ " = " ++ value ++ "\n"

/-- A text in quotes. Names and patterns of files need no escapes but for these two. -/
def quote (s : String) : String :=
  let escape (c : Char) : List Char := if c == '"' || c == '\\' then ['\\', c] else [c]
  "\"" ++ String.ofList (s.toList.flatMap escape) ++ "\""

/-- The lines that set a setting to a list. -/
def listLines (name : String) (items : List String) : String :=
  if items.isEmpty then settingLine name "[]"
  else
    let lines := items.map fun item => "    " ++ quote item ++ ",\n"
    name ++ " = [\n" ++ Text.join "" lines ++ "]\n"

def boolText (b : Bool) : String :=
  if b then "true" else "false"

/-- The settings as TOML text. -/
def toToml (c : Config) : String :=
  let workers : List String :=
    c.parallel.workers.toList.map fun n => settingLine "workers" (Text.ofNat n)
  Text.join "" ([
    "[scan]\n",
    listLines "languages" (c.scan.languages.map (·.name)),
    listLines "exclude_dirs" c.scan.excludeDirs,
    listLines "exclude_patterns" c.scan.excludePatterns,
    settingLine "max_file_size" (Text.ofNat c.scan.maxFileSize),
    "\n[parallel]\n",
    settingLine "enabled" (boolText c.parallel.enabled)]
    ++ workers ++ [
    settingLine "min_files" (Text.ofNat c.parallel.minFiles),
    "\n[output]\n",
    settingLine "legacy_array" (boolText c.output.legacyArray),
    settingLine "pretty" (boolText c.output.pretty)])

end Config

end SourceAtlas
