import SourceAtlas.Config.Read
import SourceAtlas.Text.Digits

/-!
# Where settings come from

The file of the project comes first, then the one of the user, then the defaults. Variables of the
environment override whichever it was. Settings from a file have to be valid.
-/

namespace SourceAtlas

/-- The variables of the environment. -/
abbrev Environment := Dict String

namespace Config

/-- The languages of a list divided by commas; blank entries do not count. -/
def languageList (text : String) : Except ConfigError (List Language) :=
  ((Text.splitOn ',' text).filter fun s => !(Text.trim s).isEmpty).mapM fun s =>
    (Language.parse s).mapError .unknownLanguage

/-- Whether a text turns something on. -/
def isOn (text : String) : Bool :=
  ["1", "true", "yes", "on"].contains (Text.asciiLower (Text.trim text))

/-- The number that a variable sets; one that is no number sets nothing. -/
def numberIn? (env : Environment) (name : String) : Option Nat :=
  (env.find? name).bind Text.unsigned?

/-- The settings with what the environment overrides. -/
def override (env : Environment) (c : Config) : Except ConfigError Config := do
  let languages ←
    match env.find? "ONTOLOGY_LANGUAGES" with
    | some text => languageList text
    | none => .ok c.scan.languages
  return { c with
    scan := { c.scan with
      languages
      maxFileSize := (numberIn? env "ONTOLOGY_MAX_FILE_SIZE").getD c.scan.maxFileSize }
    parallel := {
      enabled := ((env.find? "ONTOLOGY_PARALLEL").map isOn).getD c.parallel.enabled
      workers := (numberIn? env "ONTOLOGY_WORKERS").or c.parallel.workers
      minFiles := (numberIn? env "ONTOLOGY_MIN_PARALLEL_FILES").getD c.parallel.minFiles } }

/-- The settings of a file with a text, or of one that cannot be read. -/
def ofFile (env : Environment) (text : Option String) : Except ConfigError Config := do
  match text with
  | none => .error .unreadable
  | some text =>
    match read? text with
    | none => .error .malformed
    | some c =>
      let c ← c.override env
      c.validate
      return c

/-- The settings to work with, given the texts of the files that there are. -/
def load (env : Environment) (project user : Option String) : Except ConfigError Config :=
  match project.or user with
  | some text => ofFile env (some text)
  | none => Config.default.override env

end Config

end SourceAtlas
