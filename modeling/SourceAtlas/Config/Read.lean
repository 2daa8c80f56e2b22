import SourceAtlas.Config.Basic
import SourceAtlas.Toml.Read

/-!
# Settings from TOML text

What a text does not set keeps its default, and what no setting is called is ignored. A group of
settings may also be written as an array of its values in their order.
-/

namespace SourceAtlas

namespace Config

/--
The values for the settings of a group by their names. An array gives them in order; a date has none
of them.
-/
def settings? (names : List String) : Toml → Option (String → Option Toml)
  | .table entries => some fun name => entries.lookup name
  | .arr items => some fun name => (names.zip items).lookup name
  | .moment => some fun _ => none
  | _ => none

/-- Reads a setting, or keeps its default where none is given. -/
def setting {α : Type} (read? : Toml → Option α) (default : α) : Option Toml → Option α
  | none => some default
  | some v => read? v

def bool? : Toml → Option Bool
  | .bool b => some b
  | _ => none

def nat? : Toml → Option Nat
  | .int i => if 0 ≤ i then some i.toNat else none
  | _ => none

def strings? (v : Toml) : Option (List String) :=
  v.asArray?.bind fun items => items.mapM Toml.asString?

/-- A language by its name, or by a table that has nothing but an empty entry of that name. -/
def language? : Toml → Option Language
  | .str name => Language.ofName? name
  | .table [(name, .table [])] => Language.ofName? name
  | .table [(name, .arr [])] => Language.ofName? name
  | _ => none

def languages? (v : Toml) : Option (List Language) :=
  v.asArray?.bind fun items => items.mapM language?

def scan? (v : Toml) : Option ScanConfig := do
  let get ← settings? ["languages", "exclude_dirs", "exclude_patterns", "max_file_size"] v
  return {
    languages := ← setting languages? ScanConfig.default.languages (get "languages")
    excludeDirs := ← setting strings? ScanConfig.default.excludeDirs (get "exclude_dirs")
    excludePatterns :=
      ← setting strings? ScanConfig.default.excludePatterns (get "exclude_patterns")
    maxFileSize := ← setting nat? ScanConfig.default.maxFileSize (get "max_file_size") }

def parallel? (v : Toml) : Option ParallelConfig := do
  let get ← settings? ["enabled", "workers", "min_files"] v
  return {
    enabled := ← setting bool? ParallelConfig.default.enabled (get "enabled")
    workers := ← setting (fun v => (nat? v).map some) ParallelConfig.default.workers (get "workers")
    minFiles := ← setting nat? ParallelConfig.default.minFiles (get "min_files") }

def output? (v : Toml) : Option OutputConfig := do
  let get ← settings? ["legacy_array", "pretty"] v
  return {
    legacyArray := ← setting bool? OutputConfig.default.legacyArray (get "legacy_array")
    pretty := ← setting bool? OutputConfig.default.pretty (get "pretty") }

def ofToml? (v : Toml) : Option Config := do
  let get ← settings? ["scan", "parallel", "output"] v
  return {
    scan := ← setting scan? ScanConfig.default (get "scan")
    parallel := ← setting parallel? ParallelConfig.default (get "parallel")
    output := ← setting output? OutputConfig.default (get "output") }

/-- The settings that a text makes. -/
def read? (text : String) : Option Config :=
  (Toml.read? text).bind ofToml?

end Config

end SourceAtlas
