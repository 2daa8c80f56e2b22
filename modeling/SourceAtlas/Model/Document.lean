import SourceAtlas.Config.Basic
import SourceAtlas.Instant
import SourceAtlas.Json.Print
import SourceAtlas.Json.Read
import SourceAtlas.Model.Decode
import SourceAtlas.Model.Project

/-!
# The document

Everything that is known of a repository: its source files, and the data of the project as a whole.
A document is kept as JSON text. An older form of that text has the files only.
-/

namespace SourceAtlas

/-- The data of the project as a whole. -/
structure ProjectData where
  name : String
  generatedAt : Instant
  totalFiles : Nat := 0
  totalClasses : Nat := 0
  totalFunctions : Nat := 0
  totalLines : Nat := 0
  totalCalls : Nat := 0
  resolvedCalls : Nat := 0
  /-- The counts by the names of the languages. -/
  languages : Dict LanguageSummary := Dict.empty
  buildTools : List BuildTool := []
  dependencies : List Dependency := []
  configFiles : List ConfigFile := []

structure Document where
  project : ProjectData
  files : List FileRecord

namespace Document

/-- The first file with a path. -/
def file? (d : Document) (path : String) : Option FileRecord :=
  d.files.find? (·.path == path)

/-- The files that are still to be enriched. -/
def pendingEnrichment (d : Document) : List FileRecord :=
  d.files.filter (·.needsEnrichment)

end Document

/-! ### Writing -/

def BuildTool.toJson (t : BuildTool) : Json :=
  .obj [("name", .str t.name), ("file", .str t.file)]

def Dependency.toJson (d : Dependency) : Json :=
  .obj [
    ("name", .str d.name),
    ("version", .ofOption d.version),
    ("ecosystem", .str d.ecosystem),
    ("file", .str d.file)]

def ConfigFile.toJson (f : ConfigFile) : Json :=
  .obj [("path", .str f.path), ("kind", .str f.kind), ("metadata", f.metadata)]

def LanguageSummary.toJson (s : LanguageSummary) : Json :=
  .obj [
    ("files", .ofNat s.files),
    ("classes", .ofNat s.classes),
    ("functions", .ofNat s.functions),
    ("failedFiles", .ofNat s.failedFiles),
    ("unchangedFiles", .ofNat s.unchangedFiles)]

def ProjectData.toJson (p : ProjectData) : Json :=
  .obj [
    ("name", .str p.name),
    ("generatedAt", .str p.generatedAt.toText),
    ("totalFiles", .ofNat p.totalFiles),
    ("totalClasses", .ofNat p.totalClasses),
    ("totalFunctions", .ofNat p.totalFunctions),
    ("totalLines", .ofNat p.totalLines),
    ("totalCalls", .ofNat p.totalCalls),
    ("resolvedCalls", .ofNat p.resolvedCalls),
    ("languages", .obj (p.languages.map (·.toJson)).entries),
    ("buildTools", .arr (p.buildTools.map (·.toJson))),
    ("dependencies", .arr (p.dependencies.map (·.toJson))),
    ("configFiles", .arr (p.configFiles.map (·.toJson)))]

namespace Document

def toJson (d : Document) : Json :=
  .obj [("projectMetaData", d.project.toJson), ("files", .arr (d.files.map (·.toJson)))]

/-- The text of a document in the form that the settings ask for. -/
def toText (o : OutputConfig) (d : Document) : String :=
  let v := if o.legacyArray then .arr (d.files.map (·.toJson)) else d.toJson
  if o.pretty then v.pretty else v.compact

end Document

/-! ### Reading -/

open Json (Slot)

def BuildTool.ofJson? (v : Json) : Option BuildTool := do
  let get ← v.recordFields? ["name", "file"]
  return {
    name := ← (get "name").required Json.asString?
    file := ← (get "file").required Json.asString? }

def Dependency.ofJson? (v : Json) : Option Dependency := do
  let get ← v.recordFields? ["name", "version", "ecosystem", "file"]
  return {
    name := ← (get "name").required Json.asString?
    version := ← (get "version").optional Json.asString?
    ecosystem := ← (get "ecosystem").required Json.asString?
    file := ← (get "file").required Json.asString? }

def ConfigFile.ofJson? (v : Json) : Option ConfigFile := do
  let get ← v.recordFields? ["path", "kind", "metadata"]
  return {
    path := ← (get "path").required Json.asString?
    kind := ← (get "kind").required Json.asString?
    metadata := ← (get "metadata").orElse (fun v => some v.canonical) .null }

def LanguageSummary.ofJson? (v : Json) : Option LanguageSummary := do
  let get ← v.recordFields? ["files", "classes", "functions", "failedFiles", "unchangedFiles"]
  return {
    files := ← (get "files").required Json.count?
    classes := ← (get "classes").required Json.count?
    functions := ← (get "functions").required Json.count?
    failedFiles := ← (get "failedFiles").required Json.count?
    unchangedFiles := ← (get "unchangedFiles").required Json.count? }

/-- The summaries of an object by language; of a repeated one the last counts. -/
def LanguageSummary.dictOfJson? : Json → Option (Dict LanguageSummary)
  | .obj members => do
    let entries ← members.mapM fun (name, v) => (ofJson? v).map (name, ·)
    return Dict.ofList entries
  | _ => none

def ProjectData.ofJson? (v : Json) : Option ProjectData := do
  let get ← v.recordFields? [
    "name", "generatedAt", "totalFiles", "totalClasses", "totalFunctions", "totalLines",
    "totalCalls", "resolvedCalls", "languages", "buildTools", "dependencies", "configFiles"]
  return {
    name := ← (get "name").required Json.asString?
    generatedAt := ← (get "generatedAt").required fun v => v.asString?.bind Instant.read?
    totalFiles := ← (get "totalFiles").required Json.count?
    totalClasses := ← (get "totalClasses").required Json.count?
    totalFunctions := ← (get "totalFunctions").required Json.count?
    totalLines := ← (get "totalLines").required Json.count?
    totalCalls := ← (get "totalCalls").required Json.count?
    resolvedCalls := ← (get "resolvedCalls").required Json.count?
    languages := ← (get "languages").orElse LanguageSummary.dictOfJson? Dict.empty
    buildTools := ← (get "buildTools").orElse (Json.list? BuildTool.ofJson?) []
    dependencies := ← (get "dependencies").orElse (Json.list? Dependency.ofJson?) []
    configFiles := ← (get "configFiles").orElse (Json.list? ConfigFile.ofJson?) [] }

namespace Document

def ofJson? (v : Json) : Option Document := do
  let get ← v.recordFields? ["projectMetaData", "files"]
  return {
    project := ← (get "projectMetaData").required ProjectData.ofJson?
    files := ← (get "files").required (Json.list? FileRecord.ofJson?) }

/-- What a text of either form holds. -/
inductive Stored where
  | document (d : Document)
  /-- The older form. -/
  | files (fs : List FileRecord)

/-- Reads a value of either form; the current form is tried first. -/
def Stored.ofJson? (v : Json) : Option Stored :=
  ((Document.ofJson? v).map .document).or ((Json.list? FileRecord.ofJson? v).map .files)

/-- Reads a text of either form. -/
def Stored.read? (text : String) : Option Stored :=
  (Json.read? text).bind ofJson?

/-- The document that is stored. Files alone get project data without a name, as of `now`. -/
def Stored.toDocument (now : Instant) : Stored → Document
  | .document d => d
  | .files fs => { project := { name := "", generatedAt := now }, files := fs }

/-- Reads a document from a text of either form; one that has no time of its own gets `now`. -/
def read? (now : Instant) (text : String) : Option Document :=
  (Stored.read? text).map (·.toDocument now)

end Document

end SourceAtlas
