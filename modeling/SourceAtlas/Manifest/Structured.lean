import SourceAtlas.Json.Read
import SourceAtlas.Manifest.Requirement
import SourceAtlas.Toml.Read
import SourceAtlas.Xml.Event

/-!
# Manifests in JSON, TOML and XML

A text that is not in its format requires nothing; of XML, what stands before the first fault
counts.
-/

namespace SourceAtlas.Manifest

/-! ### JSON -/

/-- The requirements of the sections of an npm package, each in the order of the names. -/
def ofNpmPackage (text : String) : List Requirement :=
  match Json.read? text with
  | none => []
  | some doc =>
    ["dependencies", "devDependencies"].flatMap fun key =>
      match (doc.canonical).member? key with
      | some (.obj members) => members.map fun (name, v) => { name, version := v.asString? }
      | _ => []

/-- The items of the array under a key. -/
def itemsOf (key : String) (v : Json) : List Json :=
  ((v.member? key).bind Json.asArray?).getD []

/-- The packages that the directories of a Salesforce project depend on. -/
def ofSalesforceProject (text : String) : List Requirement :=
  match Json.read? text with
  | none => []
  | some doc =>
    ((itemsOf "packageDirectories" doc).flatMap (itemsOf "dependencies")).filterMap fun v => do
      let name ← (v.member? "package").bind Json.asString?
      return { name, version := (v.member? "versionNumber").bind Json.asString? }

/-! ### TOML -/

/-- The requirements of a table from names to versions. The pin of Python itself is none. -/
def ofTable (table : Option Toml) : List Requirement :=
  (((table.bind Toml.asTable?).getD []).filter (·.1 != "python")).map fun (name, v) =>
    let version :=
      match v with
      | .str s => some s
      | v => (v.get? "version").bind Toml.asString?
    { name, version }

/-- What a Python project file requires, and whether it is one of Poetry. -/
def ofPythonProject (text : String) : List Requirement × Bool :=
  match Toml.read? text with
  | none => ([], false)
  | some doc =>
    let listed := (((doc.get? "project").bind (·.get? "dependencies")).bind Toml.asArray?).getD []
    let declared := (listed.filterMap Toml.asString?).filterMap Requirement.parse?
    match (doc.get? "tool").bind (·.get? "poetry") with
    | none => (declared, false)
    | some poetry => (declared ++ ofTable (poetry.get? "dependencies"), true)

/-- The packages of a Pipfile, then those for development. -/
def ofPipfile (text : String) : List Requirement :=
  match Toml.read? text with
  | none => []
  | some doc => ofTable (doc.get? "packages") ++ ofTable (doc.get? "dev-packages")

/-! ### Maven projects -/

/-- Where the reading of a Maven project stands. -/
structure MavenProgress where
  /-- The names of the elements that are open, the innermost first. -/
  path : List String := []
  group : Option String := none
  artifact : Option String := none
  version : Option String := none
  found : List Requirement := []

namespace MavenProgress

/-- The path of a dependency of the project itself, the innermost element first. -/
def dependencyPath : List String :=
  ["dependency", "dependencies", "project"]

/-- Takes in the text of a field of a dependency. -/
def setField (p : MavenProgress) (field value : String) : MavenProgress :=
  match field with
  | "groupId" => { p with group := some value }
  | "artifactId" => { p with artifact := some value }
  | "version" => { p with version := some value }
  | _ => p

/-- Lists a dependency when its element ends, if it has a group and an artifact. -/
def finishDependency (p : MavenProgress) : MavenProgress :=
  let found : List Requirement :=
    match p.group, p.artifact with
    | some group, some artifact =>
      p.found ++ [{ name := group ++ ":" ++ artifact, version := p.version }]
    | _, _ => p.found
  { path := p.path, found }

/-- Takes in one event: names of open elements come and go, a text belongs to the innermost. -/
def add (p : MavenProgress) : Xml.Event → MavenProgress
  | .start name _ => { p with path := Xml.localName name :: p.path }
  | .empty _ _ => p
  | .text content =>
    match p.path with
    | field :: path =>
      if path = dependencyPath then p.setField field (Text.trim content) else p
    | [] => p
  | .finish _ =>
    let p := if p.path = dependencyPath then p.finishDependency else p
    { p with path := p.path.tail }

end MavenProgress

/-- The direct dependencies of a Maven project, without managed ones and those of plugins. -/
def ofMavenProject (text : String) : List Requirement :=
  ((Xml.events text).foldl MavenProgress.add {}).found

/-! ### NuGet references -/

/-- Where the reading of package references stands. -/
structure NugetProgress where
  /-- The reference whose element is open. -/
  opened : Option Requirement := none
  /-- Whether the element for its version is open. -/
  inVersion : Bool := false
  found : List Requirement := []

/-- The names of the attributes for name and version, by the name of the element. -/
def referenceKeys? : String → Option (String × String)
  | "PackageReference" => some ("Include", "Version")
  | "package" => some ("id", "version")
  | _ => none

/-- The package that an element refers to. -/
def reference? (name : String) (attributes : List (String × String)) : Option Requirement := do
  let (nameKey, versionKey) ← referenceKeys? (Xml.localName name)
  let name ← Xml.attribute? nameKey attributes
  return { name, version := Xml.attribute? versionKey attributes }

/-- Takes in one event: a reference may be closed at once or hold its version in an element. -/
def NugetProgress.add (p : NugetProgress) : Xml.Event → NugetProgress
  | .empty name attributes => { p with found := p.found ++ (reference? name attributes).toList }
  | .start name attributes =>
    if p.opened.isSome then { p with inVersion := Xml.localName name == "Version" }
    else { p with opened := reference? name attributes }
  | .text content =>
    if p.inVersion then
      { p with opened := p.opened.map fun r => { r with version := some (Text.trim content) } }
    else p
  | .finish name =>
    if p.inVersion then { p with inVersion := false }
    else if (referenceKeys? (Xml.localName name)).isSome then
      { p with opened := none, found := p.found ++ p.opened.toList }
    else p

/--
The packages that a project refers to. The version is an attribute or an element of its own.
-/
def ofNugetReferences (text : String) : List Requirement :=
  ((Xml.events text).foldl NugetProgress.add {}).found

end SourceAtlas.Manifest
