import SourceAtlas.Json.Basic
import SourceAtlas.Model.File

/-!
# Model values as JSON

The members of an object stand in a fixed order. What only resolution needs (receivers, bindings,
targets) is not written, and enrichment is written only where there is some.
-/

namespace SourceAtlas

def Visibility.name : Visibility → String
  | .pub => "public"
  | .priv => "private"
  | .prot => "protected"
  | .internal => "internal"
  | .protectedInternal => "protected_internal"
  | .package => "package"
  | .global => "global"

def ClassKind.name : ClassKind → String
  | .cls => "class"
  | .interface => "interface"
  | .struct => "struct"
  | .enumeration => "enum"
  | .record => "record"
  | .trigger => "trigger"

def ClassModifier.name : ClassModifier → String
  | .abstract => "abstract"
  | .sealed => "sealed"
  | .static => "static"
  | .partialDecl => "partial"
  | .virtual => "virtual"

def FunctionKind.name : FunctionKind → String
  | .free => "free"
  | .method => "instance"
  | .static => "static"
  | .constructor => "constructor"

def ImportKind.name : ImportKind → String
  | .inRepository => "local"
  | .external => "external"
  | .unresolved => "unresolved"

/-- The members for what was added to a node. -/
def Enrichment.members (e : Enrichment) : List (String × Json) :=
  (e.description.map fun d => ("description", .str d)).toList
    ++ (e.roles.map fun rs => ("roles", .ofStrings rs)).toList
    ++ (e.metadata.map fun m => ("metadata", m)).toList

def Property.toJson (p : Property) : Json :=
  .obj [
    ("name", .str p.name),
    ("type", .ofOption p.typeName),
    ("visibility", .str p.visibility.name),
    ("isStatic", .bool p.isStatic),
    ("isFinal", .bool p.isFinal),
    ("hasDefault", .bool p.hasDefault)]

def ClassDecl.toJson (c : ClassDecl) : Json :=
  .obj ([
    ("name", .str c.name),
    ("qualifiedName", .str c.qualifiedName),
    ("kind", .str c.kind.name),
    ("visibility", .str c.visibility.name),
    ("modifiers", .arr (c.modifiers.map (.str ·.name))),
    ("superclass", .ofOption c.superclass),
    ("interfaces", .ofStrings c.interfaces),
    ("constructorParams", .ofStrings c.constructorParams),
    ("methods", .ofStrings c.methods),
    ("properties", .arr (c.properties.map (·.toJson))),
    ("startLine", .ofNat c.startLine),
    ("endLine", .ofNat c.endLine)] ++ c.enrichment.members)

def CallSite.toJson (c : CallSite) : Json :=
  .obj [("name", .str c.name), ("path", .ofOption c.path)]

/-- A function, with its calls written as `call` says. -/
def FunctionDecl.toJsonWith (call : CallSite → Json) (f : FunctionDecl) : Json :=
  .obj ([
    ("name", .str f.name),
    ("kind", .str f.kind.name),
    ("visibility", .str f.visibility.name)]
    ++ (f.className.map fun c => ("className", .str c)).toList
    ++ [
    ("params", .ofStrings f.params),
    ("startLine", .ofNat f.startLine),
    ("endLine", .ofNat f.endLine),
    ("calls", .arr (f.calls.map call))] ++ f.enrichment.members)

def FunctionDecl.toJson (f : FunctionDecl) : Json :=
  f.toJsonWith CallSite.toJson

def Import.toJson (i : Import) : Json :=
  .obj [
    ("source", .str i.source),
    ("kind", .str i.kind.name),
    ("path", .ofOption i.path)]

def FileRecord.toJson (f : FileRecord) : Json :=
  .obj ([
    ("path", .str f.path),
    ("language", .str f.language),
    ("lines", .ofNat f.lines),
    ("imports", .arr (f.imports.map (·.toJson))),
    ("importFiles", .ofStrings f.importFiles),
    ("externalImports", .ofStrings f.externalImports),
    ("classes", .arr (f.classes.map (·.toJson))),
    ("functions", .arr (f.functions.map (·.toJson)))] ++ f.enrichment.members)

end SourceAtlas
