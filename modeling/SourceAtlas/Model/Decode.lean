import SourceAtlas.Json.Record
import SourceAtlas.Model.Encode

/-!
# Model values from JSON

What `Encode` writes can be read again. Lists may be left out, and then are empty.
-/

namespace SourceAtlas

open Json (Slot)

/-! ### Choices -/

def Visibility.all : List Visibility :=
  [.pub, .priv, .prot, .internal, .protectedInternal, .package, .global]

def Visibility.ofName? (s : String) : Option Visibility :=
  all.find? (·.name == s)

def ClassKind.all : List ClassKind :=
  [.cls, .interface, .struct, .enumeration, .record, .trigger]

def ClassKind.ofName? (s : String) : Option ClassKind :=
  all.find? (·.name == s)

def ClassModifier.all : List ClassModifier :=
  [.abstract, .sealed, .static, .partialDecl, .virtual]

def ClassModifier.ofName? (s : String) : Option ClassModifier :=
  all.find? (·.name == s)

def FunctionKind.all : List FunctionKind :=
  [.free, .method, .static, .constructor]

def FunctionKind.ofName? (s : String) : Option FunctionKind :=
  all.find? (·.name == s)

def ImportKind.all : List ImportKind :=
  [.inRepository, .external, .unresolved]

def ImportKind.ofName? (s : String) : Option ImportKind :=
  all.find? (·.name == s)

/-! ### Nodes -/

/-- A line number, which 32 bits hold. -/
def lineNumber? (v : Json) : Option Nat :=
  v.natUpTo? 0xFFFFFFFF

/-- The keys for what was added to a node; they stand among the members of the node itself. -/
def Enrichment.keys : List String :=
  ["description", "roles", "metadata"]

def Enrichment.ofFields? (get : String → Slot) : Option Enrichment := do
  return {
    description := ← (get "description").optional Json.asString?
    roles := ← (get "roles").optional Json.strings?
    metadata := ← (get "metadata").optional fun v => some v.canonical }

def Property.ofJson? (v : Json) : Option Property := do
  let get ← v.recordFields? ["name", "type", "visibility", "isStatic", "isFinal", "hasDefault"]
  return {
    name := ← (get "name").required Json.asString?
    typeName := ← (get "type").optional Json.asString?
    visibility := ← (get "visibility").required (Json.choice? Visibility.ofName?)
    isStatic := ← (get "isStatic").required Json.bool?
    isFinal := ← (get "isFinal").required Json.bool?
    hasDefault := ← (get "hasDefault").required Json.bool? }

def ClassDecl.ofJson? (v : Json) : Option ClassDecl := do
  let get ← v.objectFields? (
    ["name", "qualifiedName", "kind", "visibility", "modifiers", "superclass", "interfaces",
     "constructorParams", "methods", "properties", "startLine", "endLine"] ++ Enrichment.keys)
  return {
    name := ← (get "name").required Json.asString?
    qualifiedName := ← (get "qualifiedName").required Json.asString?
    kind := ← (get "kind").required (Json.choice? ClassKind.ofName?)
    visibility := ← (get "visibility").required (Json.choice? Visibility.ofName?)
    modifiers := ← (get "modifiers").orElse (Json.list? (Json.choice? ClassModifier.ofName?)) []
    superclass := ← (get "superclass").optional Json.asString?
    interfaces := ← (get "interfaces").orElse Json.strings? []
    constructorParams := ← (get "constructorParams").orElse Json.strings? []
    methods := ← (get "methods").orElse Json.strings? []
    properties := ← (get "properties").orElse (Json.list? Property.ofJson?) []
    startLine := ← (get "startLine").required lineNumber?
    endLine := ← (get "endLine").required lineNumber?
    enrichment := ← Enrichment.ofFields? get }

def CallSite.ofJson? (v : Json) : Option CallSite := do
  let get ← v.recordFields? ["name", "path"]
  return {
    name := ← (get "name").required Json.asString?
    path := ← (get "path").optional Json.asString? }

def FunctionDecl.ofJson? (v : Json) : Option FunctionDecl := do
  let get ← v.objectFields? (
    ["name", "kind", "visibility", "className", "params", "startLine", "endLine", "calls"]
      ++ Enrichment.keys)
  return {
    name := ← (get "name").required Json.asString?
    kind := ← (get "kind").required (Json.choice? FunctionKind.ofName?)
    visibility := ← (get "visibility").required (Json.choice? Visibility.ofName?)
    className := ← (get "className").optional Json.asString?
    params := ← (get "params").orElse Json.strings? []
    startLine := ← (get "startLine").required lineNumber?
    endLine := ← (get "endLine").required lineNumber?
    calls := ← (get "calls").orElse (Json.list? CallSite.ofJson?) []
    enrichment := ← Enrichment.ofFields? get }

def Import.ofJson? (v : Json) : Option Import := do
  let get ← v.recordFields? ["source", "kind", "path"]
  return {
    source := ← (get "source").required Json.asString?
    kind := ← (get "kind").required (Json.choice? ImportKind.ofName?)
    path := ← (get "path").optional Json.asString? }

def FileRecord.ofJson? (v : Json) : Option FileRecord := do
  let get ← v.objectFields? (
    ["path", "language", "lines", "imports", "importFiles", "externalImports", "classes",
     "functions"] ++ Enrichment.keys)
  return {
    path := ← (get "path").required Json.asString?
    language := ← (get "language").required Json.asString?
    lines := ← (get "lines").required Json.count?
    imports := ← (get "imports").orElse (Json.list? Import.ofJson?) []
    importFiles := ← (get "importFiles").orElse Json.strings? []
    externalImports := ← (get "externalImports").orElse Json.strings? []
    classes := ← (get "classes").orElse (Json.list? ClassDecl.ofJson?) []
    functions := ← (get "functions").orElse (Json.list? FunctionDecl.ofJson?) []
    enrichment := ← Enrichment.ofFields? get }

end SourceAtlas
