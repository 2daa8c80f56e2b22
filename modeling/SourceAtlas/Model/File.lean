import SourceAtlas.Model.Entity

/-!
# Files and their imports
-/

namespace SourceAtlas

inductive ImportKind where
  /-- Found in the repository. -/
  | inRepository
  /-- A package or namespace from elsewhere. -/
  | external
  /-- A relative reference to a file that does not exist. -/
  | unresolved
  deriving DecidableEq, Repr, Inhabited

/-- A name that an import introduces into the importing file. -/
structure ImportBinding where
  /-- The name as it is used: `h` in `import { helper as h }`. -/
  localName : String
  /-- The symbol imported; none if the name stands for the module or package itself. -/
  symbol : Option String := none
  deriving DecidableEq, Repr, Inhabited

/-- One import statement, or one imported module of a statement that imports several. -/
structure Import where
  /-- The module specifier, package path or namespace as written. -/
  source : String
  kind : ImportKind := .unresolved
  /-- The first target. -/
  path : Option String := none
  bindings : List ImportBinding := []
  /-- Every file that the import brings in. -/
  targets : List String := []
  /-- Whether all names of the target are imported. -/
  wildcard : Bool := false
  /-- Whether the members of a type are imported. -/
  isStatic : Bool := false
  deriving DecidableEq, Repr, Inhabited

namespace Import

/-- The import with its targets: in the repository if there are any. -/
def resolved (i : Import) (targets : List String) : Import :=
  { i with
    path := targets.head?
    kind := if targets.isEmpty then .external else .inRepository
    targets := targets }

/-- The import without a target. -/
def without (i : Import) (kind : ImportKind) : Import :=
  { i with kind := kind, path := none, targets := [] }

/-- The import as the document keeps it, without what only resolution needs. -/
def stored (i : Import) : Import :=
  { source := i.source, kind := i.kind, path := i.path }

end Import

/-- A source file and everything extracted from it. -/
structure FileRecord where
  /-- The repository path, which is the key. -/
  path : String
  language : String
  lines : Nat
  imports : List Import := []
  importFiles : List String := []
  externalImports : List String := []
  classes : List ClassDecl := []
  functions : List FunctionDecl := []
  enrichment : Enrichment := {}
  deriving Repr, Inhabited

namespace FileRecord

/-- The targets of the imports found in the repository, first seen first, without `path` itself. -/
def importTargets (path : String) (imports : List Import) : List String :=
  ((imports.filter (·.kind == .inRepository)).flatMap (·.targets)).foldl
    (fun seen target => if target == path then seen else addNew seen target) []

/-- The sources of the imports not found in the repository, first seen first. -/
def externalSources (imports : List Import) : List String :=
  ((imports.filter (·.kind != .inRepository)).map (·.source)).foldl addNew []

/-- The file with both import lists drawn from its imports. -/
def collectImports (f : FileRecord) : FileRecord :=
  { f with
    importFiles := importTargets f.path f.imports
    externalImports := externalSources f.imports }

/-- Whether the file or any of its classes and functions is still to be enriched. -/
def needsEnrichment (f : FileRecord) : Bool :=
  f.enrichment.isMissing || f.classes.any (·.enrichment.isMissing)
    || f.functions.any (·.enrichment.isMissing)

/-- The calls of all functions. -/
def calls (f : FileRecord) : List CallSite :=
  f.functions.flatMap (·.calls)

def callCount (f : FileRecord) : Nat :=
  f.calls.length

/-- The number of calls whose callee was found. -/
def resolvedCallCount (f : FileRecord) : Nat :=
  (f.calls.filter (·.path.isSome)).length

end FileRecord

end SourceAtlas
