import SourceAtlas.Index.Basic

/-!
# Resolving imports

Each module system has its own way from the source of an import to files. An import without a file
is external, or unresolved if its source is a relative reference.
-/

namespace SourceAtlas.Resolve

/-! ### Scripts -/

/-- Extensions tried, in order, for a specifier without one. -/
def scriptExtensions : List String := ["ts", "tsx", "js", "jsx", "mjs", "cjs"]

/-- Extensions of compiled files, with those of the sources they are compiled from. -/
def compiledExtensions : List (String × String) :=
  [(".js", ".ts"), (".js", ".tsx"), (".jsx", ".tsx"), (".mjs", ".mts")]

/-- The paths of the file that a module base may name, in order of preference. -/
def scriptCandidates (base : String) : List String :=
  let sources := compiledExtensions.filterMap fun (compiled, source) =>
    (Text.stripSuffix? base compiled).map (· ++ source)
  base :: sources
    ++ scriptExtensions.map (base ++ "." ++ ·)
    ++ scriptExtensions.map (base ++ "/index." ++ ·)

/-- The file that a module base names. -/
def scriptAt? (r : Repository) (base : String) : Option String :=
  (scriptCandidates base).find? r.contains

/-- Whether a specifier starts from the importing file or from the root. -/
def isRelativeScript (source : String) : Bool :=
  Text.startsWith source "." || Text.startsWith source "/"

/-- The base that a relative specifier names from a file. -/
def scriptBase? (importer source : String) : Option String :=
  RepoPath.join? (if Text.startsWith source "/" then "" else RepoPath.parentDir importer) source

/-- The file of a module specifier: relative, or through the aliases of the repository. -/
def scriptTarget? (ix : Index) (importer source : String) : Option String :=
  if isRelativeScript source then
    (scriptBase? importer source).bind (scriptAt? ix.repository)
  else do
    ((← ix.scriptPaths).candidates source).findSome? (scriptAt? ix.repository)

/-! ### Python -/

/-- Follows `..` a number of times from a directory. -/
def climb? : Nat → String → Option String
  | 0, dir => some dir
  | n + 1, dir => (RepoPath.join? dir "..").bind (climb? n)

/-- The bases that the source of a Python import may name. -/
def pythonBases (importer source : String) : List String :=
  let dots := source.toList.takeWhile (· == '.')
  let modulePath :=
    Text.replaceChar '.' '/' (String.ofList (source.toList.dropWhile (· == '.')))
  match dots with
  | _ :: more =>
    ((climb? more.length (RepoPath.parentDir importer)).bind (RepoPath.join? · modulePath)).toList
  | [] => ["", "src"].filterMap (RepoPath.join? · modulePath)

/-- The files for a base: the module or package, and imported names that are modules below it. -/
def pythonTargetsAt (r : Repository) (i : Import) (base : String) : List String :=
  let isPackage := i.source.toList.all (· == '.')
  let moduleFile := base ++ ".py"
  let package := (RepoPath.join? base "__init__.py").getD ""
  let own :=
    if !isPackage && r.contains moduleFile then [moduleFile]
    else if r.contains package then [package]
    else []
  let below := i.bindings.filterMap fun b => do RepoPath.join? base ((← b.symbol) ++ ".py")
  (below.filter r.contains).foldl addNew own

/-- The files of a Python import: those of the first base that has some. -/
def pythonTargets (ix : Index) (importer : String) (i : Import) : List String :=
  (((pythonBases importer i.source).map (pythonTargetsAt ix.repository i)).find?
    (!·.isEmpty)).getD []

/-! ### Go -/

/-- The way from a module to a package of it. -/
def belowModule? (m : GoModule) (source : String) : Option String :=
  if source == m.path then some "" else Text.stripPrefix? source (m.path ++ "/")

/-- The files of a package in a module, without its tests. -/
def goFilesIn (r : Repository) (m : GoModule) (source : String) : List String :=
  match (belowModule? m source).bind (RepoPath.join? m.dir) with
  | some dir => (r.filesIn dir ["go"]).filter (!Text.endsWith · "_test.go")
  | none => []

/-- The files of the package with an import path: those of the first module that has some. -/
def goTargets (ix : Index) (source : String) : List String :=
  ((ix.goModules.map (goFilesIn ix.repository · source)).find? (!·.isEmpty)).getD []

/-! ### Java and C# -/

/-- The file of a class, as a list. -/
def classFile (ix : Index) (qualified : String) : List String :=
  ((ix.classQualified? qualified).map (·.path)).toList

/-- The files of a Java import: of a class, of a package, or of the class of a static member. -/
def javaTargets (ix : Index) (i : Import) : List String :=
  match Text.stripSuffix? i.source ".*" with
  | some package => if i.isStatic then classFile ix package else ix.filesInNamespace package
  | none =>
    match classFile ix i.source, Text.splitLast? i.source '.' with
    | [], some (owner, _) => if i.isStatic then classFile ix owner else []
    | found, _ => found

/-- The files of a using directive: of a class, or of a namespace. -/
def csharpTargets (ix : Index) (i : Import) : List String :=
  let ofClass :=
    if i.isStatic || !i.bindings.isEmpty then classFile ix i.source else []
  if !ofClass.isEmpty then ofClass
  else if i.isStatic then []
  else ix.filesInNamespace i.source

/-! ### All languages -/

/-- The files of an import. -/
def importTargets (ix : Index) (importer : String) (i : Import) : List String :=
  match ix.language with
  | .typescript => (scriptTarget? ix importer i.source).toList
  | .python => pythonTargets ix importer i
  | .go => goTargets ix i.source
  | .java => javaTargets ix i
  | .csharp => csharpTargets ix i
  | .apex => []

/-- Whether a source is a relative reference. -/
def isRelative (l : Language) (source : String) : Bool :=
  match l with
  | .typescript => isRelativeScript source
  | .python => Text.startsWith source "."
  | _ => false

/-- Resolves an import of a file. -/
def resolveImport (ix : Index) (importer : String) (i : Import) : Import :=
  match importTargets ix importer i with
  | [] => i.without (if isRelative ix.language i.source then .unresolved else .external)
  | targets => i.resolved targets

end SourceAtlas.Resolve
