import SourceAtlas.Dict
import SourceAtlas.Extraction
import SourceAtlas.Language
import SourceAtlas.Modules.Go
import SourceAtlas.Modules.Java
import SourceAtlas.Modules.Python
import SourceAtlas.Modules.Script
import SourceAtlas.Repository

/-!
# The reference index of a language

Everything the files of one language declare, found by name. Files are registered one after
another; the order of registration decides between entries of one name. Where a language folds
case, names are looked up by their lowercase form.
-/

namespace SourceAtlas

/-- A class as the index knows it. -/
structure ClassEntry where
  name : String
  qualifiedName : String
  path : String
  kind : ClassKind
  superclass : Option String
  interfaces : List String
  methods : List String
  deriving DecidableEq, Repr, Inhabited

/-- What tells classes apart: the file and the qualified name. -/
abbrev ClassKey := String × String

/-- The key of a class in a search through its hierarchy. -/
def ClassEntry.searchKey (c : ClassEntry) : ClassKey :=
  (c.path, c.qualifiedName)

/-- The entry of a class that a file declares. -/
def ClassEntry.ofDecl (path : String) (c : ClassDecl) : ClassEntry :=
  { name := c.name
    qualifiedName := c.qualifiedName
    path
    kind := c.kind
    superclass := c.superclass
    interfaces := c.interfaces
    methods := c.methods }

/-- A file in which a function name is declared. -/
structure MethodSite where
  /-- The class that has the method; none for a free function. -/
  className : Option String
  path : String
  isStatic : Bool
  deriving DecidableEq, Repr, Inhabited

/-- The site of a function that a file declares. -/
def MethodSite.ofDecl (path : String) (f : FunctionDecl) : MethodSite :=
  { className := f.className, path, isStatic := f.kind == .static || f.kind == .free }

structure Index where
  language : Language
  repository : Repository
  /-- The files in the order in which they were registered. -/
  files : List String := []
  /-- The place of each file in that order. -/
  positions : Dict Nat := Dict.empty
  /-- The namespace of each file that has one. -/
  namespaces : Dict String := Dict.empty
  /-- The classes in the order in which they were registered. -/
  classes : List ClassEntry := []
  /-- The slots of the classes of a name. -/
  slotsByName : Dict (List Nat) := Dict.empty
  /-- The slot of the first class registered under a qualified name. -/
  slotByQualified : Dict Nat := Dict.empty
  /-- The sites of a function name. -/
  sitesByName : Dict (List MethodSite) := Dict.empty
  /-- The types of the members of the classes of a name. -/
  memberTypes : Dict (Dict String) := Dict.empty
  /-- The files of a namespace. -/
  filesByNamespace : Dict (List String) := Dict.empty
  goModules : List GoModule := []
  scriptPaths : Option ScriptPaths := none

namespace Index

/-- The index before any file is registered. -/
def start (language : Language) (repository : Repository) : Index :=
  { language, repository
    goModules := if language = .go then GoModule.ofRepository repository else []
    scriptPaths := if language = .typescript then ScriptPaths.ofRepository? repository else none }

/-! ### Look-up -/

/-- The form of a name under which it is looked up. -/
def key (ix : Index) (name : String) : String :=
  if ix.language.foldsCase then Text.lower name else name

/-- Whether two names are the same for the language. -/
def sameName (ix : Index) (a b : String) : Bool :=
  if ix.language.foldsCase then Text.eqIgnoreAsciiCase a b else a == b

def containsFile (ix : Index) (path : String) : Bool :=
  ix.files.contains path

/-- The place of a file in the order of registration; a file that is not registered comes last. -/
def position (ix : Index) (path : String) : Nat :=
  (ix.positions.find? path).getD ix.files.length

def namespaceOf? (ix : Index) (path : String) : Option String :=
  ix.namespaces.find? path

def filesInNamespace (ix : Index) (namespaceName : String) : List String :=
  (ix.filesByNamespace.find? (ix.key namespaceName)).getD []

/-- The classes of a name in the order of registration. -/
def classesNamed (ix : Index) (name : String) : List ClassEntry :=
  ((ix.slotsByName.find? (ix.key name)).getD []).filterMap (fun slot => ix.classes[slot]?)

/-- The class with a qualified name. -/
def classQualified? (ix : Index) (qualified : String) : Option ClassEntry :=
  (ix.slotByQualified.find? (ix.key qualified)).bind (fun slot => ix.classes[slot]?)

/-- The sites of a function name in the order of registration. -/
def methodSites (ix : Index) (name : String) : List MethodSite :=
  (ix.sitesByName.find? (ix.key name)).getD []

/-- The declared type of a member of a class. -/
def memberType? (ix : Index) (className member : String) : Option String :=
  (ix.memberTypes.find? (ix.key className)).bind (·.find? member)

/-- The declarations of a class: the entry itself, then the others of its name in other files. -/
def partsOf (ix : Index) (c : ClassEntry) : List ClassEntry :=
  c :: (ix.classesNamed c.name).filter fun other =>
    other.path != c.path && ix.sameName other.qualifiedName c.qualifiedName

/-- Whether a file can declare members of a class: it has a part of it, or lies in its package. -/
def declaresMembersOf (ix : Index) (c : ClassEntry) (path : String) : Bool :=
  if ix.language = .go then
    path == c.path
      || match ix.namespaceOf? path with
        | some ns => ix.namespaceOf? c.path == some ns
        | none => false
  else (ix.partsOf c).any (·.path == path)

/-! ### Registration -/

/-- Registers a file that declares nothing; one that is registered keeps its place. -/
def addFile (ix : Index) (path : String) : Index :=
  { ix with
    files := addNew ix.files path
    positions := ix.positions.update path (·.getD ix.files.length) }

/-- The namespace that a file belongs to. -/
def namespaceFor (ix : Index) (x : Extraction) : Option String :=
  match ix.language with
  | .go => some (GoModule.packagePath ix.goModules (RepoPath.parentDir x.path))
  | .java => (x.namespaceName.or (some (JavaPackage.inferred x.path))).filter (!·.isEmpty)
  | .csharp => x.namespaceName
  | .python => some (PythonModule.packageOf x.path)
  | .typescript => none
  | .apex => none

/-- Registers the namespace of a file. -/
def addNamespace (ix : Index) (path namespaceName : String) : Index :=
  { ix with
    namespaces := ix.namespaces.insert path namespaceName
    filesByNamespace :=
      ix.filesByNamespace.update (ix.key namespaceName) fun files => addNew (files.getD []) path }

/--
The qualified names of a class: the one it declares, and its name below the module or package of
the file where imports use that.
-/
def qualifiedNames (ix : Index) (x : Extraction) (c : ClassDecl) : List String :=
  let below (qualifiers : List String) (name : String) :=
    (qualifiers.filter (!·.isEmpty)).map (· ++ "." ++ name)
  c.qualifiedName ::
    match ix.language with
    | .go => below (ix.namespaceFor x).toList c.name
    | .python => below (PythonModule.classPrefixes x.path) c.qualifiedName
    | _ => []

/-- Registers a slot under a qualified name, unless an earlier one has it. -/
def addQualified (ix : Index) (slot : Nat) (qualified : String) : Index :=
  { ix with slotByQualified := ix.slotByQualified.update (ix.key qualified) (·.getD slot) }

/-- Registers the typed members of a class; a type given earlier stays. -/
def addMembers (ix : Index) (c : ClassDecl) : Index :=
  let typed := c.properties.filterMap fun p => p.typeName.map (p.name, ·)
  { ix with
    memberTypes := ix.memberTypes.update (ix.key c.name) fun members =>
      typed.foldl (fun d (name, type) => d.update name (·.getD type)) (members.getD Dict.empty) }

/-- Registers a class of a file. -/
def addClass (x : Extraction) (ix : Index) (c : ClassDecl) : Index :=
  let slot := ix.classes.length
  let ix' : Index :=
    { ix with
      classes := ix.classes ++ [.ofDecl x.path c]
      slotsByName := ix.slotsByName.update (ix.key c.name) (·.getD [] ++ [slot]) }
  let ix' := (ix.qualifiedNames x c).foldl (fun ix q => ix.addQualified slot q) ix'
  if ix.language = .csharp then ix'.addMembers c else ix'

/-- Registers a function of a file. -/
def addFunction (path : String) (ix : Index) (f : FunctionDecl) : Index :=
  { ix with
    sitesByName := ix.sitesByName.update (ix.key f.name) (·.getD [] ++ [.ofDecl path f]) }

/-- Registers a file with all it declares. -/
def add (ix : Index) (x : Extraction) : Index :=
  let ix := ix.addFile x.path
  let ix := (ix.namespaceFor x).elim ix (ix.addNamespace x.path)
  let ix := x.classes.foldl (addClass x) ix
  x.functions.foldl (addFunction x.path) ix

end Index

end SourceAtlas
