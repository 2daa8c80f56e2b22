import SourceAtlas.Index.Basic
import SourceAtlas.TypeName

/-!
# Finding classes and methods

A type name is looked up from where it is written: through the imports of the file, by its
qualified name, in the namespace of the file, and last by its simple name, the nearest class first.

A method is looked for in a class and then in its superclasses and interfaces, depth first. Every
class is entered at most once, so the search ends on hierarchies with cycles too.
-/

namespace SourceAtlas.Resolve

/-- The place that a reference is made from. -/
structure Scope where
  path : String
  namespaceName : Option String
  className : Option String
  imports : List Import

/-- The first item that no other one is less than. -/
def firstLeast? {α : Type} (less : α → α → Bool) : List α → Option α
  | [] => none
  | x :: xs => some (xs.foldl (fun best y => if less y best then y else best) x)

/-! ### Nearness -/

/-- Whether a file is of the package of the scope: its namespace, or else its directory. -/
def samePackage (ix : Index) (scope : Scope) (path : String) : Bool :=
  match scope.namespaceName, ix.namespaceOf? path with
  | some a, some b => ix.sameName a b
  | _, _ => RepoPath.parentDir scope.path == RepoPath.parentDir path

/-- How far a file is: the same file, the same package, imported, or elsewhere. -/
def tier (ix : Index) (scope : Scope) (path : String) : Nat :=
  if path == scope.path then 0
  else if samePackage ix scope path then 1
  else if scope.imports.any (·.targets.contains path) then 2
  else 3

/-- Whether a file is nearer than another; of files equally far the one registered first. -/
def nearer (ix : Index) (scope : Scope) (a b : String) : Bool :=
  let ta := tier ix scope a
  let tb := tier ix scope b
  ta < tb || (ta == tb && ix.position a < ix.position b)

/-! ### Classes -/

/-- The part of a name after its last dot. -/
def simpleName (name : String) : String :=
  ((Text.splitLast? name '.').map (·.2)).getD name

/-- Whether an expression is a name, or goes on from it with a dot. -/
def startsAt (name expression : String) : Bool :=
  expression == name
    || match Text.stripPrefix? expression name with
      | some rest => Text.startsWith rest "."
      | none => false

/-- The import that binds the name an expression starts with. -/
def bindingFor? (imports : List Import) (expression : String) : Option (Import × ImportBinding) :=
  imports.findSome? fun i =>
    (i.bindings.find? fun b => startsAt b.localName expression).map (i, ·)

/-- The class of a name that one of some files declares, the first file first. -/
def classIn? (ix : Index) (targets : List String) (name : String) : Option ClassEntry :=
  firstLeast? (fun a b => targets.idxOf a.path < targets.idxOf b.path)
    ((ix.classesNamed name).filter fun c => targets.contains c.path)

/-- The class that the scope is in: that of its file, or else the one registered first. -/
def ownClass? (ix : Index) (scope : Scope) : Option ClassEntry := do
  let named := ix.classesNamed (← scope.className)
  (named.find? (·.path == scope.path)).or
    (firstLeast? (fun a b => ix.position a.path < ix.position b.path) named)

/-- What the imports of a scope say of a type name. -/
inductive ImportVerdict where
  /-- No import binds the name, or its files do not declare the class. -/
  | silent
  /-- The name is bound to something that is no class of the repository. -/
  | foreign
  | found (c : ClassEntry)

/-- Looks up a type name, split at its first dot, through the imports. -/
def importedClass (ix : Index) (scope : Scope) (head : String) (tail : Option String) :
    ImportVerdict :=
  match bindingFor? scope.imports head with
  | none => .silent
  | some (i, b) =>
    if i.kind != .inRepository then .foreign
    else
      match (tail.map simpleName).or b.symbol with
      | none => .foreign
      | some wanted => (classIn? ix i.targets wanted).elim .silent .found

/-- The class a type name refers to, leaving imports aside. -/
def declaredClass? (ix : Index) (scope : Scope) (typeName : String) : Option ClassEntry :=
  let asWritten := if Text.containsChar typeName '.' then ix.classQualified? typeName else none
  let inNamespace := scope.namespaceName.bind fun ns => ix.classQualified? (ns ++ "." ++ typeName)
  let nearest :=
    firstLeast? (fun a b => nearer ix scope a.path b.path) (ix.classesNamed (simpleName typeName))
  (asWritten.or inNamespace).or nearest

/-- The class that a type name refers to where it is written. -/
def findClass? (ix : Index) (scope : Scope) (typeName : String) : Option ClassEntry :=
  let (head, tail) :=
    match Text.splitFirst? typeName "." with
    | some (head, tail) => (head, some tail)
    | none => (typeName, none)
  match importedClass ix scope head tail with
  | .found c => some c
  | .foreign => none
  | .silent => declaredClass? ix scope typeName

/-! ### Methods -/

/-- The scope that the parents of a class are looked up from. -/
def classScope (ix : Index) (c : ClassEntry) : Scope :=
  { path := c.path
    namespaceName := ix.namespaceOf? c.path
    className := none
    imports := [] }

/-- The classes that a class extends or implements, by any of its parts. -/
def parentsOf (ix : Index) (c : ClassEntry) : List ClassEntry :=
  let written := (ix.partsOf c).flatMap fun part => part.superclass.toList ++ part.interfaces
  (written.filterMap TypeName.normalize?).filterMap (findClass? ix (classScope ix c))

/-- The sites of a method that belong to a class. -/
def sitesOf (ix : Index) (c : ClassEntry) (name : String) : List MethodSite :=
  (ix.methodSites name).filter fun site =>
    ((site.className.map (ix.sameName · c.name)).getD false)
      && ix.declaresMembersOf c site.path

/-- The file in which a class declares a method itself: the file of the class before others. -/
def ownMethod? (ix : Index) (c : ClassEntry) (name : String) : Option String :=
  let sites := sitesOf ix c name
  let site := (sites.find? (·.path == c.path)).or sites.head?
  let part := (ix.partsOf c).find? fun part => part.methods.any (ix.sameName · name)
  (site.map (·.path)).or (part.map (·.path))

/-- The keys other than `k`. -/
def withoutKey (k : ClassKey) (keys : List ClassKey) : List ClassKey :=
  keys.filter (· != k)

theorem length_withoutKey_lt {k : ClassKey} {keys : List ClassKey} (h : k ∈ keys) :
    (withoutKey k keys).length < keys.length :=
  List.length_filter_lt_length_iff_exists.mpr ⟨k, h, by simp⟩

-- `h` is what the first call of the recursion decreases by.
set_option linter.unusedVariables false in
/--
Searches the pending classes in order, the parents of each before the next. Only classes whose key
is in `unseen` are entered, and a key leaves the list when its class is.
-/
def searchMethod (ix : Index) (name : String) (unseen : List ClassKey) (pending : List ClassEntry) :
    Option String :=
  match pending with
  | [] => none
  | c :: rest =>
    if h : c.searchKey ∈ unseen then
      match ownMethod? ix c name with
      | some path => some path
      | none =>
        searchMethod ix name (withoutKey c.searchKey unseen) (parentsOf ix c ++ rest)
    else searchMethod ix name unseen rest
  termination_by (unseen.length, pending.length)
  decreasing_by
    · exact Prod.Lex.left _ _ (length_withoutKey_lt h)
    · exact Prod.Lex.right _ (by simp)

/-- The file that declares a method for objects of a class, inherited methods included. -/
def methodInChain? (ix : Index) (c : ClassEntry) (name : String) : Option String :=
  searchMethod ix name (ix.classes.map ClassEntry.searchKey) [c]

/-- The file that declares a method for objects of a class, or else that of the class. -/
def memberOrClass (ix : Index) (c : ClassEntry) (name : String) : String :=
  (methodInChain? ix c name).getD c.path

end SourceAtlas.Resolve
