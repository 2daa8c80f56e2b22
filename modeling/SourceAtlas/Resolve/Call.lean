import SourceAtlas.Resolve.ClassLookup
import SourceAtlas.Resolve.Import

/-!
# Resolving calls

A call goes through steps in a fixed order and stops at the first that has a verdict:

* the receiver or the called name is bound by an import, or the receiver is a qualified type;
* the type of the receiver is known;
* the receiver reads as the name of a class;
* the bare name is declared somewhere, the nearest declaration counts.

A step may also find that the callee lies outside the repository, which ends the search.
-/

namespace SourceAtlas.Resolve

/-- The outcome of one step. -/
inductive Verdict where
  | found (path : String)
  /-- The callee is outside the repository. -/
  | outside
  /-- The step has nothing to say. -/
  | undecided
  deriving DecidableEq, Repr

/-- A verdict from a path that may be there; otherwise the step has nothing to say. -/
def Verdict.ofOption : Option String → Verdict
  | some path => .found path
  | none => .undecided

/-- A verdict from a path that must be there for the callee to be in the repository. -/
def Verdict.orOutside : Option String → Verdict
  | some path => .found path
  | none => .outside

/-- Receivers that stand for the enclosing object or class. -/
def selfReceivers : List String := ["this", "self", "cls"]

/-- Receivers that stand for the superclass. -/
def superReceivers : List String := ["super", "base", "super()"]

/-! ### Through imports -/

/-- The first of some files that declares a free function. -/
def freeFunctionIn? (ix : Index) (targets : List String) (name : String) : Option String :=
  targets.find? fun target =>
    (ix.methodSites name).any fun site => site.className.isNone && site.path == target

/-- The target of an import that declares a name, or else the first target that is registered. -/
def declaringTarget? (ix : Index) (i : Import) (name : String) : Option String :=
  ((freeFunctionIn? ix i.targets name).or ((classIn? ix i.targets name).map (·.path))).or
    (i.targets.find? ix.containsFile)

/-- What follows a bound name and a dot in an expression. -/
def afterBinding? (b : ImportBinding) (receiver : String) : Option String :=
  ((Text.stripPrefix? receiver b.localName).bind (Text.stripPrefix? · ".")).filter (!·.isEmpty)

/-- A call on a receiver that an import binds. -/
def throughBinding (ix : Index) (i : Import) (b : ImportBinding) (receiver name : String) :
    Verdict :=
  if i.kind != .inRepository then .outside
  else
    match b.symbol, afterBinding? b receiver with
    | none, some rest =>
      .ofOption ((classIn? ix i.targets (simpleName rest)).map (memberOrClass ix · name))
    | none, none => .ofOption (declaringTarget? ix i name)
    | some symbol, _ =>
      .ofOption (((classIn? ix i.targets symbol).map (memberOrClass ix · name)).or
        (declaringTarget? ix i name))

/-- A call on a receiver that starts with an imported name or is a qualified type. -/
def qualifiedReceiver (ix : Index) (scope : Scope) (receiver name : String) : Verdict :=
  match bindingFor? scope.imports receiver with
  | some (i, b) => throughBinding ix i b receiver name
  | none =>
    if Text.containsChar receiver '.' then
      .ofOption ((ix.classQualified? receiver).map (memberOrClass ix · name))
    else .undecided

/-- The import that binds a called name as a symbol. -/
def symbolBinding? (ix : Index) (imports : List Import) (name : String) :
    Option (Import × String) :=
  imports.findSome? fun i => do
    let b ← i.bindings.find? fun b => b.symbol.isSome && ix.sameName b.localName name
    return (i, b.symbol.getD name)

/-- Drops `.*` at the end of a source, as often as it stands there. -/
def dropStars (source : String) : String :=
  let rec go : List Char → List Char
    | '*' :: '.' :: rest => go rest
    | cs => cs
  String.ofList (go source.toList.reverse).reverse

/-- A name that a static or wildcard import of the repository brings in without naming it. -/
def throughUnnamed? (ix : Index) (name : String) (i : Import) : Option String :=
  if i.isStatic then
    let isMember := !i.wildcard && ix.sameName (simpleName i.source) name
    let single := if isMember then i.targets.head? else none
    single.or ((ix.classQualified? (dropStars i.source)).bind (methodInChain? ix · name))
  else if i.wildcard && (ix.language = .python || ix.language = .go) then
    freeFunctionIn? ix i.targets name
  else none

/-- A call of a bare name that the imports may bring in. -/
def importedName (ix : Index) (scope : Scope) (name : String) : Verdict :=
  match symbolBinding? ix scope.imports name with
  | some (i, symbol) =>
    if i.kind != .inRepository then .outside else .orOutside (declaringTarget? ix i symbol)
  | none =>
    .ofOption ((scope.imports.filter (·.kind == .inRepository)).findSome?
      (throughUnnamed? ix name))

/-- The step through imports and qualified types. -/
def qualified (ix : Index) (scope : Scope) (call : CallSite) : Verdict :=
  match call.receiver with
  | some receiver => qualifiedReceiver ix scope receiver call.name
  | none => importedName ix scope call.name

/-! ### Through the receiver -/

/-- The method of a class that a type name refers to; the callee is outside if there is none. -/
def onType (ix : Index) (scope : Scope) (typeName name : String) : Verdict :=
  .orOutside ((findClass? ix scope typeName).bind (methodInChain? ix · name))

/-- The step through the type of the receiver. -/
def byReceiverType (ix : Index) (scope : Scope) (call : CallSite) : Verdict :=
  match call.receiver with
  | none => .undecided
  | some receiver =>
    match call.receiverType with
    | some hint =>
      match TypeName.normalize? hint with
      | some typeName => onType ix scope typeName call.name
      | none => .undecided
    | none =>
      if selfReceivers.any (ix.sameName · receiver) then
        match ownClass? ix scope with
        | some c => .orOutside (methodInChain? ix c call.name)
        | none => .undecided
      else if superReceivers.any (ix.sameName · receiver) then
        match ((ownClass? ix scope).bind (·.superclass)).bind TypeName.normalize? with
        | some typeName => onType ix scope typeName call.name
        | none => .outside
      else
        match (scope.className.bind (ix.memberType? · receiver)).bind TypeName.normalize? with
        | some typeName => onType ix scope typeName call.name
        | none => .undecided

/-- Whether an expression is made of names and dots: `a.B`, but not `a().b` or `items[0]`. -/
def isNamePath (text : String) : Bool :=
  (Text.splitOn '.' text).all fun segment =>
    !segment.isEmpty
      && segment.toList.all fun c => Text.isAlphanumeric c || c == '_' || c == '$'

/-- The step that reads the receiver as the name of a class. -/
def byReceiverClass (ix : Index) (scope : Scope) (call : CallSite) : Verdict :=
  match call.receiver with
  | none => .undecided
  | some receiver =>
    if isNamePath receiver then
      .ofOption ((findClass? ix scope receiver).map (memberOrClass ix · call.name))
    else .undecided

/-! ### By the bare name -/

/-- Whether a call of a bare name can reach a file: Go packages do not see each other. -/
def visibleFrom (ix : Index) (scope : Scope) (path : String) : Bool :=
  ix.language != .go || RepoPath.parentDir path == RepoPath.parentDir scope.path

/-- The nearest of some files. -/
def nearest? (ix : Index) (scope : Scope) (paths : List String) : Option String :=
  firstLeast? (nearer ix scope) paths

/-- The last step: the nearest declaration of the name. -/
def unscoped? (ix : Index) (scope : Scope) (call : CallSite) : Option String :=
  let sites := ix.methodSites call.name
  if call.receiver.isSome then
    nearest? ix scope ((sites.filter (·.className.isSome)).map (·.path))
  else
    let inherited := (ownClass? ix scope).bind (methodInChain? ix · call.name)
    let free := (sites.filter (·.className.isNone)).map (·.path)
    let classes := (ix.classesNamed call.name).map (·.path)
    (inherited.or (nearest? ix scope (free.filter (visibleFrom ix scope)))).or
      (nearest? ix scope (classes.filter (visibleFrom ix scope)))

/-! ### All steps -/

/-- The path of the file that declares the callee. -/
def resolveCall (ix : Index) (scope : Scope) (call : CallSite) : Option String :=
  match qualified ix scope call with
  | .found path => some path
  | .outside => none
  | .undecided =>
    match byReceiverType ix scope call with
    | .found path => some path
    | .outside => none
    | .undecided =>
      match byReceiverClass ix scope call with
      | .found path => some path
      | .outside => none
      | .undecided => unscoped? ix scope call

/-- The scope of a function of a file. -/
def scopeOf (ix : Index) (x : Extraction) (imports : List Import) (f : FunctionDecl) : Scope :=
  { path := x.path
    namespaceName := (ix.namespaceOf? x.path).or x.namespaceName
    className := f.className
    imports }

/-- Resolves the imports of a file and then its calls. -/
def resolve (ix : Index) (x : Extraction) : Extraction :=
  let imports := x.imports.map (resolveImport ix x.path)
  { x with
    imports
    functions := x.functions.map fun f =>
      let scope := scopeOf ix x imports f
      { f with calls := f.calls.map fun c => { c with path := resolveCall ix scope c } } }

end SourceAtlas.Resolve
