import SourceAtlas.Dict
import SourceAtlas.Extract.Progress
import SourceAtlas.Extraction
import SourceAtlas.Tree.Cursor
import SourceAtlas.Tree.Source

/-!
# Declarations of Python files

Bodies of functions are not entered: what is declared there belongs to the function. The attributes
that a constructor assigns are properties of its class.
-/

namespace SourceAtlas.Extract.Python

def callKinds : List String := ["call"]

def scopeKinds : List String := ["lambda", "function_definition", "class_definition"]

/-! ### Imports -/

/-- The imported name and its alias: `a.b` and `c` of `a.b as c`. -/
def splitAlias (s : SourceText) (node : Tree) : String × Option String :=
  if node.kind == "aliased_import" then
    ((s.field? node "name").getD "", s.field? node "alias")
  else (s.textOf node, none)

/-- The imports of `import a, b as c`: each name stands for a module. -/
def importsOf (s : SourceText) (node : Tree) : List Import :=
  (node.childrenIn "name").map fun nameNode =>
    let (source, given) := splitAlias s nameNode
    { source, bindings := [⟨given.getD source, none⟩] }

/-- The import of `from m import a, b as c`: each name stands for a symbol. -/
def fromImportOf? (s : SourceText) (node : Tree) : Option Import := do
  let source ← s.field? node "module_name"
  let bindings := (node.childrenIn "name").map fun nameNode =>
    let (symbol, given) := splitAlias s nameNode
    ⟨given.getD symbol, some symbol⟩
  return { source, bindings, wildcard := (node.childOfKinds? ["wildcard_import"]).isSome }

/-! ### Types of values -/

/-- A call of a capitalized name constructs an object of that class. -/
def constructedBy? (s : SourceText) (value : Tree) : Option String := do
  if value.kind != "call" then none
  let function ← s.field? value "function"
  if Visibility.ofCapital (lastSegment function) = .pub then some function else none

/-! ### Classes -/

/-- Adds a base: `ABC` makes a class abstract, the first other one is the superclass. -/
def addBase (s : SourceText) (c : ClassDecl) (base : Tree) : ClassDecl :=
  match base.kind with
  | "identifier" | "attribute" =>
    let name := s.textOf base
    if lastSegment name == "ABC" then c.addModifier .abstract
    else if c.superclass.isNone then { c with superclass := some name }
    else { c with interfaces := c.interfaces ++ [name] }
  | "keyword_argument" =>
    if (s.field? base "value").map lastSegment == some "ABCMeta" then c.addModifier .abstract
    else c
  | _ => c

/-- The property of `name: T = value` at class level; capitals mark a constant. -/
def classAttribute? (s : SourceText) (assignment : Tree) : Option Property := do
  let left ← assignment.child? "left"
  if left.kind != "identifier" then none
  let name := s.textOf left
  let right := assignment.child? "right"
  let type := (s.field? assignment "type").or (right.bind (constructedBy? s))
  return { Property.typed name (.ofUnderscore name) type with
    isStatic := true
    isFinal := name.toList.all fun c => Text.isUppercase c || c == '_' || Text.isAsciiDigit c
    hasDefault := right.isSome }

/-- The properties that the statements of a class body declare. -/
def attributesOf (s : SourceText) (body : Tree) : List Property :=
  body.namedChildren.filterMap fun stmt => do
    let first ← stmt.namedChildren.head?
    if first.kind == "assignment" then classAttribute? s first else none

/-- The class of a class definition. -/
def classOf? (s : SourceText) (place : Cursor) : Option ClassDecl := do
  let node := place.focus
  let name ← s.field? node "name"
  let outer := (place.ancestors.filter (·.kind == "class_definition")).filterMap fun a =>
    s.field? a.focus "name"
  let c : ClassDecl :=
    { name
      qualifiedName := Text.join "." (outer.reverse ++ [name])
      kind := .cls
      visibility := .ofUnderscore name
      properties := ((node.child? "body").map (attributesOf s)).getD []
      startLine := s.startLine node
      endLine := s.endLine node }
  let bases := ((node.child? "superclasses").map (·.namedChildren)).getD []
  return bases.foldl (addBase s) c

/-! ### Functions -/

/-- The name of `*args` or `**kwargs`. -/
def splatName (s : SourceText) (node : Tree) : String :=
  match node.namedChildren.find? (·.kind == "identifier") with
  | none => ""
  | some nameNode =>
    let name := s.textOf nameNode
    if node.kind == "list_splat_pattern" || node.kind == "dictionary_splat_pattern" then
      variadic name
    else name

/-- The form a parameter is listed in, if it is one. -/
def parameterName? (s : SourceText) (param : Tree) : Option String :=
  match param.kind with
  | "identifier" => some (s.textOf param)
  | "typed_parameter" =>
    param.namedChildren.head?.map fun inner =>
      if inner.kind == "identifier" then s.textOf inner else splatName s inner
  | "default_parameter" | "typed_default_parameter" => s.field? param "name"
  | "list_splat_pattern" | "dictionary_splat_pattern" => some (splatName s param)
  | "tuple_pattern" => some arrayPattern
  | _ => none

/-- The parameters of a list with their types, without `self` and `cls`. -/
def parametersOf (s : SourceText) (params : Tree) : List (String × Option String) :=
  params.namedChildren.filterMap fun param => do
    let name ← parameterName? s param
    if name == "self" || name == "cls" || name.isEmpty then none
    return (name, s.field? param "type")

/-- What the assignments of a body tell: types of local names, and the members of `self`. -/
structure Assigned where
  locals : Dict String
  members : List Property := []

/-- Takes in one assignment; a member counts where it is assigned first. -/
def Assigned.add (s : SourceText) (a : Assigned) (node : Tree) : Assigned :=
  match node.child? "left" with
  | none => a
  | some left =>
    let right := node.child? "right"
    let copied := right.bind fun r =>
      if r.kind == "identifier" then a.locals.find? (s.textOf r) else none
    let type := ((s.field? node "type").or (right.bind (constructedBy? s))).or copied
    match left.kind with
    | "identifier" =>
      match type with
      | some type => { a with locals := a.locals.insert (s.textOf left) type }
      | none => a
    | "attribute" =>
      match s.field? left "object", s.field? left "attribute" with
      | some "self", some name =>
        if a.members.any (·.name == name) then a
        else
          let property :=
            { Property.typed name (.ofUnderscore name) type with hasDefault := right.isSome }
          { a with members := a.members ++ [property] }
      | _, _ => a
    | _ => a

/-- The call site of a call; `cls` stands for the enclosing class. -/
def callOf? (s : SourceText) (locals : Dict String) (className : Option String) (call : Tree) :
    Option CallSite := do
  let function ← call.child? "function"
  match function.kind with
  | "identifier" => return { name := s.textOf function }
  | "attribute" =>
    let name ← s.field? function "attribute"
    let receiver := s.field? function "object"
    let type := if receiver == some "cls" then className else receiver.bind locals.find?
    return .written name receiver type
  | _ => none

/-- The decorators of a function, without their arguments. -/
def decoratorsOf (s : SourceText) (place : Cursor) : List String :=
  match place.parent? with
  | none => []
  | some parent =>
    if parent.kind == "decorated_definition" then
      (parent.focus.childrenOfKind "decorator").map fun d =>
        let text := Text.trimStartWhile (· == '@') (s.textOf d)
        Text.trim (String.ofList (text.toList.takeWhile (· != '(')))
    else []

/-- A function with the members that it assigns and whether it is abstract. -/
structure Definition where
  function : FunctionDecl
  members : List Property
  isAbstract : Bool

/-- The function of a definition in a class. -/
def definitionOf (s : SourceText) (className : Option String) (place : Cursor) : Definition :=
  let node := place.focus
  let name := (s.field? node "name").getD ""
  let decorators := (decoratorsOf s place).map lastSegment
  let kind : FunctionKind :=
    if className.isNone then .free
    else if name == "__init__" then .constructor
    else if decorators.contains "staticmethod" || decorators.contains "classmethod" then .static
    else .method
  let params := ((node.child? "parameters").map (parametersOf s)).getD []
  let start : Assigned :=
    { locals := Dict.ofList (params.filterMap fun (name, type) => type.map (name, ·)) }
  let assigned : Assigned :=
    match node.child? "body" with
    | none => start
    | some body =>
      ((body.nodesOutside scopeKinds).filter (·.kind == "assignment")).foldl (Assigned.add s) start
  let calls : List CallSite :=
    match node.child? "body" with
    | none => []
    | some body =>
      (body.directCalls callKinds scopeKinds).filterMap (callOf? s assigned.locals className)
  { function :=
      { name, kind, className, calls
        visibility := .ofUnderscore name
        params := params.map (·.1)
        startLine := s.startLine node
        endLine := s.endLine node }
    members := assigned.members
    isAbstract := decorators.contains "abstractmethod" }

/-- Lists a definition with its class; a constructor brings its parameters and members. -/
def listDefinition (d : Definition) (c : ClassDecl) : ClassDecl :=
  let c :=
    if d.function.kind == .constructor then
      let fresh := d.members.filter fun m => !c.properties.any (·.name == m.name)
      { c with constructorParams := d.function.params, properties := c.properties ++ fresh }
    else c
  let c := c.addMethod d.function.name
  if d.isAbstract then c.addModifier .abstract else c

/-! ### Files -/

/-- The class that a definition is a method of, looking through decorators. -/
def ownerOf? (place : Cursor) : Option Cursor :=
  (place.ancestors.find? fun a =>
    a.kind == "class_definition" || a.kind == "function_definition").filter
      (·.kind == "class_definition")

/-- Adds what the node at a place declares. -/
def visit (s : SourceText) (p : Progress) (place : Cursor) : Progress :=
  let node := place.focus
  match place.kind with
  | "import_statement" => (importsOf s node).foldl (fun p i => p.change (·.addImport i)) p
  | "import_from_statement" => (fromImportOf? s node).elim p fun i => p.change (·.addImport i)
  | "class_definition" => (classOf? s place).elim p (p.addClass place)
  | "function_definition" =>
    let slot := p.slotAt? (ownerOf? place)
    let d := definitionOf s ((p.classIn? slot).map (·.name)) place
    (p.modifySlot slot (listDefinition d)).change (·.addFunction d.function)
  | _ => p

/-- Whether a place is the body of a function. -/
def isFunctionBody (place : Cursor) : Bool :=
  place.kind == "block"
    && (place.parent?.map (·.kind == "function_definition")).getD false

/-- What a Python file declares. -/
def extract (path : String) (s : SourceText) (tree : Tree) : Extraction :=
  let places := (Cursor.root tree).preorder isFunctionBody
  (places.foldl (visit s) { result := { path } }).result.typeMemberReceivers ["self"] false

end SourceAtlas.Extract.Python
