import SourceAtlas.Dict
import SourceAtlas.Extract.Progress
import SourceAtlas.Extraction
import SourceAtlas.RepoPath
import SourceAtlas.Tree.Cursor
import SourceAtlas.Tree.Source

/-!
# Declarations of TypeScript and JavaScript files

Functions are declared as such or as function values of variables and class fields. What a file
exports is public; an export clause may stand before or after the declaration it names.
-/

namespace SourceAtlas.Extract.TypeScript

def callKinds : List String := ["call_expression", "new_expression"]

def scopeKinds : List String :=
  ["arrow_function", "function_expression", "function", "function_declaration",
   "generator_function", "generator_function_declaration", "class", "class_declaration"]

def classKinds : List String :=
  ["class_declaration", "abstract_class_declaration", "class", "interface_declaration",
   "enum_declaration"]

def functionValueKinds : List String := ["arrow_function", "function_expression", "function"]

/-- Nodes that never hold a declaration of the module. -/
def bodyKinds : List String :=
  ["statement_block", "arrow_function", "function_expression", "function"]

/-- The grammar that reads a file. -/
def grammarOf (path : String) : String :=
  match Text.asciiLower ((RepoPath.fileExtension? path).getD "") with
  | "ts" | "mts" | "cts" => "TypeScript"
  | "tsx" => "TSX"
  | _ => "JavaScript"

/-! ### Imports -/

/-- The bindings of one part of an import clause. -/
def clauseBindings (s : SourceText) (part : Tree) : List ImportBinding :=
  match part.kind with
  | "identifier" => [⟨s.textOf part, some "default"⟩]
  | "namespace_import" =>
    (part.childOfKinds? ["identifier"]).toList.map fun name => ⟨s.textOf name, none⟩
  | "named_imports" =>
    (part.childrenOfKind "import_specifier").filterMap fun spec =>
      (s.field? spec "name").map fun name =>
        ⟨(s.field? spec "alias").getD name, some (unquote name)⟩
  | _ => []

/-- The import of an import statement, or of `import x = require("y")`. -/
def importOf? (s : SourceText) (node : Tree) : Option Import :=
  match s.field? node "source" with
  | some source =>
    let parts := ((node.childOfKinds? ["import_clause"]).map (·.namedChildren)).getD []
    some { source := unquote source, bindings := parts.flatMap (clauseBindings s) }
  | none => do
    let clause ← node.childOfKinds? ["import_require_clause"]
    let source ← s.field? clause "source"
    let bindings := (clause.childOfKinds? ["identifier"]).toList.map fun name =>
      ⟨s.textOf name, none⟩
    return { source := unquote source, bindings }

/-- The names that a `require` call binds through the variable it is assigned to. -/
def requireBindings (s : SourceText) (call : Cursor) : List ImportBinding :=
  match (call.parent?.filter (·.kind == "variable_declarator")).bind (·.focus.child? "name") with
  | none => []
  | some name =>
    match name.kind with
    | "identifier" => [⟨s.textOf name, none⟩]
    | "object_pattern" =>
      name.namedChildren.filterMap fun prop =>
        match prop.kind with
        | "shorthand_property_identifier_pattern" =>
          some ⟨s.textOf prop, some (s.textOf prop)⟩
        | "pair_pattern" => do
          let key ← s.field? prop "key"
          let value ← s.field? prop "value"
          return ⟨value, some key⟩
        | _ => none
    | _ => []

/-- The import of a call `require("x")` or `import("x")`. -/
def dynamicImportOf? (s : SourceText) (call : Cursor) : Option Import := do
  if call.kind != "call_expression" then none
  let function ← call.focus.child? "function"
  let isRequire := function.kind == "identifier" && s.textOf function == "require"
  if !isRequire && function.kind != "import" then none
  let source ← (← call.focus.child? "arguments").namedChildren.head?
  if source.kind != "string" then none
  return {
    source := unquote (s.textOf source)
    bindings := if isRequire then requireBindings s call else [] }

/-! ### Small readings -/

/-- The type written after a colon. -/
def typeAnnotation? (s : SourceText) (node : Tree) : Option String :=
  (s.field? node "type").map fun text => Text.trim (Text.trimStartWhile (· == ':') text)

/-- The class that a `new` expression constructs. -/
def newType? (s : SourceText) (node : Tree) : Option String :=
  if node.kind == "new_expression" then s.field? node "constructor" else none

/-- The type of a declaration: the one written, or that of a `new` expression as its value. -/
def declaredType? (s : SourceText) (node : Tree) : Option String :=
  (typeAnnotation? s node).or ((node.child? "value").bind (newType? s))

/-- The visibility that an accessibility modifier gives; without one it is public. -/
def accessibility (s : SourceText) (node : Tree) : Visibility :=
  match (node.childOfKinds? ["accessibility_modifier"]).map s.textOf with
  | some "private" => .priv
  | some "protected" => .prot
  | _ => .pub

/-- Members are public unless a modifier or a `#` before their name says otherwise. -/
def memberVisibility (s : SourceText) (node nameNode : Tree) : Visibility :=
  if nameNode.kind == "private_property_identifier" then .priv else accessibility s node

mutual

/-- The form a parameter pattern is listed in. -/
def patternName? (s : SourceText) : Tree → Option String
  | .node l cs =>
    match l.kind with
    | "identifier" | "this" => some (s.textOf (.node l cs))
    | "object_pattern" => some objectPattern
    | "array_pattern" => some arrayPattern
    | "rest_pattern" => (restName? s cs).map variadic
    | "assignment_pattern" => leftName? s cs
    | _ => none

/-- The pattern in the first named child. -/
def restName? (s : SourceText) : List Tree → Option String
  | [] => none
  | t :: ts => if t.named then patternName? s t else restName? s ts

/-- The pattern in the left child. -/
def leftName? (s : SourceText) : List Tree → Option String
  | [] => none
  | t :: ts => if t.label.field == some "left" then patternName? s t else leftName? s ts

end

/-! ### Parameters -/

/-- What a parameter list declares: names as listed, their types, and properties of the class. -/
structure Parameters where
  names : List String := []
  locals : Dict String := Dict.empty
  properties : List Property := []

/-- The pattern of a parameter. -/
def patternOf? (param : Tree) : Option Tree :=
  match param.kind with
  | "required_parameter" | "optional_parameter" => param.child? "pattern"
  | "assignment_pattern" => param.child? "left"
  | "comment" => none
  | _ => some param

/-- Adds one parameter; one with an accessibility modifier is a property too. -/
def Parameters.add (s : SourceText) (ps : Parameters) (param : Tree) : Parameters :=
  match (patternOf? param).bind (patternName? s) with
  | none => ps
  | some name =>
    if name == "this" then ps
    else
      let locals := (typeAnnotation? s param).elim ps.locals (ps.locals.insert name)
      let property : Property :=
        { Property.typed name (accessibility s param) (locals.find? name) with
          isFinal := param.hasKeyword "readonly" }
      { names := ps.names ++ [name]
        locals
        properties :=
          if param.hasKeyword "accessibility_modifier" then ps.properties ++ [property]
          else ps.properties }

def parametersOf (s : SourceText) (params : Tree) : Parameters :=
  params.namedChildren.foldl (Parameters.add s) {}

/-! ### Calls -/

/-- The call site of a call or `new` expression; `require` is no call. -/
def callOf? (s : SourceText) (locals : Dict String) (call : Tree) : Option CallSite :=
  if call.kind == "new_expression" then
    (newType? s call).map fun type => { name := lastSegment type }
  else do
    let function ← call.child? "function"
    match function.kind with
    | "identifier" =>
      let name := s.textOf function
      if name == "require" then none else some { name }
    | "member_expression" =>
      let name ← s.field? function "property"
      let receiver := s.field? function "object"
      return .written name receiver (receiver.bind locals.find?)
    | _ => none

/-- The typed name that a variable declarator declares. -/
def localType? (s : SourceText) (decl : Tree) : Option (String × String) := do
  if decl.kind != "variable_declarator" then none
  let name ← s.field? decl "name"
  return (name, ← declaredType? s decl)

/-- The calls made directly in a body, given the types of the parameters. -/
def bodyCalls (s : SourceText) (params : Dict String) (body : Tree) : List CallSite :=
  let typed := (body.nodesOutside scopeKinds).filterMap (localType? s)
  let locals := typed.foldl (fun d (name, type) => d.insert name type) params
  (body.directCalls callKinds scopeKinds).filterMap (callOf? s locals)

/-! ### Classes, fields and functions -/

def isExported (place : Cursor) : Bool :=
  (place.parent?.map (·.kind == "export_statement")).getD false

def exportVisibility (place : Cursor) : Visibility :=
  if isExported place then .pub else .priv

/-- The superclass and the interfaces that a class names. -/
def heritageOf (s : SourceText) (node : Tree) : Option String × List String :=
  let heritage := node.childOfKinds? ["class_heritage"]
  let superclass := heritage.bind fun h =>
    match h.childOfKinds? ["extends_clause"] with
    | some extended => (extended.child? "value").or extended.namedChildren.head?
    | none => h.namedChildren.head?.filter (·.kind != "implements_clause")
  let implemented := (heritage.bind (·.childOfKinds? ["implements_clause"])).toList
  let extended := (node.childOfKinds? ["extends_type_clause"]).toList
  (superclass.map s.textOf, ((implemented ++ extended).flatMap (·.namedChildren)).map s.textOf)

/-- Adds a member that an interface declares. -/
def addSignature (s : SourceText) (c : ClassDecl) (member : Tree) : ClassDecl :=
  match s.field? member "name", member.kind with
  | some name, "method_signature" => c.addMethod name
  | some name, "property_signature" =>
    c.addProperty (Property.typed name .pub (typeAnnotation? s member))
  | _, _ => c

/-- The class of a declaration, or of a class value under the name of its variable. -/
def classOf? (s : SourceText) (place : Cursor) : Option ClassDecl := do
  let node := place.focus
  let bound :=
    (place.parent?.filter (·.kind == "variable_declarator")).bind (s.field? ·.focus "name")
  let name ← (s.field? node "name").or bound
  let kind : ClassKind :=
    match node.kind with
    | "interface_declaration" => .interface
    | "enum_declaration" => .enumeration
    | _ => .cls
  let (superclass, interfaces) := heritageOf s node
  let c : ClassDecl :=
    { name, kind, superclass, interfaces
      qualifiedName := name
      visibility := exportVisibility place
      modifiers := if node.kind == "abstract_class_declaration" then [.abstract] else []
      startLine := s.startLine node
      endLine := s.endLine node }
  if kind == .interface then
    return (((node.child? "body").map (·.namedChildren)).getD []).foldl (addSignature s) c
  else return c

/-- The name of a class field. -/
def fieldName? (node : Tree) : Option Tree :=
  (node.child? "name").or (node.child? "property")

/-- The property of a class field. -/
def fieldOf? (s : SourceText) (node : Tree) : Option Property := do
  let nameNode ← fieldName? node
  return { Property.typed (s.textOf nameNode) (memberVisibility s node nameNode)
      (declaredType? s node) with
    isStatic := node.hasKeyword "static"
    isFinal := node.hasKeyword "readonly"
    hasDefault := (node.child? "value").isSome }

/-- A method with the properties that its parameters declare. -/
def methodOf? (s : SourceText) (className : String) (node : Tree) :
    Option (FunctionDecl × List Property) := do
  let nameNode ← node.child? "name"
  let name := s.textOf nameNode
  let params := ((node.child? "parameters").map (parametersOf s)).getD {}
  let kind : FunctionKind :=
    if name == "constructor" then .constructor
    else if node.hasKeyword "static" then .static
    else .method
  let f : FunctionDecl :=
    { name, kind
      className := some className
      visibility := memberVisibility s node nameNode
      params := params.names
      startLine := s.startLine node
      endLine := s.endLine node
      calls := ((node.child? "body").map (bodyCalls s params.locals)).getD [] }
  return (f, params.properties)

/-- The function that a function node gives to its declaration. -/
def functionOf (s : SourceText) (name : String) (decl function : Tree) (visibility : Visibility)
    (className : Option String) : FunctionDecl :=
  let params : Parameters :=
    match function.child? "parameters" with
    | some ps => parametersOf s ps
    | none => { names := (s.field? function "parameter").toList }
  { name, visibility, className
    kind :=
      if className.isNone then .free
      else if decl.hasKeyword "static" then .static
      else .method
    params := params.names
    startLine := s.startLine decl
    endLine := s.endLine decl
    calls := ((function.child? "body").map (bodyCalls s params.locals)).getD [] }

/-- The value of a declaration, if it is a function. -/
def functionValue? (node : Tree) : Option Tree :=
  (node.child? "value").filter fun v => functionValueKinds.contains v.kind

/-! ### Files -/

/-- The class around a member. -/
def ownerOf? (place : Cursor) : Option Cursor :=
  place.ancestors.find? fun a => classKinds.contains a.kind

/-- Adds a class field: a method if it holds a function, a property else. -/
def addField (s : SourceText) (p : Progress) (slot : Nat) (className : String) (node : Tree) :
    Progress :=
  match functionValue? node with
  | some value =>
    match fieldName? node with
    | none => p
    | some nameNode =>
      let f := functionOf s (s.textOf nameNode) node value (memberVisibility s node nameNode)
        (some className)
      (p.modifySlot slot (·.addMethod f.name)).change (·.addFunction f)
  | none => p.addProperties slot (fieldOf? s node).toList

/-- Adds a method; a constructor brings its parameters and the properties among them. -/
def addMethod (p : Progress) (slot : Nat) (f : FunctionDecl) (properties : List Property) :
    Progress :=
  let list (c : ClassDecl) : ClassDecl :=
    if f.kind == .constructor then
      { c with constructorParams := f.params, properties := c.properties ++ properties }
    else c.addMethod f.name
  (p.modifySlot slot list).change (·.addFunction f)

/-- Adds what the node at a place declares. -/
def visit (s : SourceText) (p : Progress) (place : Cursor) : Progress :=
  let node := place.focus
  let slot := p.slotAt? (ownerOf? place)
  let owner := slot.bind fun slot => (p.classIn? (some slot)).map fun c => (slot, c.name)
  match place.kind with
  | "import_statement" => (importOf? s node).elim p fun i => p.change (·.addImport i)
  | "export_statement" =>
    match s.field? node "source" with
    | some source => p.change (·.addImport { source := unquote source })
    | none => p
  | "public_field_definition" | "field_definition" =>
    owner.elim p fun (slot, className) => addField s p slot className node
  | "method_definition" | "abstract_method_signature" =>
    match owner with
    | none => p
    | some (slot, className) =>
      (methodOf? s className node).elim p fun (f, properties) => addMethod p slot f properties
  | "function_declaration" | "generator_function_declaration" =>
    match s.field? node "name" with
    | none => p
    | some name =>
      p.change (·.addFunction (functionOf s name node node (exportVisibility place) none))
  | "variable_declarator" =>
    match functionValue? node, s.field? node "name" with
    | some value, some name =>
      let visibility := (place.parent?.map exportVisibility).getD .priv
      p.change (·.addFunction (functionOf s name node value visibility none))
    | _, _ => p
  | kind =>
    if classKinds.contains kind then (classOf? s place).elim p (p.addClass place) else p

/-- The names in the export clauses that have no source of their own. -/
def exportNames (s : SourceText) (places : List Cursor) : List String :=
  places.flatMap fun place =>
    let node := place.focus
    if node.kind == "export_statement" && (s.field? node "source").isNone then
      match node.childOfKinds? ["export_clause"] with
      | some clause => (clause.childrenOfKind "export_specifier").filterMap (s.field? · "name")
      | none => []
    else []

/-- Makes the classes and free functions public that an export clause names. -/
def publish (names : List String) (x : Extraction) : Extraction :=
  { x with
    functions := x.functions.map fun f =>
      if f.className.isNone && names.contains f.name then { f with visibility := .pub } else f
    classes := x.classes.map fun c =>
      if names.contains c.name then { c with visibility := .pub } else c }

/-- What a TypeScript or JavaScript file declares. -/
def extract (path : String) (s : SourceText) (tree : Tree) : Extraction :=
  let places := (Cursor.root tree).preorder fun c => bodyKinds.contains c.kind
  let p := places.foldl (visit s) { result := { path } }
  let x := publish (exportNames s places) p.result
  let dynamic := (Cursor.root tree).descendants.filterMap (dynamicImportOf? s)
  { x with imports := x.imports ++ dynamic }.typeMemberReceivers ["this"] false

end SourceAtlas.Extract.TypeScript
