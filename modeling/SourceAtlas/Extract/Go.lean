import SourceAtlas.Dict
import SourceAtlas.Extraction
import SourceAtlas.Tree.Cursor
import SourceAtlas.Tree.Source

/-!
# Declarations of Go files

Struct and interface types are classes. Methods are declared apart from their type and are listed
with the type of their receiver, if the file declares it; so functions are read after all types.
-/

namespace SourceAtlas.Extract.Go

def callKinds : List String := ["call_expression"]

def scopeKinds : List String := ["func_literal"]

/-! ### Imports -/

/-- Whether a segment of an import path is a version such as `v2`. -/
def isVersion (segment : String) : Bool :=
  match segment.toList with
  | 'v' :: digits => !digits.isEmpty && digits.all Text.isAsciiDigit
  | _ => false

/-- The name an import path binds: its last segment, or the one before a version. -/
def packageName (importPath : String) : String :=
  match (Text.splitOn '/' importPath).reverse with
  | last :: rest => if isVersion last then rest.head?.getD last else last
  | [] => importPath

/-- The import of one specification, under its alias or the name of the package. -/
def importOf? (s : SourceText) (spec : Tree) : Option Import := do
  let source := unquote (← s.field? spec "path")
  match spec.child? "name" with
  | none => return { source, bindings := [⟨packageName source, none⟩] }
  | some name =>
    if name.kind == "dot" then return { source, wildcard := true }
    else if name.kind == "blank_identifier" then return { source }
    else return { source, bindings := [⟨s.textOf name, none⟩] }

/-! ### Types -/

/-- The properties of one field declaration and the type it embeds, if it names no field. -/
def fieldOf (s : SourceText) (field : Tree) : List Property × Option String :=
  let typeName := (s.field? field "type").getD ""
  let property (name : String) := Property.typed name (.ofCapital name) (some typeName)
  match (field.childrenIn "name").map s.textOf with
  | [] =>
    let embedded := Text.trimStartWhile (· == '*') typeName
    ([property ((Text.splitOn '.' embedded).getLast?.getD embedded)], some embedded)
  | names => (names.map property, none)

/-- Adds the fields of a struct; the first embedded type counts as superclass. -/
def addField (s : SourceText) (c : ClassDecl) (field : Tree) : ClassDecl :=
  let (properties, embedded) := fieldOf s field
  { c with
    properties := c.properties ++ properties
    superclass := c.superclass.or embedded }

/-- The class of a type specification, if it specifies a struct or an interface. -/
def classOf? (s : SourceText) (package : Option String) (spec : Tree) : Option ClassDecl := do
  let name ← s.field? spec "name"
  let type ← spec.child? "type"
  let base (kind : ClassKind) : ClassDecl :=
    { name, kind
      qualifiedName := (package.map (· ++ "." ++ name)).getD name
      visibility := .ofCapital name
      startLine := s.startLine spec
      endLine := s.endLine spec }
  match type.kind with
  | "struct_type" =>
    return (type.nodes.filter (·.kind == "field_declaration")).foldl (addField s) (base .struct)
  | "interface_type" =>
    let methods := (type.nodes.filter fun n => n.kind == "method_elem" || n.kind == "method_spec")
    return (methods.filterMap (s.field? · "name")).foldl .addMethod (base .interface)
  | _ => none

/-! ### Functions -/

/-- The variable and the base type of a receiver: `s` and `Server` of `(s *Server)`. -/
def receiverOf? (s : SourceText) (receiver : Tree) : Option (Option String × String) := do
  let decl ← receiver.findKind? "parameter_declaration"
  let base ← (← decl.child? "type").findKind? "type_identifier"
  return (s.field? decl "name", s.textOf base)

/-- The names that a parameter list declares, each with its type and the form it is listed in. -/
def parametersOf (s : SourceText) (params : Tree) : List (String × Option String × String) :=
  params.namedChildren.flatMap fun param =>
    (param.childrenIn "name").map fun nameNode =>
      let name := s.textOf nameNode
      let listed := if param.kind == "variadic_parameter_declaration" then variadic name else name
      (name, s.field? param "type", listed)

mutual

/-- The type of a value: that of a literal, or `T` for a call of `NewT`. -/
def valueType? (s : SourceText) : Tree → Option String
  | .node l cs =>
    if l.kind == "unary_expression" then operandType? s cs
    else if l.kind == "composite_literal" then s.field? (.node l cs) "type"
    else if l.kind == "call_expression" then do
      let function ← s.field? (.node l cs) "function"
      let name := (Text.splitOn '.' function).getLast?.getD function
      let made ← Text.stripPrefix? name "New"
      if Visibility.ofCapital made = .pub then some made else none
    else none

/-- The type of the operand among the children of an expression. -/
def operandType? (s : SourceText) : List Tree → Option String
  | [] => none
  | t :: ts => if t.label.field == some "operand" then valueType? s t else operandType? s ts

end

/-- The typed names that a statement declares: `x := T{}`, `x := NewT()`, `var x T`. -/
def localTypes (s : SourceText) (node : Tree) : List (String × String) :=
  match node.kind with
  | "short_var_declaration" =>
    match node.child? "left", node.child? "right" with
    | some left, some right =>
      (left.namedChildren.zip right.namedChildren).filterMap fun (name, value) =>
        (valueType? s value).map (s.textOf name, ·)
    | _, _ => []
  | "var_spec" =>
    let inferred := do valueType? s (← (← node.child? "value").namedChildren.head?)
    match (s.field? node "type").or inferred with
    | some type => (node.childrenIn "name").map (s.textOf ·, type)
    | none => []
  | _ => []

/-- The receiver of a call; a member of the method's own receiver is written with `this`. -/
def callReceiver (receiverVar : Option String) (operand : String) : String :=
  match receiverVar.bind (Text.stripPrefix? operand) with
  | some rest => if Text.startsWith rest "." then "this" ++ rest else operand
  | none => operand

/-- The call site of a call expression. -/
def callOf? (s : SourceText) (locals : Dict String) (receiverVar : Option String) (call : Tree) :
    Option CallSite := do
  let function ← call.child? "function"
  match function.kind with
  | "identifier" => return { name := s.textOf function }
  | "selector_expression" =>
    let name ← s.field? function "field"
    let receiver := (s.field? function "operand").map (callReceiver receiverVar)
    return .written name receiver (receiver.bind locals.find?)
  | _ => none

/-- The function of a declaration. -/
def functionOf? (s : SourceText) (node : Tree) : Option FunctionDecl := do
  let name ← s.field? node "name"
  let receiver := (node.child? "receiver").bind (receiverOf? s)
  let receiverVar := receiver.bind (·.1)
  let className := receiver.map (·.2)
  let params := ((node.child? "parameters").map (parametersOf s)).getD []
  let calls :=
    match node.child? "body" with
    | none => []
    | some body =>
      let typed :=
        (receiverVar.toList.zip className.toList)
          ++ params.filterMap (fun (name, type, _) => type.map (name, ·))
          ++ (body.nodesOutside ["func_literal"]).flatMap (localTypes s)
      (body.directCalls callKinds scopeKinds).filterMap
        (callOf? s (Dict.ofList typed) receiverVar)
  return {
    name, className, calls
    kind := if receiver.isSome then .method else .free
    visibility := .ofCapital name
    params := params.map (·.2.2)
    startLine := s.startLine node
    endLine := s.endLine node }

/-! ### Files -/

/-- Adds what a top-level node declares, functions apart. -/
def addDeclaration (s : SourceText) (x : Extraction) (node : Tree) : Extraction :=
  match node.kind with
  | "package_clause" => x.declareNamespace (node.namedChildren.head?.map s.textOf)
  | "import_spec" => (importOf? s node).elim x x.addImport
  | "type_spec" => (classOf? s x.namespaceName node).elim x x.addClass
  | _ => x

/-- Adds a function, and its name to the class of its receiver. -/
def addFunction (x : Extraction) (f : FunctionDecl) : Extraction :=
  let x := f.className.elim x fun c => x.modifyNamed c (·.addMethod f.name)
  x.addFunction f

/-- What a Go file declares. -/
def extract (path : String) (s : SourceText) (tree : Tree) : Extraction :=
  let nodes := tree.nodesOutside ["block"]
  let x : Extraction := nodes.foldl (addDeclaration s) { path }
  let functions := nodes.filter fun n =>
    n.kind == "function_declaration" || n.kind == "method_declaration"
  let x := (functions.filterMap (functionOf? s)).foldl addFunction x
  x.typeMemberReceivers ["this"] false

end SourceAtlas.Extract.Go
