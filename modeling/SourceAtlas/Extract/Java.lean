import SourceAtlas.Dict
import SourceAtlas.Extract.Progress
import SourceAtlas.Extraction
import SourceAtlas.Tree.Cursor
import SourceAtlas.Tree.Source

/-!
# Declarations of Java files

The same reading serves Apex, whose files are first brought to the form of Java text with every
byte in its place. Names and types are then read from that text and modifiers from the text as it
was written.
-/

namespace SourceAtlas.Extract.Java

inductive Dialect where
  | java
  | apex
  deriving DecidableEq, Repr

/-- A file to read: its dialect, the text under the tree and the text as written. -/
structure Reading where
  dialect : Dialect
  source : SourceText
  written : SourceText

def callKinds : List String := ["method_invocation", "object_creation_expression"]

def typeKinds : List String :=
  ["class_declaration", "interface_declaration", "enum_declaration", "record_declaration"]

def scopeKinds : List String :=
  ["lambda_expression", "class_body"] ++ typeKinds

/-- Nodes that never hold a declaration of a member. -/
def bodyKinds : List String :=
  ["block", "constructor_body", "lambda_expression", "object_creation_expression"]

/-! ### Imports -/

def importOf? (r : Reading) (node : Tree) : Option Import := do
  let source := r.source.textOf (← node.childOfKinds? ["scoped_identifier", "identifier"])
  let isStatic := node.hasKeyword "static"
  if node.hasKeyword "asterisk" then
    return { source := source ++ ".*", wildcard := true, isStatic }
  else
    let symbol := lastSegment source
    return { source, bindings := [⟨symbol, some symbol⟩], isStatic }

/-! ### Modifiers -/

/-- The modifiers of a declaration as written, in small letters, without annotations. -/
def modifierWords (r : Reading) (node : Tree) : List String :=
  match node.childOfKinds? ["modifiers"] with
  | none => []
  | some modifiers =>
    (modifiers.children.filter (!Text.contains ·.kind "annotation")).map fun c =>
      Text.lower (r.written.textOf c)

/-- The declared visibility; members of interfaces are public unless they say otherwise. -/
def visibilityOf (dialect : Dialect) (words : List String) (inInterface : Bool) : Visibility :=
  if words.contains "global" then .global
  else if words.contains "public" then .pub
  else if words.contains "protected" then .prot
  else if words.contains "private" then .priv
  else if inInterface then .pub
  else
    match dialect with
    | .java => .package
    | .apex => .priv

/-- The class modifier that a word stands for. -/
def modifierOf? : String → Option ClassModifier
  | "abstract" => some .abstract
  | "final" => some .sealed
  | "sealed" => some .sealed
  | "static" => some .static
  | "virtual" => some .virtual
  | _ => none

/-- The type declaration around a place. -/
def ownerOf? (c : Cursor) : Option Cursor :=
  c.ancestors.find? fun a => typeKinds.contains a.kind

def inInterface (c : Cursor) : Bool :=
  ((ownerOf? c).map (·.kind == "interface_declaration")).getD false

/-! ### Parameters and local types -/

/-- One parameter: the form it is listed in, and its name and type if it can be a receiver. -/
def parameterOf? (s : SourceText) (param : Tree) : Option (String × Option (String × String)) :=
  match param.kind with
  | "formal_parameter" => do
    let name ← s.field? param "name"
    return (name, (s.field? param "type").map (name, ·))
  | "spread_parameter" => do
    let name ← s.field? (← param.findKind? "variable_declarator") "name"
    return (variadic name, none)
  | _ => none

def parametersOf (s : SourceText) (params : Tree) : List (String × Option (String × String)) :=
  params.namedChildren.filterMap (parameterOf? s)

/-- The typed names that a statement declares; `var x = new T()` gives `x` the type `T`. -/
def localTypes (s : SourceText) (node : Tree) : List (String × String) :=
  match node.kind with
  | "local_variable_declaration" =>
    let declared := (s.field? node "type").filter (· != "var")
    (node.childrenIn "declarator").filterMap fun decl => do
      let name ← s.field? decl "name"
      let inferred := do
        let value ← decl.child? "value"
        if value.kind == "object_creation_expression" then s.field? value "type" else none
      return (name, ← declared.or inferred)
  | "enhanced_for_statement" =>
    match s.field? node "name", s.field? node "type" with
    | some name, some type => [(name, type)]
    | _, _ => []
  | _ => []

/-! ### Calls -/

/-- The call site of an invocation or of the creation of an object. -/
def callOf? (s : SourceText) (locals : Dict String) (call : Tree) : Option CallSite :=
  if call.kind == "object_creation_expression" then
    (s.field? call "type").map fun type => { name := constructedType type }
  else do
    let name ← s.field? call "name"
    let receiver := s.field? call "object"
    return .written name receiver (receiver.bind locals.find?)

/-- The calls made directly in a body, given the types of the parameters. -/
def bodyCalls (s : SourceText) (params : List (String × String)) (body : Tree) : List CallSite :=
  let typed := (body.nodesOutside ["lambda_expression", "class_body"]).flatMap (localTypes s)
  (body.directCalls callKinds scopeKinds).filterMap (callOf? s (Dict.ofList (params ++ typed)))

/-! ### Types, fields and methods -/

def kindOf : String → ClassKind
  | "interface_declaration" => .interface
  | "enum_declaration" => .enumeration
  | "record_declaration" => .record
  | _ => .cls

/-- The names of the interfaces that a type implements or extends. -/
def interfacesOf (s : SourceText) (node : Tree) : List String :=
  match (node.child? "interfaces").or (node.childOfKinds? ["extends_interfaces"]) with
  | none => []
  | some list =>
    (list.nodes.filter (·.kind == "type_list")).flatMap fun types =>
      types.namedChildren.map s.textOf

/-- The properties that the header of a record declares. -/
def recordProperties (params : List (String × Option (String × String))) : List Property :=
  let locals := Dict.ofList (params.filterMap (·.2))
  params.map fun (listed, _) =>
    { Property.typed listed .priv (locals.find? listed) with isFinal := true }

/-- The class of a type declaration. -/
def classOf? (r : Reading) (package : Option String) (place : Cursor) : Option ClassDecl := do
  let node := place.focus
  let s := r.source
  let name ← s.field? node "name"
  let words := modifierWords r node
  let kind := kindOf node.kind
  let outer := (place.ancestors.filter (typeKinds.contains ·.kind)).filterMap fun a =>
    s.field? a.focus "name"
  let nested := Text.join "." (outer.reverse ++ [name])
  let header :=
    if kind == .record then ((node.child? "parameters").map (parametersOf s)).getD [] else []
  return {
    name, kind
    qualifiedName :=
      match r.dialect, package with
      | .java, some package => package ++ "." ++ nested
      | _, _ => nested
    visibility := visibilityOf r.dialect words (inInterface place)
    modifiers := (words.filterMap modifierOf?).foldl addNew []
    superclass := ((node.child? "superclass").bind (·.namedChildren.head?)).map s.textOf
    interfaces := interfacesOf s node
    constructorParams := header.map (·.1)
    properties := recordProperties header
    startLine := s.startLine node
    endLine := s.endLine node }

/-- The properties that a field declaration declares. -/
def fieldsOf (r : Reading) (place : Cursor) : List Property :=
  let node := place.focus
  let words := modifierWords r node
  let inside := inInterface place
  let type := r.source.field? node "type"
  (node.childrenIn "declarator").filterMap fun decl => do
    let name ← r.source.field? decl "name"
    return { Property.typed name (visibilityOf r.dialect words inside) type with
      isStatic := inside || words.contains "static"
      isFinal := inside || words.contains "final"
      hasDefault := (decl.child? "value").isSome }

/-- The function of a method or constructor declaration. -/
def methodOf? (r : Reading) (className : Option String) (place : Cursor) : Option FunctionDecl := do
  let node := place.focus
  let s := r.source
  let name ← s.field? node "name"
  let words := modifierWords r node
  let params := ((node.child? "parameters").map (parametersOf s)).getD []
  return {
    name, className
    kind :=
      if node.kind != "method_declaration" then .constructor
      else if words.contains "static" then .static
      else .method
    visibility := visibilityOf r.dialect words (inInterface place)
    params := params.map (·.1)
    startLine := s.startLine node
    endLine := s.endLine node
    calls := ((node.child? "body").map (bodyCalls s (params.filterMap (·.2)))).getD [] }

/-! ### Files -/

/-- Adds what the node at a place declares. -/
def visit (r : Reading) (p : Progress) (place : Cursor) : Progress :=
  let node := place.focus
  match place.kind with
  | "package_declaration" =>
    let name := node.namedChildren.head?.filter fun n =>
      n.kind == "scoped_identifier" || n.kind == "identifier"
    p.change (·.declareNamespace (name.map r.source.textOf))
  | "import_declaration" => (importOf? r node).elim p fun i => p.change (·.addImport i)
  | "field_declaration" | "constant_declaration" =>
    p.addProperties (p.slotAt? (ownerOf? place)) (fieldsOf r place)
  | "method_declaration" | "constructor_declaration" | "compact_constructor_declaration" =>
    let slot := p.slotAt? (ownerOf? place)
    (methodOf? r ((p.classIn? slot).map (·.name)) place).elim p (p.addFunction slot)
  | kind =>
    if typeKinds.contains kind then
      (classOf? r p.result.namespaceName place).elim p (p.addClass place)
    else p

/-- Adds all that a tree declares to what is known of the file. -/
def extend (r : Reading) (x : Extraction) (tree : Tree) : Extraction :=
  let places := (Cursor.root tree).preorder fun c => bodyKinds.contains c.kind
  (places.foldl (visit r) { result := x }).result.typeMemberReceivers ["this"] true

/-- What a Java file declares. -/
def extract (path : String) (s : SourceText) (tree : Tree) : Extraction :=
  extend ⟨.java, s, s⟩ { path } tree

end SourceAtlas.Extract.Java
