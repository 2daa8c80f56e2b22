import SourceAtlas.Dict
import SourceAtlas.Extract.Progress
import SourceAtlas.Extraction
import SourceAtlas.Tree.Cursor
import SourceAtlas.Tree.Source

/-!
# Declarations of C# files

A base list does not say which of its names is the class; a first name in the form `IName` is taken
for an interface.
-/

namespace SourceAtlas.Extract.CSharp

def callKinds : List String := ["invocation_expression", "object_creation_expression"]

def scopeKinds : List String :=
  ["lambda_expression", "anonymous_method_expression", "local_function_statement"]

def typeKinds : List String :=
  ["class_declaration", "interface_declaration", "struct_declaration", "record_declaration",
   "record_struct_declaration", "enum_declaration"]

/-- Nodes that never hold a declaration of a member. -/
def bodyKinds : List String := ["block", "arrow_expression_clause", "accessor_list"]

/-! ### Using directives -/

/-- The import of a using directive: of static members, of an alias, or of a namespace. -/
def importOf? (text : String) : Option Import := do
  let text := Text.trimEndWhile (· == ';') (Text.trim text)
  let text := ((Text.stripPrefix? text "global").map Text.trimStart).getD text
  let rest := Text.trim (← Text.stripPrefix? text "using")
  let i : Import :=
    match Text.stripPrefix? rest "static " with
    | some target => { source := Text.trim target, isStatic := true }
    | none =>
      match Text.splitFirst? rest "=" with
      | some (given, target) =>
        { source := Text.trim target, bindings := [⟨Text.trim given, none⟩] }
      | none => { source := rest, wildcard := true }
  if i.source.isEmpty then none else some i

/-! ### Modifiers -/

def modifierWords (s : SourceText) (node : Tree) : List String :=
  (node.childrenOfKind "modifier").map s.textOf

def visibilityOf (words : List String) (default : Visibility) : Visibility :=
  let isProtected := words.contains "protected"
  let isInternal := words.contains "internal"
  let isPrivate := words.contains "private"
  if words.contains "public" then .pub
  else if isProtected && (isInternal || isPrivate) then .protectedInternal
  else if isProtected then .prot
  else if isInternal then .internal
  else if isPrivate then .priv
  else default

/-- The class modifier that a word stands for. -/
def modifierOf? : String → Option ClassModifier
  | "abstract" => some .abstract
  | "sealed" => some .sealed
  | "static" => some .static
  | "partial" => some .partialDecl
  | "virtual" => some .virtual
  | _ => none

/-- The type declaration around a place. -/
def ownerOf? (c : Cursor) : Option Cursor :=
  c.ancestors.find? fun a => typeKinds.contains a.kind

def inInterface (c : Cursor) : Bool :=
  ((ownerOf? c).map (·.kind == "interface_declaration")).getD false

/-- Members of interfaces are public by default, other members private. -/
def memberDefault (place : Cursor) : Visibility :=
  if inInterface place then .pub else .priv

/-! ### Parameters and local types -/

/-- A parameter: the form it is listed in, and its name and type. -/
abbrev Parameter := String × Option (String × String)

/-- One parameter of a list; `params T[] xs` takes any number of arguments. -/
def parameterOf? (s : SourceText) (param : Tree) : Option Parameter := do
  if param.kind != "parameter" && param.kind != "parameter_array" then none
  let lastIdentifier := ((param.childrenOfKind "identifier").getLast?).map s.textOf
  let name ← (s.field? param "name").or lastIdentifier
  let isVariadic :=
    param.kind == "parameter_array" || param.hasKeyword "params"
      || Text.startsWith (s.textOf param) "params "
  return (if isVariadic then variadic name else name, (s.field? param "type").map (name, ·))

/-- The parameters of a list; the last one may stand on the list itself. -/
def parametersOf (s : SourceText) (params : Tree) : List Parameter :=
  let bare := (s.field? params "name").map fun name =>
    (variadic name, (s.field? params "type").map (name, ·))
  params.namedChildren.filterMap (parameterOf? s) ++ bare.toList

/-- The name of a declarator. -/
def declaratorName? (s : SourceText) (decl : Tree) : Option String :=
  (s.field? decl "name").or ((decl.childOfKinds? ["identifier"]).map s.textOf)

/-- The typed names that a statement declares; `var x = new T()` gives `x` the type `T`. -/
def localTypes (s : SourceText) (node : Tree) : List (String × String) :=
  let declared := (s.field? node "type").filter (· != "var")
  match node.kind with
  | "variable_declaration" =>
    (node.childrenOfKind "variable_declarator").filterMap fun decl => do
      let name ← declaratorName? s decl
      let inferred := (decl.findKind? "object_creation_expression").bind (s.field? · "type")
      return (name, ← declared.or inferred)
  | "foreach_statement" =>
    match s.field? node "left", declared with
    | some name, some type => [(name, type)]
    | _, _ => []
  | _ => []

/-! ### Calls -/

/-- The identifier of a name that may have type arguments. -/
def simpleName? (s : SourceText) (node : Tree) : Option String :=
  if node.kind == "generic_name" then (node.childOfKinds? ["identifier"]).map s.textOf
  else some (s.textOf node)

/-- The call site of an invocation or of the creation of an object. -/
def callOf? (s : SourceText) (locals : Dict String) (call : Tree) : Option CallSite :=
  if call.kind == "object_creation_expression" then
    (s.field? call "type").map fun type => { name := constructedType type }
  else do
    let function ← call.child? "function"
    match function.kind with
    | "identifier" | "generic_name" => return { name := ← simpleName? s function }
    | "member_access_expression" =>
      let name ← simpleName? s (← function.child? "name")
      let receiver := s.field? function "expression"
      return .written name receiver (receiver.bind locals.find?)
    | _ => none

/-- The calls made directly in a body, given the types known before. -/
def bodyCalls (s : SourceText) (known : List (String × String)) (body : Tree) : List CallSite :=
  let typed := (body.nodesOutside scopeKinds).flatMap (localTypes s)
  (body.directCalls callKinds scopeKinds).filterMap (callOf? s (Dict.ofList (known ++ typed)))

/-! ### Types, fields and methods -/

def kindOf : String → ClassKind
  | "interface_declaration" => .interface
  | "struct_declaration" => .struct
  | "record_struct_declaration" => .struct
  | "record_declaration" => .record
  | "enum_declaration" => .enumeration
  | _ => .cls

/-- Whether a name has the form of an interface name: an `I` before a capital letter. -/
def looksLikeInterface (name : String) : Bool :=
  match (lastSegment name).toList with
  | 'I' :: c :: _ => Text.isUppercase c
  | _ => false

/-- The name of a base, unless the node names none. -/
def baseName? (s : SourceText) (base : Tree) : Option String :=
  match base.kind with
  | "argument_list" => none
  | "primary_constructor_base_type" => (base.namedChildren.head?.map s.textOf).filter (!·.isEmpty)
  | _ => Text.nonempty? (s.textOf base)

/-- The superclass and the interfaces of a type. -/
def basesOf (s : SourceText) (kind : ClassKind) (node : Tree) : Option String × List String :=
  let bases := ((node.childOfKinds? ["base_list"]).map (·.namedChildren)).getD []
  let named := (bases.mapIdx fun i base => (baseName? s base).map (i, ·)).filterMap id
  let isSuper (i : Nat) (name : String) : Bool :=
    i == 0 && kind != .interface && !looksLikeInterface name && kind != .enumeration
  ((named.find? fun (i, name) => isSuper i name).map (·.2),
    (named.filter fun (i, name) => !isSuper i name).map (·.2))

/-- The properties that the header of a type declares. -/
def headerProperties (kind : ClassKind) (params : List Parameter) : List Property :=
  let locals := Dict.ofList (params.filterMap (·.2))
  params.map fun (listed, _) =>
    { Property.typed listed .pub (locals.find? listed) with isFinal := kind == .record }

/-- The names of the namespaces and types around a place, the outermost first. -/
def outerNames (s : SourceText) (kinds : List String) (place : Cursor) : List String :=
  ((place.ancestors.filter (kinds.contains ·.kind)).filterMap fun a =>
    s.field? a.focus "name").reverse

/-- The class of a type declaration. -/
def classOf? (s : SourceText) (fileNamespace : Option String) (place : Cursor) :
    Option ClassDecl := do
  let node := place.focus
  let name ← s.field? node "name"
  let kind := kindOf node.kind
  let words := modifierWords s node
  let default : Visibility :=
    if inInterface place then .pub else if (ownerOf? place).isSome then .priv else .internal
  let (superclass, interfaces) := basesOf s kind node
  let header :=
    if kind == .record || kind == .struct || kind == .cls then
      (((node.child? "parameters").or (node.childOfKinds? ["parameter_list"])).map
        (parametersOf s)).getD []
    else []
  return {
    name, kind, superclass, interfaces
    qualifiedName :=
      Text.join "." (fileNamespace.toList
        ++ outerNames s ("namespace_declaration" :: typeKinds) place ++ [name])
    visibility := visibilityOf words default
    modifiers := (words.filterMap modifierOf?).foldl addNew []
    constructorParams := header.map (·.1)
    properties := headerProperties kind header
    startLine := s.startLine node
    endLine := s.endLine node }

/-- The properties that a field, event or property declaration declares. -/
def fieldsOf (s : SourceText) (place : Cursor) : List Property :=
  let node := place.focus
  let words := modifierWords s node
  let property (name : String) (type : Option String) (hasDefault : Bool) : Property :=
    { Property.typed name (visibilityOf words (memberDefault place)) type with
      isStatic := words.contains "static" || words.contains "const"
      isFinal := words.contains "readonly" || words.contains "const"
      hasDefault }
  if node.kind == "property_declaration" then
    match s.field? node "name" with
    | some name => [property name (s.field? node "type") (node.child? "value").isSome]
    | none => []
  else
    match node.childOfKinds? ["variable_declaration"] with
    | none => []
    | some declaration =>
      let type := s.field? declaration "type"
      (declaration.childrenOfKind "variable_declarator").filterMap fun decl =>
        (declaratorName? s decl).map fun name =>
          property name type (decl.hasKeyword "=" || decl.hasKeyword "equals_value_clause")

/-- The typed members of a class. -/
def memberTypes (c : ClassDecl) : List (String × String) :=
  c.properties.filterMap fun p => p.typeName.map (p.name, ·)

/-- The function of a method or constructor declaration in a class. -/
def methodOf? (s : SourceText) (owner : Option ClassDecl) (place : Cursor) :
    Option FunctionDecl := do
  let node := place.focus
  let name ← s.field? node "name"
  let words := modifierWords s node
  let params := ((node.child? "parameters").map (parametersOf s)).getD []
  let known := (owner.map memberTypes).getD [] ++ params.filterMap (·.2)
  let body := (node.child? "body").or (node.childOfKinds? ["arrow_expression_clause"])
  return {
    name
    className := owner.map (·.name)
    kind :=
      if node.kind == "constructor_declaration" then .constructor
      else if words.contains "static" then .static
      else .method
    visibility := visibilityOf words (memberDefault place)
    params := params.map (·.1)
    startLine := s.startLine node
    endLine := s.endLine node
    calls := (body.map (bodyCalls s known)).getD [] }

/-! ### Files -/

/-- Adds what the node at a place declares, given the namespace that holds for the whole file. -/
def visit (s : SourceText) (state : Progress × Option String) (place : Cursor) :
    Progress × Option String :=
  let (p, fileNamespace) := state
  let node := place.focus
  match place.kind with
  | "using_directive" =>
    ((importOf? (s.textOf node)).elim p fun i => p.change (·.addImport i), fileNamespace)
  | "file_scoped_namespace_declaration" =>
    let name := s.field? node "name"
    (p.change (·.declareNamespace name), name)
  | "namespace_declaration" =>
    let outer := outerNames s ["namespace_declaration"] place
    let name := Text.join "." (outer ++ (s.field? node "name").toList)
    (p.change (·.declareNamespace (some name)), fileNamespace)
  | "field_declaration" | "property_declaration" | "event_field_declaration" =>
    (p.addProperties (p.slotAt? (ownerOf? place)) (fieldsOf s place), fileNamespace)
  | "method_declaration" | "constructor_declaration" =>
    let slot := p.slotAt? (ownerOf? place)
    ((methodOf? s (p.classIn? slot) place).elim p (p.addFunction slot), fileNamespace)
  | kind =>
    if typeKinds.contains kind then
      ((classOf? s fileNamespace place).elim p (p.addClass place), fileNamespace)
    else state

/-- What a C# file declares. -/
def extract (path : String) (s : SourceText) (tree : Tree) : Extraction :=
  let places := (Cursor.root tree).preorder fun c => bodyKinds.contains c.kind
  let (p, _) := places.foldl (visit s) ({ result := { path } }, none)
  p.result.typeMemberReceivers ["this"] true

end SourceAtlas.Extract.CSharp
