import SourceAtlas.Json.Basic
import SourceAtlas.Text.Basic

/-!
# Classes, functions and calls

What is known of a declaration: its name, kind, visibility and place, and for a function the calls
made directly in its body.
-/

namespace SourceAtlas

/-- Declared visibility, after the default rule of the language. -/
inductive Visibility where
  | pub
  | priv
  | prot
  | internal
  | protectedInternal
  | package
  | global
  deriving DecidableEq, Repr, Inhabited

namespace Visibility

/-- A name is exported if it starts with a capital letter. -/
def ofCapital (name : String) : Visibility :=
  match name.toList with
  | c :: _ => if Text.isUppercase c then .pub else .priv
  | [] => .priv

/-- A name is hidden if it starts with an underscore, unless two underscores enclose it. -/
def ofUnderscore (name : String) : Visibility :=
  let dunder := 4 < name.utf8ByteSize && Text.startsWith name "__" && Text.endsWith name "__"
  if Text.startsWith name "_" && !dunder then .priv else .pub

end Visibility

inductive ClassKind where
  | cls
  | interface
  | struct
  | enumeration
  | record
  | trigger
  deriving DecidableEq, Repr, Inhabited

inductive ClassModifier where
  | abstract
  | sealed
  | static
  | partialDecl
  | virtual
  deriving DecidableEq, Repr, Inhabited

inductive FunctionKind where
  | free
  | method
  | static
  | constructor
  deriving DecidableEq, Repr, Inhabited

/-- What was added to a node after extraction. It is carried along and never written here. -/
structure Enrichment where
  description : Option String := none
  roles : Option (List String) := none
  metadata : Option Json := none
  deriving Repr, Inhabited

/-- A node is to be enriched until it has both a description and roles. -/
def Enrichment.isMissing (e : Enrichment) : Bool :=
  e.description.isNone || e.roles.isNone

/-- A field or property of a class. -/
structure Property where
  name : String
  typeName : Option String := none
  visibility : Visibility
  isStatic : Bool := false
  isFinal : Bool := false
  hasDefault : Bool := false
  deriving DecidableEq, Repr, Inhabited

/-- A property with a type as written; an empty type is none. -/
def Property.typed (name : String) (visibility : Visibility) (typeName : Option String) :
    Property :=
  { name, visibility, typeName := typeName.filter (!·.isEmpty) }

/-- A class, interface, struct, enum, record or trigger. -/
structure ClassDecl where
  name : String
  /-- The name with its namespace or package, or the names of the enclosing types. -/
  qualifiedName : String
  kind : ClassKind
  visibility : Visibility
  modifiers : List ClassModifier := []
  superclass : Option String := none
  interfaces : List String := []
  constructorParams : List String := []
  /-- The names of the methods, each once. -/
  methods : List String := []
  properties : List Property := []
  startLine : Nat := 0
  endLine : Nat := 0
  enrichment : Enrichment := {}
  deriving Repr, Inhabited

/-- Adds an item at the end unless it is there already. -/
def addNew {α : Type} [BEq α] (items : List α) (item : α) : List α :=
  if items.contains item then items else items ++ [item]

namespace ClassDecl

/-- Lists a method name, once. -/
def addMethod (c : ClassDecl) (name : String) : ClassDecl :=
  { c with methods := addNew c.methods name }

/-- Adds a modifier, once. -/
def addModifier (c : ClassDecl) (m : ClassModifier) : ClassDecl :=
  { c with modifiers := addNew c.modifiers m }

def addProperty (c : ClassDecl) (p : Property) : ClassDecl :=
  { c with properties := c.properties ++ [p] }

end ClassDecl

/-- A call made directly in the body of a function. -/
structure CallSite where
  name : String
  /-- The file that declares the callee, if it is in the repository. -/
  path : Option String := none
  /-- The expression left of the call: `obj` in `obj.save()`. -/
  receiver : Option String := none
  /-- The type of the receiver, if the file tells it. -/
  receiverType : Option String := none
  deriving DecidableEq, Repr, Inhabited

/-- A call with receiver and receiver type as written; an empty text is none. -/
def CallSite.written (name : String) (receiver receiverType : Option String) : CallSite :=
  { name
    receiver := receiver.filter (!·.isEmpty)
    receiverType := receiverType.filter (!·.isEmpty) }

/-- A free function, method or constructor. -/
structure FunctionDecl where
  name : String
  kind : FunctionKind
  visibility : Visibility
  className : Option String := none
  params : List String := []
  startLine : Nat := 0
  endLine : Nat := 0
  calls : List CallSite := []
  enrichment : Enrichment := {}
  deriving Repr, Inhabited

end SourceAtlas
