import SourceAtlas.Model.File
import SourceAtlas.Total

/-!
# What one file declares

The result of reading one source file: its imports, classes and functions, with imports and calls
not yet resolved.
-/

namespace SourceAtlas

structure Extraction where
  path : String
  /-- The package, namespace or module the file declares; the first one if it declares several. -/
  namespaceName : Option String := none
  imports : List Import := []
  classes : List ClassDecl := []
  functions : List FunctionDecl := []
  /-- Things noticed that did not stop the reading. -/
  warnings : List String := []
  deriving Repr, Inhabited

namespace Extraction

def addImport (x : Extraction) (i : Import) : Extraction :=
  { x with imports := x.imports ++ [i] }

def addClass (x : Extraction) (c : ClassDecl) : Extraction :=
  { x with classes := x.classes ++ [c] }

def addFunction (x : Extraction) (f : FunctionDecl) : Extraction :=
  { x with functions := x.functions ++ [f] }

def warn (x : Extraction) (message : String) : Extraction :=
  { x with warnings := x.warnings ++ [message] }

/-- Takes a namespace if none was declared before. -/
def declareNamespace (x : Extraction) (name : Option String) : Extraction :=
  { x with namespaceName := x.namespaceName.or name }

/-- Changes the class in a slot. -/
def modifyClass (x : Extraction) (slot : Nat) (f : ClassDecl → ClassDecl) : Extraction :=
  { x with classes := x.classes.modify slot f }

/-- Changes the first class with a name. -/
def modifyNamed (x : Extraction) (name : String) (f : ClassDecl → ClassDecl) : Extraction :=
  match x.classes.findIdx? (·.name == name) with
  | some slot => x.modifyClass slot f
  | none => x

/-! ### Receivers that are members -/

/-- The declared type of a member of a class; of several declarations the last one counts. -/
def memberType? (x : Extraction) (className member : String) : Option String :=
  (x.classes.flatMap fun c =>
      if c.name == className then
        c.properties.filterMap fun p => if p.name == member then p.typeName else none
      else []).getLast?

/-- The member that a receiver names through one of the self names: `repo` in `this.repo`. -/
def selfMember? (selfNames : List String) (receiver : String) : Option String :=
  selfNames.findSome? fun self =>
    (Text.stripPrefix? receiver self).bind (Text.stripPrefix? · ".")

/--
Gives a call the type of the member it is made on, if the enclosing class declares one. With
`implicit`, a bare receiver may be a member too. A call that has a type keeps it.
-/
def typeCall (x : Extraction) (selfNames : List String) (implicit : Bool) (className : String)
    (call : CallSite) : CallSite :=
  match call.receiverType, call.receiver with
  | none, some receiver =>
    match (selfMember? selfNames receiver).or (if implicit then some receiver else none) with
    | some member => { call with receiverType := x.memberType? className member }
    | none => call
  | _, _ => call

/-- Types the calls that are made on members of the enclosing class. -/
def typeMemberReceivers (x : Extraction) (selfNames : List String) (implicit : Bool) : Extraction :=
  { x with
    functions := x.functions.map fun f =>
      match f.className with
      | some c => { f with calls := f.calls.map (x.typeCall selfNames implicit c) }
      | none => f }

/-! ### Statistics -/

/-- The counts of an extraction in words. -/
def stats (x : Extraction) : String :=
  let calls := total (·.calls.length) x.functions
  let base :=
    Text.ofNat x.classes.length ++ " classes, " ++ Text.ofNat x.functions.length ++ " functions, "
      ++ Text.ofNat calls ++ " calls, " ++ Text.ofNat x.imports.length ++ " imports"
  if x.warnings.isEmpty then base
  else base ++ ", " ++ Text.ofNat x.warnings.length ++ " warnings"

end Extraction

end SourceAtlas
