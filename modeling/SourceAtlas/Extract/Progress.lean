import SourceAtlas.Extraction
import SourceAtlas.Tree.Cursor
import SourceAtlas.Tree.Source

/-!
# Reading members into their classes

Where members stand inside the declaration of their class, a file is read in document order. The
class of a member is found by the address of the declaration around it.
-/

namespace SourceAtlas.Extract

/-- What was read so far, with the slots of the classes by the address of their declaration. -/
structure Progress where
  result : Extraction
  slots : List (List Nat × Nat) := []

/-- Lists a function with its class: a method by its name, a constructor by its parameters. -/
def listFunction (c : ClassDecl) (f : FunctionDecl) : ClassDecl :=
  if f.kind == .constructor then
    if c.constructorParams.isEmpty then { c with constructorParams := f.params } else c
  else c.addMethod f.name

namespace Progress

/-- The slot of the class that is declared at a place. -/
def slotAt? (p : Progress) (owner : Option Cursor) : Option Nat :=
  owner.bind fun owner => p.slots.lookup owner.address

/-- The class in a slot. -/
def classIn? (p : Progress) (slot : Option Nat) : Option ClassDecl :=
  slot.bind fun slot => p.result.classes[slot]?

/-- Changes what was read, leaving the slots. -/
def change (p : Progress) (f : Extraction → Extraction) : Progress :=
  { p with result := f p.result }

/-- Adds a class that is declared at a place. -/
def addClass (p : Progress) (place : Cursor) (c : ClassDecl) : Progress :=
  { result := p.result.addClass c
    slots := (place.address, p.result.classes.length) :: p.slots }

/-- Changes the class in a slot, if there is one. -/
def modifySlot (p : Progress) (slot : Option Nat) (f : ClassDecl → ClassDecl) : Progress :=
  slot.elim p fun slot => p.change (·.modifyClass slot f)

/-- Adds properties to the class in a slot, if there is one. -/
def addProperties (p : Progress) (slot : Option Nat) (properties : List Property) : Progress :=
  p.modifySlot slot fun c => { c with properties := c.properties ++ properties }

/-- Adds a function, and lists it with the class in a slot. -/
def addFunction (p : Progress) (slot : Option Nat) (f : FunctionDecl) : Progress :=
  (p.modifySlot slot (listFunction · f)).change (·.addFunction f)

end Progress

/-- The class named by a constructed type: `ArrayList` for `java.util.ArrayList<String>`. -/
def constructedType (type : String) : String :=
  lastSegment (Text.trim (String.ofList (type.toList.takeWhile (· != '<'))))

end SourceAtlas.Extract
