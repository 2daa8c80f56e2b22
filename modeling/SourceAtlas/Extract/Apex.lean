import SourceAtlas.Extract.Apex.Mask
import SourceAtlas.Extract.Java

/-!
# Declarations of Apex files

The text is masked and read as Java. The header of a trigger is a class of its own, with the body
of the trigger as its only method.
-/

namespace SourceAtlas.Extract.Apex

/-- Adds the class and the function of a trigger. -/
def addTrigger (written masked : SourceText) (tree : Tree) (h : TriggerHeader) (x : Extraction) :
    Extraction :=
  let line := written.lineAt h.start
  let body := tree.namedChildren.find? fun n => n.kind == "block" && h.stop ≤ n.label.start
  let endLine := (body.map masked.endLine).getD line
  let c : ClassDecl :=
    { name := h.name
      qualifiedName := h.name
      kind := .trigger
      visibility := .pub
      interfaces := [h.object]
      methods := [h.name]
      startLine := line
      endLine := endLine }
  let f : FunctionDecl :=
    { name := h.name
      kind := .method
      visibility := .pub
      className := some h.name
      startLine := line
      endLine := endLine
      calls := (body.map (Java.bodyCalls masked [])).getD [] }
  (x.addClass c).addFunction f

/-- What an Apex file declares, given the tree of its masked text. -/
def extract (path : String) (s : SourceText) (tree : Tree) : Extraction :=
  let (text, header) := mask s.text
  let masked := SourceText.ofString text
  let x : Extraction := { path }
  let x := header.elim x fun h => addTrigger s masked tree h x
  Java.extend ⟨.apex, masked, s⟩ x tree

end SourceAtlas.Extract.Apex
