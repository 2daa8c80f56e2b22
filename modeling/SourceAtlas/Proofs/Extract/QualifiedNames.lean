import SourceAtlas.Proofs.Extract.Plain
import SourceAtlas.Proofs.Language
import SourceAtlas.Proofs.Text.Parts
import SourceAtlas.Resolve.ClassLookup

/-!
# C#: the name of a class is the last part of its qualified name

A class is registered under its name and under its qualified name, and a look-up by either takes the
last part of a name for the name of the class. This is right if names have no dots in them, which a
grammar sees to: a type is declared under an identifier. The extractor takes whatever text the tree
has there, so it is stated as a condition on the tree, `HasSimpleNames`.

* **`simpleName_join`**: the last of some parts can be read off them joined, if it has no dot;
* **`extract_qualifiedNames`**: so it is for every class that is extracted from such a tree.
-/

namespace SourceAtlas

namespace Resolve

theorem simpleName_of_not_mem {name : String} (h : '.' ∉ name.toList) : simpleName name = name := by
  unfold simpleName Text.splitLast?
  rw [Chars.splitLast?_of_not_mem h]
  rfl

/-- The last part of a name is that after its last dot. -/
theorem simpleName_of_dot (front : List Char) {name : String} (h : '.' ∉ name.toList) :
    simpleName (String.ofList (front ++ '.' :: name.toList)) = name := by
  unfold simpleName Text.splitLast?
  rw [String.toList_ofList, Chars.splitLast?_append front h]
  exact String.ofList_toList

/-- The last of some parts can be read off them joined, whatever the others look like. -/
theorem simpleName_join (outer : List String) {name : String} (h : '.' ∉ name.toList) :
    simpleName (Text.join "." (outer ++ [name])) = name := by
  have hdot : ".".toList = ['.'] := by decide
  unfold Text.join
  rw [List.map_append, List.map_cons, List.map_nil, hdot]
  -- without an outer part there is no dot to look for
  by_cases houter : outer.map String.toList = []
  · rw [houter, List.nil_append, List.intercalate_singleton, String.ofList_toList]
    exact simpleName_of_not_mem h
  · rw [Chars.intercalate_append houter (List.cons_ne_nil _ _), List.intercalate_singleton]
    exact simpleName_of_dot _ h

end Resolve

namespace Extract.CSharp

/-- No type of a file is declared under a name with a dot in it. -/
def HasSimpleNames (s : SourceText) (tree : Tree) : Prop :=
  ∀ place ∈ places tree, typeKinds.contains place.kind = true →
    ∀ name ∈ s.field? place.focus "name", '.' ∉ name.toList

/--
A class is given the text of the name of its declaration, and joins that to the names around it.
-/
theorem qualifiedName_of_classOf? {s : SourceText} {fileNamespace : Option String} {place : Cursor}
    {c : ClassDecl} (h : classOf? s fileNamespace place = some c) :
    s.field? place.focus "name" = some c.name
      ∧ ∃ outer, c.qualifiedName = Text.join "." (outer ++ [c.name]) := by
  unfold classOf? at h
  obtain ⟨name, hname, h⟩ := Option.bind_eq_some_iff.mp h
  rw [← Option.some.inj h]
  exact ⟨hname, _, rfl⟩

theorem names_listFunction (c : ClassDecl) (f : FunctionDecl) :
    (listFunction c f).name = c.name ∧ (listFunction c f).qualifiedName = c.qualifiedName := by
  unfold listFunction
  split
  · split <;> exact ⟨rfl, rfl⟩
  · exact ⟨rfl, rfl⟩

/-- **What the extractor gives is qualified by its names.** -/
theorem extract_qualifiedNames {path text : String} {tree : Tree} {x : Extraction}
    (hx : SourceAtlas.extract .csharp path text tree = .ok x)
    (hnames : HasSimpleNames (.ofString text) tree) :
    ∀ c ∈ x.classes, c.name = Resolve.simpleName c.qualifiedName := by
  unfold SourceAtlas.extract at hx
  split at hx
  · cases hx
  · rw [← Except.ok.inj hx]
    -- a class is made with its names, and none of the later steps changes them
    refine (each_extract (P := fun c => c.name = Resolve.simpleName c.qualifiedName)
      (Q := fun _ => True) (fun c f hc => ?_) (fun _ _ hc => hc) (fun _ _ _ _ => trivial)
      (fun _ _ _ => trivial) path fun place hplace hkind fileNamespace c hc => ?_).classes
    · obtain ⟨hname, hqualified⟩ := names_listFunction c f
      rw [hname, hqualified]
      exact hc
    · obtain ⟨hname, outer, hqualified⟩ := qualifiedName_of_classOf? hc
      rw [hqualified, Resolve.simpleName_join outer (hnames place hplace hkind c.name hname)]

end Extract.CSharp

end SourceAtlas
