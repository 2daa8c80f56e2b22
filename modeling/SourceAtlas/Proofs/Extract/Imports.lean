import SourceAtlas.Extract

/-!
# Extraction: the path and the imports of a file

Two facts about what is read of a file hold for every text and tree, and the resolution of calls
rests on both:

* an extraction carries the path of its file (`extract_path`);
* Go, Python and TypeScript files have no static imports (`extract_not_static`). There the targets
  of an import are any known paths, and only a static import is taken at its word.

Both come from one invariant, `ReadFrom`, which each step of each walker keeps.
-/

namespace SourceAtlas

/-- What was read of the file at `path` so far, with every import as `ok` asks. -/
structure Extraction.ReadFrom (path : String) (ok : Import → Prop) (x : Extraction) : Prop where
  path_eq : x.path = path
  imports_ok : ∀ i ∈ x.imports, ok i

namespace Extraction.ReadFrom

variable {path : String} {ok : Import → Prop} {x y : Extraction}

/-! ## Steps that read no import

Everything but an import statement leaves the path and the imports as they are. -/

/-- A file starts out with its path and no import. -/
theorem start : ReadFrom path ok { path } :=
  ⟨rfl, by simp⟩

/-- A step that changes neither the path nor the imports. -/
theorem of_eq (h : ReadFrom path ok x) (hpath : y.path = x.path)
    (himports : y.imports = x.imports) :
    ReadFrom path ok y :=
  ⟨hpath.trans h.path_eq, himports ▸ h.imports_ok⟩

theorem addClass (h : ReadFrom path ok x) (c : ClassDecl) : ReadFrom path ok (x.addClass c) :=
  h.of_eq rfl rfl

theorem addFunction (h : ReadFrom path ok x) (f : FunctionDecl) :
    ReadFrom path ok (x.addFunction f) :=
  h.of_eq rfl rfl

theorem declareNamespace (h : ReadFrom path ok x) (name : Option String) :
    ReadFrom path ok (x.declareNamespace name) :=
  h.of_eq rfl rfl

theorem modifyClass (h : ReadFrom path ok x) (slot : Nat) (f : ClassDecl → ClassDecl) :
    ReadFrom path ok (x.modifyClass slot f) :=
  h.of_eq rfl rfl

theorem modifyNamed (h : ReadFrom path ok x) (name : String) (f : ClassDecl → ClassDecl) :
    ReadFrom path ok (x.modifyNamed name f) := by
  unfold Extraction.modifyNamed
  split
  · exact h.modifyClass _ f
  · exact h

theorem typeMemberReceivers (h : ReadFrom path ok x) (selfNames : List String) (implicit : Bool) :
    ReadFrom path ok (x.typeMemberReceivers selfNames implicit) :=
  h.of_eq rfl rfl

/-! ## Import statements -/

/-- Several imports at once. -/
theorem addImports (h : ReadFrom path ok x) {is : List Import} (his : ∀ i ∈ is, ok i) :
    ReadFrom path ok { x with imports := x.imports ++ is } := by
  refine ⟨h.path_eq, ?_⟩
  intro j hj
  rcases List.mem_append.mp hj with hj | hj
  · exact h.imports_ok j hj
  · exact his j hj

/-- One more import. -/
theorem addImport (h : ReadFrom path ok x) {i : Import} (hi : ok i) :
    ReadFrom path ok (x.addImport i) := by
  refine h.addImports ?_
  intro j hj
  rw [List.mem_singleton.mp hj]
  exact hi

end Extraction.ReadFrom

namespace Extract

variable {path : String} {ok : Import → Prop}

/-! ## Steps of a walk

A walk keeps the class slots beside what it has read. The slots say nothing about imports, so the
invariant is about the result alone. -/

namespace Progress

variable {p : Progress}

theorem readFrom_addClass (h : p.result.ReadFrom path ok) (place : Cursor) (c : ClassDecl) :
    (p.addClass place c).result.ReadFrom path ok :=
  h.addClass c

/-- A class that may not be there is changed. -/
theorem readFrom_modifySlot (h : p.result.ReadFrom path ok) (slot : Option Nat)
    (f : ClassDecl → ClassDecl) : (p.modifySlot slot f).result.ReadFrom path ok := by
  cases slot with
  | none => exact h
  | some slot => exact h.modifyClass slot f

theorem readFrom_addFunction (h : p.result.ReadFrom path ok) (slot : Option Nat)
    (f : FunctionDecl) : (p.addFunction slot f).result.ReadFrom path ok :=
  (readFrom_modifySlot h slot _).addFunction f

/-- An import that may not be there. -/
theorem readFrom_addImport? (h : p.result.ReadFrom path ok) {i : Option Import}
    (hi : ∀ j, i = some j → ok j) :
    (i.elim p fun j => p.change (·.addImport j)).result.ReadFrom path ok := by
  cases i with
  | none => exact h
  | some j => exact h.addImport (hi j rfl)

/-- A class that may not be there. -/
theorem readFrom_addClass? (h : p.result.ReadFrom path ok) (place : Cursor)
    (c : Option ClassDecl) : (c.elim p (p.addClass place)).result.ReadFrom path ok := by
  cases c with
  | none => exact h
  | some c => exact readFrom_addClass h place c

/-- A function that may not be there. -/
theorem readFrom_addFunction? (h : p.result.ReadFrom path ok) (slot : Option Nat)
    (f : Option FunctionDecl) : (f.elim p (p.addFunction slot)).result.ReadFrom path ok := by
  cases f with
  | none => exact h
  | some f => exact readFrom_addFunction h slot f

end Progress

/-! ## Go -/

namespace Go

/-- No import of a Go file is static. -/
theorem importOf?_not_static {s : SourceText} {spec : Tree} {i : Import}
    (h : importOf? s spec = some i) : i.isStatic = false := by
  unfold importOf? at h
  obtain ⟨source, -, h⟩ := Option.bind_eq_some_iff.mp h
  split at h
  · rw [← Option.some.inj h]
  · split at h
    · rw [← Option.some.inj h]
    · split at h <;> rw [← Option.some.inj h]

/-- The declarations of a Go file; only an import matters. -/
theorem readFrom_addDeclaration {s : SourceText} {x : Extraction}
    (h : x.ReadFrom path (·.isStatic = false)) (node : Tree) :
    (addDeclaration s x node).ReadFrom path (·.isStatic = false) := by
  unfold addDeclaration
  split
  · exact h.declareNamespace _
  · cases hi : importOf? s node with
    | none => exact h
    | some i => exact h.addImport (importOf?_not_static hi)
  · cases classOf? s x.namespaceName node with
    | none => exact h
    | some c => exact h.addClass c
  · exact h

theorem readFrom_addFunction {x : Extraction} (h : x.ReadFrom path ok) (f : FunctionDecl) :
    (addFunction x f).ReadFrom path ok := by
  unfold addFunction
  cases f.className with
  | none => exact h.addFunction f
  | some c => exact (h.modifyNamed c _).addFunction f

/-- A Go file, declaration by declaration. -/
theorem readFrom_extract (path : String) (s : SourceText) (tree : Tree) :
    (extract path s tree).ReadFrom path (·.isStatic = false) := by
  unfold extract
  apply Extraction.ReadFrom.typeMemberReceivers
  -- functions are read after all other declarations
  refine List.foldlRecOn _ _
    (motive := fun x : Extraction => x.ReadFrom path (·.isStatic = false)) ?_ ?_
  · refine List.foldlRecOn _ _
      (motive := fun x : Extraction => x.ReadFrom path (·.isStatic = false)) .start ?_
    exact fun x hx node _ => readFrom_addDeclaration hx node
  · exact fun x hx f _ => readFrom_addFunction hx f

end Go

/-! ## Python -/

namespace Python

/-- The modules of an `import` statement. -/
theorem importsOf_not_static {s : SourceText} {node : Tree} {i : Import}
    (h : i ∈ importsOf s node) : i.isStatic = false := by
  obtain ⟨nameNode, -, rfl⟩ := List.mem_map.mp h
  rfl

/-- The module of a `from` statement. -/
theorem fromImportOf?_not_static {s : SourceText} {node : Tree} {i : Import}
    (h : fromImportOf? s node = some i) : i.isStatic = false := by
  unfold fromImportOf? at h
  obtain ⟨source, -, h⟩ := Option.bind_eq_some_iff.mp h
  rw [← Option.some.inj h]

/-- The nodes of a Python file; two kinds of them import. -/
theorem readFrom_visit {s : SourceText} {p : Progress}
    (h : p.result.ReadFrom path (·.isStatic = false)) (place : Cursor) :
    (visit s p place).result.ReadFrom path (·.isStatic = false) := by
  unfold visit
  split
  · -- one statement may import several modules
    refine List.foldlRecOn _ _
      (motive := fun p : Progress => p.result.ReadFrom path (·.isStatic = false)) h ?_
    exact fun p hp i hi => hp.addImport (importsOf_not_static hi)
  · exact Progress.readFrom_addImport? h fun _ => fromImportOf?_not_static
  · exact Progress.readFrom_addClass? h place _
  · exact (Progress.readFrom_modifySlot h _ _).addFunction _
  · exact h

theorem readFrom_extract (path : String) (s : SourceText) (tree : Tree) :
    (extract path s tree).ReadFrom path (·.isStatic = false) := by
  unfold extract
  apply Extraction.ReadFrom.typeMemberReceivers
  refine List.foldlRecOn _ _
    (motive := fun p : Progress => p.result.ReadFrom path (·.isStatic = false)) .start ?_
  exact fun p hp place _ => readFrom_visit hp place

end Python

/-! ## TypeScript

Imports come from statements, from exports with a source, and from calls of `require` and `import`,
which are read in a second pass. -/

namespace TypeScript

/-- No import statement of TypeScript is static. -/
theorem importOf?_not_static {s : SourceText} {node : Tree} {i : Import}
    (h : importOf? s node = some i) : i.isStatic = false := by
  unfold importOf? at h
  -- the source stands in the statement itself, or in its `require` clause
  split at h
  · rw [← Option.some.inj h]
  · obtain ⟨clause, -, h⟩ := Option.bind_eq_some_iff.mp h
    obtain ⟨source, -, h⟩ := Option.bind_eq_some_iff.mp h
    rw [← Option.some.inj h]

/-- A call that imports is none either. -/
theorem dynamicImportOf?_not_static {s : SourceText} {call : Cursor} {i : Import}
    (h : dynamicImportOf? s call = some i) : i.isStatic = false := by
  unfold dynamicImportOf? at h
  dsimp only at h
  -- each test on the way to the source can fail, and then there is no import
  split at h
  · cases h
  · obtain ⟨function, -, h⟩ := Option.bind_eq_some_iff.mp h
    split at h
    · cases h
    · obtain ⟨arguments, -, h⟩ := Option.bind_eq_some_iff.mp h
      obtain ⟨source, -, h⟩ := Option.bind_eq_some_iff.mp h
      split at h
      · cases h
      · rw [← Option.some.inj h]

theorem readFrom_addField {s : SourceText} {p : Progress} (h : p.result.ReadFrom path ok)
    (slot : Nat) (className : String) (node : Tree) :
    (addField s p slot className node).result.ReadFrom path ok := by
  unfold addField
  split
  · split
    · exact h
    · exact (Progress.readFrom_modifySlot h _ _).addFunction _
  · exact Progress.readFrom_modifySlot h _ _

theorem readFrom_addMethod {p : Progress} (h : p.result.ReadFrom path ok) (slot : Nat)
    (f : FunctionDecl) (properties : List Property) :
    (addMethod p slot f properties).result.ReadFrom path ok :=
  (Progress.readFrom_modifySlot h _ _).addFunction f

/-- A field of the class around it, if there is one. -/
theorem readFrom_addField? {s : SourceText} {p : Progress} (h : p.result.ReadFrom path ok)
    (owner : Option (Nat × String)) (node : Tree) :
    (owner.elim p fun (slot, className) => addField s p slot className node).result.ReadFrom
      path ok := by
  cases owner with
  | none => exact h
  | some o => exact readFrom_addField h o.1 o.2 node

/-- A method of the class around it, if there is one. -/
theorem readFrom_addMethod? {s : SourceText} {p : Progress} (h : p.result.ReadFrom path ok)
    (owner : Option (Nat × String)) (node : Tree) :
    (match owner with
      | none => p
      | some (slot, className) =>
        (methodOf? s className node).elim p fun (f, properties) =>
          addMethod p slot f properties).result.ReadFrom path ok := by
  cases owner with
  | none => exact h
  | some o =>
    simp only
    cases methodOf? s o.2 node with
    | none => exact h
    | some m => exact readFrom_addMethod h o.1 m.1 m.2

/-- A function under a name that may not be there. -/
theorem readFrom_addNamed? {p : Progress} (h : p.result.ReadFrom path ok) (name : Option String)
    (f : String → FunctionDecl) :
    (match name with
      | none => p
      | some name => p.change (·.addFunction (f name))).result.ReadFrom path ok := by
  cases name with
  | none => exact h
  | some name => exact h.addFunction (f name)

/-- The nodes of a TypeScript file; statements and exports with a source import. -/
theorem readFrom_visit {s : SourceText} {p : Progress}
    (h : p.result.ReadFrom path (·.isStatic = false)) (place : Cursor) :
    (visit s p place).result.ReadFrom path (·.isStatic = false) := by
  unfold visit
  simp only
  split
  · exact Progress.readFrom_addImport? h fun _ => importOf?_not_static
  · split
    · exact h.addImport rfl
    · exact h
  · exact readFrom_addField? h _ _
  · exact readFrom_addField? h _ _
  · exact readFrom_addMethod? h _ _
  · exact readFrom_addMethod? h _ _
  · exact readFrom_addNamed? h _ _
  · exact readFrom_addNamed? h _ _
  · split
    · exact h.addFunction _
    · exact h
  · split
    · exact Progress.readFrom_addClass? h place _
    · exact h

theorem readFrom_publish {x : Extraction} (h : x.ReadFrom path ok) (names : List String) :
    (publish names x).ReadFrom path ok :=
  h.of_eq rfl rfl

theorem readFrom_extract (path : String) (s : SourceText) (tree : Tree) :
    (extract path s tree).ReadFrom path (·.isStatic = false) := by
  unfold extract
  apply Extraction.ReadFrom.typeMemberReceivers
  -- the second pass adds to what the first one has read
  apply Extraction.ReadFrom.addImports
  · apply readFrom_publish
    refine List.foldlRecOn _ _
      (motive := fun p : Progress => p.result.ReadFrom path (·.isStatic = false)) .start ?_
    exact fun p hp place _ => readFrom_visit hp place
  · intro i hi
    obtain ⟨call, -, hcall⟩ := List.mem_filterMap.mp hi
    exact dynamicImportOf?_not_static hcall

end TypeScript

/-! ## Java, C# and Apex

These languages have static imports, so only the path is of interest. -/

namespace Java

/-- The nodes of a Java file. -/
theorem readFrom_visit {r : Reading} {p : Progress} (h : p.result.ReadFrom path fun _ => True)
    (place : Cursor) : (visit r p place).result.ReadFrom path fun _ => True := by
  unfold visit
  simp only
  split
  · exact h.declareNamespace _
  · exact Progress.readFrom_addImport? h fun _ _ => trivial
  · exact Progress.readFrom_modifySlot h _ _
  · exact Progress.readFrom_modifySlot h _ _
  · exact Progress.readFrom_addFunction? h _ _
  · exact Progress.readFrom_addFunction? h _ _
  · exact Progress.readFrom_addFunction? h _ _
  · split
    · exact Progress.readFrom_addClass? h place _
    · exact h

/-- A walk keeps the path of what it extends, for Apex too. -/
theorem readFrom_extend {x : Extraction} (h : x.ReadFrom path fun _ => True) (r : Reading)
    (tree : Tree) : (extend r x tree).ReadFrom path fun _ => True := by
  unfold extend
  apply Extraction.ReadFrom.typeMemberReceivers
  refine List.foldlRecOn _ _
    (motive := fun p : Progress => p.result.ReadFrom path fun _ => True) h ?_
  exact fun p hp place _ => readFrom_visit hp place

end Java

namespace CSharp

/-- The nodes of a C# file. -/
theorem readFrom_visit {s : SourceText} {st : Progress × Option String}
    (h : st.1.result.ReadFrom path fun _ => True) (place : Cursor) :
    (visit s st place).1.result.ReadFrom path fun _ => True := by
  obtain ⟨p, fileNamespace⟩ := st
  unfold visit
  simp only
  split
  · dsimp only
    exact Progress.readFrom_addImport? h fun _ _ => trivial
  · exact h.declareNamespace _
  · exact h.declareNamespace _
  · exact Progress.readFrom_modifySlot h _ _
  · exact Progress.readFrom_modifySlot h _ _
  · exact Progress.readFrom_modifySlot h _ _
  · exact Progress.readFrom_addFunction? h _ _
  · exact Progress.readFrom_addFunction? h _ _
  · split
    · exact Progress.readFrom_addClass? h place _
    · exact h

theorem readFrom_extract (path : String) (s : SourceText) (tree : Tree) :
    (extract path s tree).ReadFrom path fun _ => True := by
  unfold extract
  simp only
  -- the walk carries the namespace of the file beside its progress
  have hwalk : (List.foldl (visit s) ({ result := { path } }, none)
      ((Cursor.root tree).preorder fun c => bodyKinds.contains c.kind)).1.result.ReadFrom path
        fun _ => True := by
    refine List.foldlRecOn _ _
      (motive := fun st : Progress × Option String => st.1.result.ReadFrom path fun _ => True)
      .start ?_
    exact fun st hst place _ => readFrom_visit hst place
  exact hwalk.typeMemberReceivers ["this"] true

end CSharp

namespace Apex

theorem readFrom_extract (path : String) (s : SourceText) (tree : Tree) :
    (extract path s tree).ReadFrom path fun _ => True := by
  unfold extract
  simp only
  apply Java.readFrom_extend
  -- the class and the function of a trigger come before what the tree declares
  cases (mask s.text).2 with
  | none => exact .start
  | some h => exact (Extraction.ReadFrom.start.addClass _).addFunction _

end Apex

end Extract

/-! ## All languages -/

/-- An extraction carries the path of its file. -/
theorem extract_path {l : Language} {path text : String} {tree : Tree} {x : Extraction}
    (h : extract l path text tree = .ok x) : x.path = path := by
  unfold extract at h
  split at h
  · cases h
  · rw [← Except.ok.inj h]
    cases l with
    | go => exact (Extract.Go.readFrom_extract path _ tree).path_eq
    | java => exact (Extract.Java.readFrom_extend .start _ tree).path_eq
    | python => exact (Extract.Python.readFrom_extract path _ tree).path_eq
    | typescript => exact (Extract.TypeScript.readFrom_extract path _ tree).path_eq
    | csharp => exact (Extract.CSharp.readFrom_extract path _ tree).path_eq
    | apex => exact (Extract.Apex.readFrom_extract path _ tree).path_eq

/-- Whether files of a language can import the members of a type. -/
def Language.hasStaticImports : Language → Bool
  | .java | .csharp | .apex => true
  | .go | .python | .typescript => false

/-- Files of a language without static imports have none. -/
theorem extract_not_static {l : Language} {path text : String} {tree : Tree} {x : Extraction}
    (h : extract l path text tree = .ok x) (hl : l.hasStaticImports = false) :
    ∀ i ∈ x.imports, i.isStatic = false := by
  unfold extract at h
  split at h
  · cases h
  · rw [← Except.ok.inj h]
    cases l with
    | go => exact (Extract.Go.readFrom_extract path _ tree).imports_ok
    | python => exact (Extract.Python.readFrom_extract path _ tree).imports_ok
    | typescript => exact (Extract.TypeScript.readFrom_extract path _ tree).imports_ok
    | java | csharp | apex => cases hl

end SourceAtlas
