import SourceAtlas.Extract

/-!
# Extraction: what holds of every declaration

A declaration comes in as the reader of its language makes it. Afterwards a class gets the names of
its methods, properties and modifiers, and a call the type of its receiver, but nothing else
changes. So what holds of a declaration when it comes in, and is not about these, holds of it in the
end. `Each` says it of all declarations of a file, with one lemma for every step.

* **`extract_isPlain`**: descriptions, roles and free-form data are added to a node after its
  extraction. What is extracted of a file has none, in any language;
* **`CSharp.each_extract`**: the walk of a C# file for any property that its steps keep.
-/

namespace SourceAtlas

/-- Something holds of every class and something of every function of a file. -/
structure Extraction.Each (P : ClassDecl → Prop) (Q : FunctionDecl → Prop) (x : Extraction) :
    Prop where
  classes : ∀ c ∈ x.classes, P c
  functions : ∀ f ∈ x.functions, Q f

/-- Nothing was added to what a file declares. -/
abbrev Extraction.IsPlain (x : Extraction) : Prop :=
  x.Each (·.enrichment = {}) (·.enrichment = {})

namespace Extraction.Each

variable {P : ClassDecl → Prop} {Q : FunctionDecl → Prop} {x y : Extraction}

/-- A file starts out with no declarations. -/
theorem start (path : String) : Each P Q { path } :=
  ⟨by simp, by simp⟩

/-- Imports, namespaces and warnings do not matter. -/
theorem of_eq (h : x.Each P Q) (hclasses : y.classes = x.classes)
    (hfunctions : y.functions = x.functions) : y.Each P Q :=
  ⟨hclasses ▸ h.classes, hfunctions ▸ h.functions⟩

/-- A class that comes in has to have the property. -/
theorem addClass (h : x.Each P Q) {c : ClassDecl} (hc : P c) : (x.addClass c).Each P Q := by
  refine ⟨fun d hd => ?_, h.functions⟩
  -- the new class comes last
  rcases List.mem_append.mp hd with hd | hd
  · exact h.classes d hd
  · rw [List.mem_singleton.mp hd]
    exact hc

/-- And so has a function. -/
theorem addFunction (h : x.Each P Q) {f : FunctionDecl} (hf : Q f) :
    (x.addFunction f).Each P Q := by
  refine ⟨h.classes, fun k hk => ?_⟩
  rcases List.mem_append.mp hk with hk | hk
  · exact h.functions k hk
  · rw [List.mem_singleton.mp hk]
    exact hf

/-- Changing the class in a slot, which may be empty. -/
theorem modifyClass (h : x.Each P Q) (slot : Nat) {g : ClassDecl → ClassDecl}
    (hg : ∀ c, P c → P (g c)) : (x.modifyClass slot g).Each P Q := by
  refine ⟨fun c hc => ?_, h.functions⟩
  obtain ⟨i, hi⟩ := List.mem_iff_getElem?.mp hc
  rw [Extraction.modifyClass, List.getElem?_modify] at hi
  -- every class is one of before, changed if it is in the slot
  obtain ⟨d, hd, rfl⟩ := Option.map_eq_some_iff.mp hi
  have hbefore := h.classes d (List.mem_of_getElem? hd)
  split
  · exact hg d hbefore
  · exact hbefore

/-- Changing the class of a name, if there is one. -/
theorem modifyNamed (h : x.Each P Q) (name : String) {g : ClassDecl → ClassDecl}
    (hg : ∀ c, P c → P (g c)) : (x.modifyNamed name g).Each P Q := by
  unfold Extraction.modifyNamed
  split
  · exact h.modifyClass _ hg
  · exact h

/-- Typing receivers changes nothing but calls. -/
theorem typeMemberReceivers (h : x.Each P Q) (hcalls : ∀ f calls, Q f → Q { f with calls })
    (selfNames : List String) (implicit : Bool) :
    (x.typeMemberReceivers selfNames implicit).Each P Q := by
  refine ⟨h.classes, fun f hf => ?_⟩
  obtain ⟨k, hk, rfl⟩ := List.mem_map.mp hf
  split
  · exact hcalls k _ (h.functions k hk)
  · exact h.functions k hk

end Extraction.Each

namespace Extract

/-! ## Steps of a walk -/

/-- A function is listed with a class by its name or its parameters, whatever else the class has. -/
theorem enrichment_listFunction (c : ClassDecl) (f : FunctionDecl) :
    (listFunction c f).enrichment = c.enrichment := by
  unfold listFunction
  split
  · split <;> rfl
  · rfl

namespace Progress

variable {P : ClassDecl → Prop} {Q : FunctionDecl → Prop} {p : Progress}

/-- Changing a class that may not be there. -/
theorem each_modifySlot (h : p.result.Each P Q) (slot : Option Nat) {g : ClassDecl → ClassDecl}
    (hg : ∀ c, P c → P (g c)) : (p.modifySlot slot g).result.Each P Q := by
  cases slot with
  | none => exact h
  | some slot => exact h.modifyClass slot hg

theorem each_addImport? (h : p.result.Each P Q) (i : Option Import) :
    (i.elim p fun j => p.change (·.addImport j)).result.Each P Q := by
  cases i with
  | none => exact h
  | some j => exact h.of_eq rfl rfl

/-- A class comes in, if the place declares one. -/
theorem each_addClass? (h : p.result.Each P Q) (place : Cursor) {c : Option ClassDecl}
    (hc : ∀ d, c = some d → P d) : (c.elim p (p.addClass place)).result.Each P Q := by
  cases c with
  | none => exact h
  | some d => exact h.addClass (hc d rfl)

/-- A function comes in and is listed with its class. -/
theorem each_addFunction? (h : p.result.Each P Q) (hlist : ∀ c f, P c → P (listFunction c f))
    (slot : Option Nat) {f : Option FunctionDecl} (hf : ∀ k, f = some k → Q k) :
    (f.elim p (p.addFunction slot)).result.Each P Q := by
  cases f with
  | none => exact h
  | some k => exact (each_modifySlot h slot (hlist · k)).addFunction (hf k rfl)

/-- The last step for a class and a function that come in plain. -/
theorem isPlain_addFunction? (h : p.result.IsPlain) (slot : Option Nat) {f : Option FunctionDecl}
    (hf : ∀ k, f = some k → k.enrichment = {}) :
    (f.elim p (p.addFunction slot)).result.IsPlain :=
  each_addFunction? h (fun c k hc => (enrichment_listFunction c k).trans hc) slot hf

end Progress

/-- Typing receivers adds nothing to a node. -/
theorem isPlain_typeMemberReceivers {x : Extraction} (h : x.IsPlain) (selfNames : List String)
    (implicit : Bool) : (x.typeMemberReceivers selfNames implicit).IsPlain :=
  h.typeMemberReceivers (fun _ _ hf => hf) selfNames implicit

/-! ## Java and Apex -/

namespace Java

/-- A class is read without anything added to it. -/
theorem enrichment_of_classOf? {r : Reading} {package : Option String} {place : Cursor}
    {c : ClassDecl} (h : classOf? r package place = some c) : c.enrichment = {} := by
  unfold classOf? at h
  obtain ⟨name, -, h⟩ := Option.bind_eq_some_iff.mp h
  rw [← Option.some.inj h]

/-- A method is read without anything added to it. -/
theorem enrichment_of_methodOf? {r : Reading} {className : Option String} {place : Cursor}
    {f : FunctionDecl} (h : methodOf? r className place = some f) : f.enrichment = {} := by
  unfold methodOf? at h
  obtain ⟨name, -, h⟩ := Option.bind_eq_some_iff.mp h
  rw [← Option.some.inj h]

/-- A place adds an import, a property, a method or a class, each plain. -/
theorem isPlain_visit {r : Reading} {p : Progress} (h : p.result.IsPlain) (place : Cursor) :
    (visit r p place).result.IsPlain := by
  unfold visit
  simp only
  split
  · -- a package
    exact h.of_eq rfl rfl
  · exact Progress.each_addImport? h _
  -- fields and constants are listed with their class
  · exact Progress.each_modifySlot h _ fun _ hc => hc
  · exact Progress.each_modifySlot h _ fun _ hc => hc
  -- the kinds of methods there are
  · exact Progress.isPlain_addFunction? h _ fun _ => enrichment_of_methodOf?
  · exact Progress.isPlain_addFunction? h _ fun _ => enrichment_of_methodOf?
  · exact Progress.isPlain_addFunction? h _ fun _ => enrichment_of_methodOf?
  · split
    · exact Progress.each_addClass? h place fun _ => enrichment_of_classOf?
    · exact h

/-- A walk over a tree adds plain declarations to those there are. -/
theorem isPlain_extend {x : Extraction} (h : x.IsPlain) (r : Reading) (tree : Tree) :
    (extend r x tree).IsPlain := by
  unfold extend
  apply isPlain_typeMemberReceivers
  refine List.foldlRecOn _ _ (motive := fun p : Progress => p.result.IsPlain) h ?_
  exact fun p hp place _ => isPlain_visit hp place

end Java

namespace Apex

/-- The header of a trigger comes in before the rest, as a class with one function. -/
theorem isPlain_extract (path : String) (s : SourceText) (tree : Tree) :
    (extract path s tree).IsPlain := by
  unfold extract
  simp only
  apply Java.isPlain_extend
  cases (mask s.text).2 with
  | none => exact .start path
  | some h =>
    have hstart : Extraction.IsPlain { path } := .start path
    exact (hstart.addClass rfl).addFunction rfl

end Apex

/-! ## C# -/

namespace CSharp

theorem enrichment_of_classOf? {s : SourceText} {fileNamespace : Option String} {place : Cursor}
    {c : ClassDecl} (h : classOf? s fileNamespace place = some c) : c.enrichment = {} := by
  unfold classOf? at h
  obtain ⟨name, -, h⟩ := Option.bind_eq_some_iff.mp h
  rw [← Option.some.inj h]

theorem enrichment_of_methodOf? {s : SourceText} {owner : Option ClassDecl} {place : Cursor}
    {f : FunctionDecl} (h : methodOf? s owner place = some f) : f.enrichment = {} := by
  unfold methodOf? at h
  obtain ⟨name, -, h⟩ := Option.bind_eq_some_iff.mp h
  rw [← Option.some.inj h]

/-- The places of a C# file that a walk comes to. -/
def places (tree : Tree) : List Cursor :=
  (Cursor.root tree).preorder fun c => bodyKinds.contains c.kind

section Each

variable {P : ClassDecl → Prop} {Q : FunctionDecl → Prop} {s : SourceText}
  (hlist : ∀ c f, P c → P (listFunction c f))
  (hproperties : ∀ c properties, P c → P { c with properties })
  (hfunction : ∀ owner place f, methodOf? s owner place = some f → Q f)
include hlist hproperties hfunction

/-- One place adds a class, a function, or properties to a class that is there. -/
theorem each_visit {st : Progress × Option String} (h : st.1.result.Each P Q) {place : Cursor}
    (hclass : typeKinds.contains place.kind = true →
      ∀ fileNamespace c, classOf? s fileNamespace place = some c → P c) :
    (visit s st place).1.result.Each P Q := by
  obtain ⟨p, fileNamespace⟩ := st
  unfold visit
  simp only
  split
  · dsimp only
    exact Progress.each_addImport? h _
  -- the two forms of a namespace
  · exact h.of_eq rfl rfl
  · exact h.of_eq rfl rfl
  -- fields, properties and events
  · exact Progress.each_modifySlot h _ fun c => hproperties c _
  · exact Progress.each_modifySlot h _ fun c => hproperties c _
  · exact Progress.each_modifySlot h _ fun c => hproperties c _
  -- methods and constructors
  · exact Progress.each_addFunction? h hlist _ fun f => hfunction _ place f
  · exact Progress.each_addFunction? h hlist _ fun f => hfunction _ place f
  · split
    next hkind => exact Progress.each_addClass? h place (hclass hkind fileNamespace)
    next => exact h

/--
What holds of every declaration as it comes in, and is kept by the steps that come after, holds of
all declarations of a file.
-/
theorem each_extract (hcalls : ∀ f calls, Q f → Q { f with calls }) (path : String) {tree : Tree}
    (hclass : ∀ place ∈ places tree, typeKinds.contains place.kind = true →
      ∀ fileNamespace c, classOf? s fileNamespace place = some c → P c) :
    (extract path s tree).Each P Q := by
  unfold extract
  simp only
  have hwalk :
      ((places tree).foldl (visit s) ({ result := { path } }, none)).1.result.Each P Q := by
    refine List.foldlRecOn (places tree) (visit s)
      (motive := fun st : Progress × Option String => st.1.result.Each P Q) (.start path) ?_
    exact fun st hst place hplace =>
      each_visit hlist hproperties hfunction hst (hclass place hplace)
  exact hwalk.typeMemberReceivers hcalls ["this"] true

end Each

theorem isPlain_extract (path : String) (s : SourceText) (tree : Tree) :
    (extract path s tree).IsPlain :=
  each_extract (fun c f hc => (enrichment_listFunction c f).trans hc) (fun _ _ hc => hc)
    (fun _ _ _ => enrichment_of_methodOf?) (fun _ _ hf => hf) path
    fun _ _ _ _ _ => enrichment_of_classOf?

end CSharp

/-! ## Python -/

namespace Python

/-- A base is a modifier, the superclass or an interface. -/
theorem enrichment_addBase (s : SourceText) (c : ClassDecl) (base : Tree) :
    (addBase s c base).enrichment = c.enrichment := by
  have hname : ∀ name : String, (if lastSegment name == "ABC" then c.addModifier .abstract
      else if c.superclass.isNone then { c with superclass := some name }
      else { c with interfaces := c.interfaces ++ [name] }).enrichment = c.enrichment := by
    intro name
    split
    · rfl
    · split <;> rfl
  unfold addBase
  split
  · exact hname _
  · exact hname _
  · split <;> rfl
  · rfl

theorem enrichment_of_classOf? {s : SourceText} {place : Cursor} {c : ClassDecl}
    (h : classOf? s place = some c) : c.enrichment = {} := by
  unfold classOf? at h
  obtain ⟨name, -, h⟩ := Option.bind_eq_some_iff.mp h
  rw [← Option.some.inj h]
  refine List.foldlRecOn _ _ (motive := fun d : ClassDecl => d.enrichment = {}) rfl ?_
  exact fun d hd base _ => (enrichment_addBase s d base).trans hd

theorem enrichment_listDefinition (d : Definition) (c : ClassDecl) :
    (listDefinition d c).enrichment = c.enrichment := by
  unfold listDefinition
  simp only
  split <;> split <;> rfl

/-- A place adds imports, a class, or a function with what its class lists of it. -/
theorem isPlain_visit {s : SourceText} {p : Progress} (h : p.result.IsPlain) (place : Cursor) :
    (visit s p place).result.IsPlain := by
  unfold visit
  simp only
  split
  · refine List.foldlRecOn _ _ (motive := fun p : Progress => p.result.IsPlain) h ?_
    exact fun p hp i _ => hp.of_eq rfl rfl
  · exact Progress.each_addImport? h _
  · exact Progress.each_addClass? h place fun _ => enrichment_of_classOf?
  · refine (Progress.each_modifySlot h _ fun c hc => ?_).addFunction rfl
    exact (enrichment_listDefinition _ c).trans hc
  · exact h

theorem isPlain_extract (path : String) (s : SourceText) (tree : Tree) :
    (extract path s tree).IsPlain := by
  unfold extract
  apply isPlain_typeMemberReceivers
  refine List.foldlRecOn _ _ (motive := fun p : Progress => p.result.IsPlain) (.start path) ?_
  exact fun p hp place _ => isPlain_visit hp place

end Python

/-! ## TypeScript -/

namespace TypeScript

/-- A signature of an interface is a method or a property. -/
theorem enrichment_addSignature (s : SourceText) (c : ClassDecl) (member : Tree) :
    (addSignature s c member).enrichment = c.enrichment := by
  unfold addSignature
  split <;> rfl

theorem enrichment_of_classOf? {s : SourceText} {place : Cursor} {c : ClassDecl}
    (h : classOf? s place = some c) : c.enrichment = {} := by
  unfold classOf? at h
  obtain ⟨name, -, h⟩ := Option.bind_eq_some_iff.mp h
  dsimp only at h
  -- only an interface brings its members along
  split at h
  · rw [if_pos (by decide)] at h
    rw [← Option.some.inj h]
    refine List.foldlRecOn _ _ (motive := fun d : ClassDecl => d.enrichment = {}) rfl ?_
    exact fun d hd member _ => (enrichment_addSignature s d member).trans hd
  · rw [if_neg (by decide)] at h
    rw [← Option.some.inj h]
  · rw [if_neg (by decide)] at h
    rw [← Option.some.inj h]

theorem enrichment_of_methodOf? {s : SourceText} {className : String} {node : Tree}
    {m : FunctionDecl × List Property} (h : methodOf? s className node = some m) :
    m.1.enrichment = {} := by
  unfold methodOf? at h
  obtain ⟨nameNode, -, h⟩ := Option.bind_eq_some_iff.mp h
  rw [← Option.some.inj h]

/-- A field is a property, or a function if one is assigned to it. -/
theorem isPlain_addField {s : SourceText} {p : Progress} (h : p.result.IsPlain) (slot : Nat)
    (className : String) (node : Tree) : (addField s p slot className node).result.IsPlain := by
  unfold addField
  split
  · split
    · exact h
    · refine Extraction.Each.addFunction ?_ rfl
      exact Progress.each_modifySlot h _ fun _ hc => hc
  · exact Progress.each_modifySlot h _ fun _ hc => hc

/-- A method comes in with the properties that its parameters declare. -/
theorem isPlain_addMethod {p : Progress} (h : p.result.IsPlain) (slot : Nat) {f : FunctionDecl}
    (hf : f.enrichment = {}) (properties : List Property) :
    (addMethod p slot f properties).result.IsPlain := by
  refine (Progress.each_modifySlot h (some slot) fun c hc => ?_).addFunction hf
  split <;> exact hc

theorem isPlain_visit {s : SourceText} {p : Progress} (h : p.result.IsPlain) (place : Cursor) :
    (visit s p place).result.IsPlain := by
  unfold visit
  simp only
  generalize (p.slotAt? (ownerOf? place)).bind _ = owner
  -- the kinds of fields and of methods come down to these two
  have hfield : ∀ node, (owner.elim p fun o => addField s p o.1 o.2 node).result.IsPlain := by
    intro node
    cases owner with
    | none => exact h
    | some o => exact isPlain_addField h o.1 o.2 node
  have hmethod : ∀ slot className node, ((methodOf? s className node).elim p fun m =>
      addMethod p slot m.1 m.2).result.IsPlain := by
    intro slot className node
    cases hm : methodOf? s className node with
    | none => exact h
    | some m => exact isPlain_addMethod h slot (enrichment_of_methodOf? hm) m.2
  split
  · exact Progress.each_addImport? h _
  · split
    · exact h.of_eq rfl rfl
    · exact h
  · exact hfield _
  · exact hfield _
  · split
    · exact h
    · exact hmethod _ _ _
  · split
    · exact h
    · exact hmethod _ _ _
  · split
    · exact h
    · exact h.addFunction rfl
  · split
    · exact h
    · exact h.addFunction rfl
  · split
    · exact h.addFunction rfl
    · exact h
  · split
    · exact Progress.each_addClass? h place fun _ => enrichment_of_classOf?
    · exact h

/-- Publishing a name changes visibilities only. -/
theorem isPlain_publish {x : Extraction} (h : x.IsPlain) (names : List String) :
    (publish names x).IsPlain := by
  unfold publish
  refine ⟨fun c hc => ?_, fun f hf => ?_⟩
  · obtain ⟨d, hd, rfl⟩ := List.mem_map.mp hc
    split <;> exact h.classes d hd
  · obtain ⟨k, hk, rfl⟩ := List.mem_map.mp hf
    split <;> exact h.functions k hk

theorem isPlain_extract (path : String) (s : SourceText) (tree : Tree) :
    (extract path s tree).IsPlain := by
  unfold extract
  apply isPlain_typeMemberReceivers
  have hwalk : (List.foldl (visit s) { result := { path } }
      ((Cursor.root tree).preorder fun c => bodyKinds.contains c.kind)).result.IsPlain := by
    refine List.foldlRecOn _ _ (motive := fun p : Progress => p.result.IsPlain) (.start path) ?_
    exact fun p hp place _ => isPlain_visit hp place
  exact (isPlain_publish hwalk _).of_eq rfl rfl

end TypeScript

/-! ## Go -/

namespace Go

theorem enrichment_of_classOf? {s : SourceText} {package : Option String} {spec : Tree}
    {c : ClassDecl} (h : classOf? s package spec = some c) : c.enrichment = {} := by
  unfold classOf? at h
  obtain ⟨name, -, h⟩ := Option.bind_eq_some_iff.mp h
  obtain ⟨type, -, h⟩ := Option.bind_eq_some_iff.mp h
  dsimp only at h
  split at h
  · rw [← Option.some.inj h]
    exact List.foldlRecOn _ _ (motive := fun d : ClassDecl => d.enrichment = {}) rfl
      fun _ hd _ _ => hd
  · rw [← Option.some.inj h]
    exact List.foldlRecOn _ _ (motive := fun d : ClassDecl => d.enrichment = {}) rfl
      fun _ hd _ _ => hd
  · cases h

theorem enrichment_of_functionOf? {s : SourceText} {node : Tree} {f : FunctionDecl}
    (h : functionOf? s node = some f) : f.enrichment = {} := by
  unfold functionOf? at h
  obtain ⟨name, -, h⟩ := Option.bind_eq_some_iff.mp h
  rw [← Option.some.inj h]

/-- One declaration of a Go file: a package, an import or a type. -/
theorem isPlain_addDeclaration {s : SourceText} {x : Extraction} (h : x.IsPlain) (node : Tree) :
    (addDeclaration s x node).IsPlain := by
  unfold addDeclaration
  split
  · exact h.of_eq rfl rfl
  · cases importOf? s node with
    | none => exact h
    | some i => exact h.of_eq rfl rfl
  · cases hc : classOf? s x.namespaceName node with
    | none => exact h
    | some c => exact h.addClass (enrichment_of_classOf? hc)
  · exact h

/-- A method of Go is listed with the type of its receiver, which is found by its name. -/
theorem isPlain_addFunction {x : Extraction} (h : x.IsPlain) {f : FunctionDecl}
    (hf : f.enrichment = {}) : (addFunction x f).IsPlain := by
  unfold addFunction
  cases f.className with
  | none => exact h.addFunction hf
  | some c =>
    refine Extraction.Each.addFunction ?_ hf
    exact h.modifyNamed c fun _ hc => hc

theorem isPlain_extract (path : String) (s : SourceText) (tree : Tree) :
    (extract path s tree).IsPlain := by
  unfold extract
  apply isPlain_typeMemberReceivers
  -- all types come in before the functions
  refine List.foldlRecOn _ _ (motive := Extraction.IsPlain) ?_ ?_
  · refine List.foldlRecOn _ _ (motive := Extraction.IsPlain) (.start path) ?_
    exact fun x hx node _ => isPlain_addDeclaration hx node
  · intro x hx f hf
    obtain ⟨node, -, hnode⟩ := List.mem_filterMap.mp hf
    exact isPlain_addFunction hx (enrichment_of_functionOf? hnode)

end Go

end Extract

/-! ## All languages -/

/-- What is extracted of a file is plain, in every language. -/
theorem extract_isPlain {l : Language} {path text : String} {tree : Tree} {x : Extraction}
    (h : extract l path text tree = .ok x) : x.IsPlain := by
  unfold extract at h
  split at h
  · cases h
  · rw [← Except.ok.inj h]
    cases l with
    | go => exact Extract.Go.isPlain_extract path _ tree
    | java => exact Extract.Java.isPlain_extend (.start path) _ tree
    | python => exact Extract.Python.isPlain_extract path _ tree
    | typescript => exact Extract.TypeScript.isPlain_extract path _ tree
    | csharp => exact Extract.CSharp.isPlain_extract path _ tree
    | apex => exact Extract.Apex.isPlain_extract path _ tree

end SourceAtlas
