import SourceAtlas.Extract
import SourceAtlas.Proofs.Extract.Members
import SourceAtlas.Proofs.Traversal
import SourceAtlas.Proofs.Tree.Places

/-!
# TypeScript and JavaScript: what a module exports is public

The visibility of a declaration is decided twice. While the tree is read, a declaration that is a
child of an export statement is public; when all is read, those are made public that an export
clause names, wherever in the file the clause stands.

* **`declares_visit`**: one place adds the class or the free function that it declares, public if
  its declaration is a child of an export statement. Over a file these are one class
  (`classViews_extract`) and one free function (`functionViews_extract`) for each place that
  declares one, in document order;
* **`mem_exportNames`**: the names that are collected are those of the export clauses without a
  source;
* **`extract_visibility`**: each declaration is public exactly if it is a child of an export
  statement or some such clause names it, and private otherwise.

An export statement can also give a name as its default value. Such a name is not collected
(`extract_defaultExport`).
-/

namespace SourceAtlas.Extract.TypeScript

/-! ## Declarations and exports -/

/-- The places of a file that are not inside a body. -/
def modulePlaces (tree : Tree) : List Cursor :=
  (Cursor.root tree).preorder fun c => bodyKinds.contains c.kind

/--
The name by which a place declares a class: its own, or for a class value without one that of the
variable.
-/
def className? (s : SourceText) (place : Cursor) : Option String :=
  if classKinds.contains place.kind then
    (s.field? place.focus "name").or
      ((place.parent?.filter (·.kind == "variable_declarator")).bind (s.field? ·.focus "name"))
  else none

/-- The name by which a place declares a free function: a function declaration, or a variable with a
function as its value. -/
def functionName? (s : SourceText) (place : Cursor) : Option String :=
  if ["function_declaration", "generator_function_declaration"].contains place.kind
      || place.kind == "variable_declarator" && (functionValue? place.focus).isSome then
    s.field? place.focus "name"
  else none

/-- The declaration that a place belongs to: for a variable the one around it. -/
def declarationOf? (place : Cursor) : Option Cursor :=
  if place.kind == "variable_declarator" then place.parent? else some place

/-- The declaration at a place is a child of an export statement. -/
def IsExportChild (place : Cursor) : Prop :=
  ∃ d e, declarationOf? place = some d ∧ d.parent? = some e ∧ e.kind = "export_statement"

/-- An export clause of the module that has no source names something. -/
def InExportClause (s : SourceText) (tree : Tree) (name : String) : Prop :=
  ∃ e ∈ modulePlaces tree, e.kind = "export_statement" ∧ e.focus.child? "source" = none
    ∧ ∃ clause, e.focus.childOfKinds? ["export_clause"] = some clause
      ∧ ∃ spec ∈ clause.children, spec.kind = "export_specifier" ∧ s.field? spec "name" = some name

/-- The value of a default export of the module is a name. -/
def IsDefaultExport (s : SourceText) (tree : Tree) (name : String) : Prop :=
  ∃ e ∈ modulePlaces tree, e.kind = "export_statement" ∧ e.focus.hasKeyword "default" = true
    ∧ ∃ value, e.focus.child? "value" = some value ∧ value.kind = "identifier"
      ∧ s.textOf value = name

/--
A place at the top level of a module: a statement, what an export statement exports, a variable of
a declaration there, or the value of such a variable.
-/
inductive AtTop (tree : Tree) : Cursor → Prop where
  | statement {d : Cursor} (hd : d ∈ (Cursor.root tree).children) : AtTop tree d
  | exported {e d : Cursor} (he : e ∈ (Cursor.root tree).children)
      (hkind : e.kind = "export_statement") (hd : d ∈ e.children) : AtTop tree d
  | declared {d v : Cursor} (hd : AtTop tree d)
      (hkind : d.kind = "lexical_declaration" ∨ d.kind = "variable_declaration")
      (hv : v ∈ d.children) : AtTop tree v
  | bound {v x : Cursor} (hv : AtTop tree v) (hkind : v.kind = "variable_declarator")
      (hx : x ∈ v.children) : AtTop tree x

/-- What is at the top level is not inside a body. -/
theorem AtTop.mem_modulePlaces {tree : Tree} (hmodule : tree.kind = "program") {place : Cursor}
    (h : AtTop tree place) : place ∈ modulePlaces tree := by
  have hroot : Cursor.root tree ∈ modulePlaces tree := by
    unfold modulePlaces
    rw [Cursor.preorder_eq]
    exact List.mem_cons_self
  -- the walk turns back at bodies only, so a child of anything else is reached
  have hchild : ∀ {p d : Cursor} {kind : String}, p ∈ modulePlaces tree → p.kind = kind →
      bodyKinds.contains kind = false → d ∈ p.children → d ∈ modulePlaces tree := by
    intro p d kind hp hkind hbody hd
    exact Cursor.mem_preorder_child hp (hkind ▸ hbody) hd
  have hstatement : ∀ {d : Cursor}, d ∈ (Cursor.root tree).children → d ∈ modulePlaces tree :=
    hchild hroot hmodule (by decide)
  induction h with
  | statement hd => exact hstatement hd
  | exported he hkind hd => exact hchild (hstatement he) hkind (by decide) hd
  | declared _ hkind hv ih =>
    rcases hkind with hkind | hkind
    · exact hchild ih hkind (by decide) hv
    · exact hchild ih hkind (by decide) hv
  | bound _ hkind hx ih => exact hchild ih hkind (by decide) hx

/-! ## What one place adds -/

/-- The names and visibilities of the classes. -/
def classViews (x : Extraction) : List (String × Visibility) :=
  x.classes.map fun c => (c.name, c.visibility)

/-- The names and visibilities of the free functions. -/
def functionViews (x : Extraction) : List (String × Visibility) :=
  (x.functions.filter (·.className.isNone)).map fun f => (f.name, f.visibility)

/-- What a declaration is by its place alone: public as a child of an export statement. -/
def declaredVisibility (place : Cursor) : Visibility :=
  ((declarationOf? place).map exportVisibility).getD .priv

/-- The class that a place declares, as far as name and visibility go. -/
def classView? (s : SourceText) (place : Cursor) : Option (String × Visibility) :=
  (className? s place).map (·, declaredVisibility place)

/-- The free function that a place declares, as far as name and visibility go. -/
def functionView? (s : SourceText) (place : Cursor) : Option (String × Visibility) :=
  (functionName? s place).map (·, declaredVisibility place)

/-- The kinds of the nodes that declare a free function. -/
def functionKinds : List String :=
  ["function_declaration", "generator_function_declaration", "variable_declarator"]

theorem classView?_of_kind (s : SourceText) {place : Cursor} (hkind : place.kind ∉ classKinds) :
    classView? s place = none := by
  unfold classView? className?
  rw [if_neg (by simpa using hkind)]
  rfl

theorem functionView?_of_kind (s : SourceText) {place : Cursor}
    (hkind : place.kind ∉ functionKinds) : functionView? s place = none := by
  simp only [functionKinds, List.mem_cons, not_or] at hkind
  unfold functionView? functionName?
  rw [if_neg (by simp [hkind])]
  rfl

theorem classView?_of_functionKinds (s : SourceText) {place : Cursor}
    (hkind : place.kind ∈ functionKinds) : classView? s place = none := by
  refine classView?_of_kind s fun hclass => ?_
  have hdisjoint : ∀ kind ∈ functionKinds, kind ∉ classKinds := by decide
  exact hdisjoint _ hkind hclass

/-- Between two states at most one class and one free function were declared, at the end. -/
structure Declares (x y : Extraction) (c f : Option (String × Visibility)) : Prop where
  classes : classViews y = classViews x ++ c.toList
  functions : functionViews y = functionViews x ++ f.toList

namespace Declares

theorem nothing (x : Extraction) : Declares x x none none :=
  ⟨(List.append_nil _).symm, (List.append_nil _).symm⟩

theorem addImport (x : Extraction) (i : Import) : Declares x (x.addImport i) none none :=
  ⟨(List.append_nil _).symm, (List.append_nil _).symm⟩

/-- A change of one class that keeps its name and visibility. -/
theorem modifyClass (x : Extraction) (slot : Nat) {g : ClassDecl → ClassDecl}
    (hg : ∀ c, ((g c).name, (g c).visibility) = (c.name, c.visibility)) :
    Declares x (x.modifyClass slot g) none none where
  classes := by
    rw [Option.toList_none, List.append_nil]
    exact map_modify_of_eq (fun c : ClassDecl => (c.name, c.visibility)) hg x.classes slot
  functions := (List.append_nil _).symm

theorem addClass (x : Extraction) (c : ClassDecl) :
    Declares x (x.addClass c) (some (c.name, c.visibility)) none where
  classes := List.map_append
  functions := (List.append_nil _).symm

theorem addFunction (x : Extraction) {f : FunctionDecl} (hf : f.className = none) :
    Declares x (x.addFunction f) none (some (f.name, f.visibility)) where
  classes := (List.append_nil _).symm
  functions := by
    -- a free function passes the filter, so it shows at the end
    unfold functionViews Extraction.addFunction
    rw [List.filter_append, List.map_append]
    simp [hf]

/-- A method is not among the free functions. -/
theorem addMember (x : Extraction) (slot : Nat) {g : ClassDecl → ClassDecl}
    (hg : ∀ c, ((g c).name, (g c).visibility) = (c.name, c.visibility)) {f : FunctionDecl}
    {owner : String} (hf : f.className = some owner) :
    Declares x ((x.modifyClass slot g).addFunction f) none none where
  classes := (modifyClass x slot hg).classes
  functions := by
    unfold functionViews Extraction.addFunction
    rw [List.filter_append]
    simp [hf, Extraction.modifyClass]

end Declares

theorem view_addSignature (s : SourceText) (c : ClassDecl) (member : Tree) :
    ((addSignature s c member).name, (addSignature s c member).visibility) =
      (c.name, c.visibility) := by
  unfold addSignature
  split <;> rfl

/-- A class is declared under its name with the visibility that its parent gives it. -/
theorem map_classOf? {s : SourceText} {place : Cursor}
    (hkind : classKinds.contains place.kind = true) :
    (classOf? s place).map (fun c => (c.name, c.visibility)) = classView? s place := by
  -- no class is a variable, so its declaration is the place itself
  have hvisibility : declaredVisibility place = exportVisibility place := by
    have hvariable : ¬ (place.kind == "variable_declarator") = true := by
      intro h
      rw [eq_of_beq h] at hkind
      exact absurd hkind (by decide)
    unfold declaredVisibility declarationOf?
    rw [if_neg hvariable]
    rfl
  unfold classView? className? classOf?
  rw [if_pos hkind, hvisibility]
  dsimp only [Option.bind_eq_bind]
  cases (s.field? place.focus "name").or
    ((place.parent?.filter (·.kind == "variable_declarator")).bind (s.field? ·.focus "name")) with
  | none => rfl
  | some name =>
    rw [Option.bind_some]
    split
    · -- only an interface brings its members along
      refine congrArg some (List.foldlRecOn _ _
        (motive := fun d : ClassDecl => (d.name, d.visibility) = (name, exportVisibility place))
        rfl ?_)
      exact fun d hd member _ => (view_addSignature s d member).trans hd
    · rfl
    · rfl

theorem declares_addField (s : SourceText) (p : Progress) (slot : Nat) (className : String)
    (node : Tree) :
    Declares p.result (addField s p slot className node).result none none := by
  unfold addField
  split
  next value _ =>
    split
    · exact .nothing _
    · next nameNode _ =>
      exact .addMember p.result slot (g := (·.addMethod (s.textOf nameNode)))
        (f := functionOf s (s.textOf nameNode) node value _ (some className)) (fun _ => rfl) rfl
  next => exact .modifyClass p.result slot fun _ => rfl

theorem declares_addMethod (p : Progress) (slot : Nat) {f : FunctionDecl} {owner : String}
    (hf : f.className = some owner) (properties : List Property) :
    Declares p.result (addMethod p slot f properties).result none none := by
  refine .addMember p.result slot (fun c => ?_) hf
  split <;> rfl

theorem functionView?_of_function (s : SourceText) (place : Cursor)
    (hkind : place.kind = "function_declaration" ∨ place.kind = "generator_function_declaration") :
    functionView? s place = (s.field? place.focus "name").map (·, exportVisibility place) := by
  unfold functionView? functionName? declaredVisibility declarationOf?
  rcases hkind with hkind | hkind
  · simp [hkind]
  · simp [hkind]

/-- The visibility of a variable is that of the declaration around it. -/
theorem functionView?_of_variable (s : SourceText) {place : Cursor}
    (hkind : place.kind = "variable_declarator") :
    functionView? s place =
      (if (functionValue? place.focus).isSome then s.field? place.focus "name" else none).map
        (·, (place.parent?.map exportVisibility).getD .priv) := by
  unfold functionView? functionName? declaredVisibility declarationOf?
  simp [hkind]

/-- A place of another kind adds neither a class nor a free function. -/
theorem Declares.of_kind {s : SourceText} {x y : Extraction} {place : Cursor} {kind : String}
    (hkind : place.kind = kind) (hclass : kind ∉ classKinds) (hfunction : kind ∉ functionKinds)
    (h : Declares x y none none) : Declares x y (classView? s place) (functionView? s place) := by
  subst hkind
  rwa [classView?_of_kind s hclass, functionView?_of_kind s hfunction]

/-- A place of a kind that declares functions adds the function, if it has a name. -/
theorem declares_function {s : SourceText} {p : Progress} {place : Cursor}
    (hkind : place.kind ∈ functionKinds) {f : FunctionDecl} (hf : f.className = none)
    (hview : functionView? s place = some (f.name, f.visibility)) :
    Declares p.result (p.change (·.addFunction f)).result (classView? s place)
      (functionView? s place) := by
  rw [classView?_of_functionKinds s hkind, hview]
  exact .addFunction p.result hf

theorem declares_unnamed {s : SourceText} {x : Extraction} {place : Cursor}
    (hkind : place.kind ∈ functionKinds) (hview : functionView? s place = none) :
    Declares x x (classView? s place) (functionView? s place) := by
  rw [classView?_of_functionKinds s hkind, hview]
  exact .nothing x

theorem declares_class {s : SourceText} (p : Progress) {place : Cursor}
    (hkind : classKinds.contains place.kind = true) :
    Declares p.result ((classOf? s place).elim p (p.addClass place)).result (classView? s place)
      none := by
  rw [← map_classOf? hkind]
  cases classOf? s place with
  | none => exact .nothing _
  | some c => exact .addClass p.result c

/-- **One place** adds the class or the free function that it declares. -/
theorem declares_visit (s : SourceText) (p : Progress) (place : Cursor) :
    Declares p.result (visit s p place).result (classView? s place) (functionView? s place) := by
  unfold visit
  simp only
  -- a member adds neither, whichever class it belongs to
  generalize (p.slotAt? (ownerOf? place)).bind
    (fun slot => (p.classIn? (some slot)).map fun c => (slot, c.name)) = owner
  split
  next hkind =>
    refine .of_kind hkind (by decide) (by decide) ?_
    cases importOf? s place.focus with
    | none => exact .nothing _
    | some i => exact .addImport _ i
  next hkind =>
    refine .of_kind hkind (by decide) (by decide) ?_
    split
    · exact .addImport _ _
    · exact .nothing _
  -- the two kinds of fields, and after them the two kinds of methods
  iterate 2
    next hkind =>
      refine .of_kind hkind (by decide) (by decide) ?_
      cases owner with
      | none => exact .nothing _
      | some owner => exact declares_addField s p owner.1 owner.2 place.focus
  iterate 2
    next hkind =>
      refine .of_kind hkind (by decide) (by decide) ?_
      cases owner with
      | none => exact .nothing _
      | some owner =>
        simp only
        cases hm : methodOf? s owner.2 place.focus with
        | none => exact .nothing _
        | some m => exact declares_addMethod p owner.1 (className_of_methodOf? hm) m.2
  -- the two kinds of function declarations
  iterate 2
    next hkind =>
      have hmem : place.kind ∈ functionKinds := by rw [hkind]; decide
      have hview := functionView?_of_function s place (by simp [hkind])
      split
      next hname => exact declares_unnamed hmem (by rw [hview, hname]; rfl)
      next name hname => exact declares_function hmem rfl (by rw [hview, hname]; rfl)
  next hkind =>
    have hmem : place.kind ∈ functionKinds := by rw [hkind]; decide
    -- a variable counts with a function as its value and a name, and both are needed
    have hview := functionView?_of_variable s hkind
    split
    next value name hvalue hname =>
      exact declares_function hmem rfl (by rw [hview, hvalue, hname]; rfl)
    next hnot =>
      refine declares_unnamed hmem ?_
      rw [hview]
      cases hvalue : functionValue? place.focus with
      | none => rfl
      | some value =>
        cases hname : s.field? place.focus "name" with
        | none => rfl
        | some name => exact (hnot value name hvalue hname).elim
  next _ _ _ _ _ _ hfun hgen hvar =>
    -- what is left is a class or nothing of interest
    have hfunction : place.kind ∉ functionKinds := by
      simp only [functionKinds, List.mem_cons, List.not_mem_nil, or_false, not_or]
      exact ⟨hfun, hgen, hvar⟩
    rw [functionView?_of_kind s hfunction]
    split
    next hclass => exact declares_class p hclass
    next hclass =>
      rw [classView?_of_kind s (by simpa using hclass)]
      exact .nothing _

/-! ## The whole file -/

theorem classViews_foldl_visit (s : SourceText) (places : List Cursor) (p : Progress) :
    classViews (places.foldl (visit s) p).result =
      classViews p.result ++ places.filterMap (classView? s) :=
  @Traversal.foldl_append_toList _ _ _ (fun p : Progress => classViews p.result) _ _
    (fun p place => (declares_visit s p place).classes) places p

theorem functionViews_foldl_visit (s : SourceText) (places : List Cursor) (p : Progress) :
    functionViews (places.foldl (visit s) p).result =
      functionViews p.result ++ places.filterMap (functionView? s) :=
  @Traversal.foldl_append_toList _ _ _ (fun p : Progress => functionViews p.result) _ _
    (fun p place => (declares_visit s p place).functions) places p

/-- A declaration with one of some names is public. -/
def published (names : List String) (view : String × Visibility) : String × Visibility :=
  (view.1, if names.contains view.1 then .pub else view.2)

theorem classViews_publish (names : List String) (x : Extraction) :
    classViews (publish names x) = (classViews x).map (published names) := by
  unfold classViews publish published
  rw [List.map_map, List.map_map]
  refine List.map_congr_left fun c _ => ?_
  simp only [Function.comp_apply]
  split <;> rfl

/-- A change of every function that shows in the views of the free ones only. -/
theorem functionViews_map {x y : Extraction} {g : FunctionDecl → FunctionDecl}
    {view : String × Visibility → String × Visibility}
    (hfunctions : y.functions = x.functions.map g)
    (howner : ∀ f, (g f).className = f.className)
    (hview : ∀ f, f.className = none →
      ((g f).name, (g f).visibility) = view (f.name, f.visibility)) :
    functionViews y = (functionViews x).map view := by
  unfold functionViews
  rw [hfunctions, List.filter_map, List.map_map, List.map_map]
  have hfilter : ((fun f : FunctionDecl => f.className.isNone) ∘ g) =
      fun f => f.className.isNone := funext fun f => congrArg Option.isNone (howner f)
  rw [hfilter]
  refine List.map_congr_left fun f hf => ?_
  exact hview f (Option.isNone_iff_eq_none.mp (List.mem_filter.mp hf).2)

theorem functionViews_publish (names : List String) (x : Extraction) :
    functionViews (publish names x) = (functionViews x).map (published names) := by
  refine functionViews_map rfl (fun f => ?_) fun f hf => ?_
  · split <;> rfl
  -- only free functions are published, and this is one
  · unfold published
    rw [hf, Option.isNone_none, Bool.true_and]
    split <;> rfl

theorem functionViews_typeMemberReceivers (x : Extraction) (selfNames : List String)
    (implicit : Bool) :
    functionViews (x.typeMemberReceivers selfNames implicit) = functionViews x := by
  rw [← List.map_id (functionViews x)]
  refine functionViews_map rfl (fun f => ?_) fun f hf => ?_
  · split <;> rfl
  · split <;> rfl

/-- The names that are collected are those of the export clauses without a source. -/
theorem mem_exportNames (s : SourceText) (tree : Tree) (name : String) :
    name ∈ exportNames s (modulePlaces tree) ↔ InExportClause s tree name := by
  unfold exportNames InExportClause
  rw [List.mem_flatMap]
  refine exists_congr fun e => and_congr_right fun _ => ?_
  -- whether there is a source is asked of its text, which is there if the child is
  have hsource : (s.field? e.focus "source").isNone = (e.focus.child? "source").isNone :=
    Option.isNone_map
  simp only [hsource]
  split
  next hcond =>
    simp only [Bool.and_eq_true, beq_iff_eq, Option.isNone_iff_eq_none] at hcond
    show _ ↔ e.focus.kind = _ ∧ _
    rw [and_iff_right hcond.1, and_iff_right hcond.2]
    cases e.focus.childOfKinds? ["export_clause"] with
    | none => simp
    | some clause => simp [Tree.childrenOfKind, and_assoc]
  next hcond =>
    simp only [Bool.and_eq_true, beq_iff_eq, Option.isNone_iff_eq_none] at hcond
    exact iff_of_false List.not_mem_nil fun ⟨hkind, hnone, _⟩ => hcond ⟨hkind, hnone⟩

/-- The classes are one for each place that declares one, in document order. -/
theorem classViews_extract (path : String) (s : SourceText) (tree : Tree) :
    classViews (extract path s tree) = (modulePlaces tree).filterMap fun place =>
      (classView? s place).map (published (exportNames s (modulePlaces tree))) := by
  rw [← List.map_filterMap]
  show classViews (publish _ _) = _
  rw [classViews_publish, classViews_foldl_visit]
  rfl

/-- The free functions are one for each place that declares one, in document order. -/
theorem functionViews_extract (path : String) (s : SourceText) (tree : Tree) :
    functionViews (extract path s tree) = (modulePlaces tree).filterMap fun place =>
      (functionView? s place).map (published (exportNames s (modulePlaces tree))) := by
  rw [← List.map_filterMap]
  unfold extract
  rw [functionViews_typeMemberReceivers]
  show functionViews (publish _ _) = _
  rw [functionViews_publish, functionViews_foldl_visit]
  rfl

/-! ## Visibility -/

/-- A module makes a declaration public: its place does, or an export clause names it. -/
def IsPublic (s : SourceText) (tree : Tree) (place : Cursor) (name : String) : Prop :=
  IsExportChild place ∨ InExportClause s tree name

/-- A declaration has the visibility that the exports of its module give it. -/
structure FollowsExports (s : SourceText) (tree : Tree) (place : Cursor) (name : String)
    (visibility : Visibility) : Prop where
  pub_iff : visibility = .pub ↔ IsPublic s tree place name
  priv_iff : visibility = .priv ↔ ¬ IsPublic s tree place name

theorem FollowsExports.of_cases {s : SourceText} {tree : Tree} {place : Cursor} {name : String}
    {visibility : Visibility}
    (h : visibility = .pub ∧ IsPublic s tree place name
      ∨ visibility = .priv ∧ ¬ IsPublic s tree place name) :
    FollowsExports s tree place name visibility := by
  rcases h with ⟨rfl, hpublic⟩ | ⟨rfl, hprivate⟩
  · exact ⟨iff_of_true rfl hpublic, iff_of_false (by decide) (not_not_intro hpublic)⟩
  · exact ⟨iff_of_false (by decide) hprivate, iff_of_true rfl hprivate⟩

theorem exportVisibility_cases (place : Cursor) :
    exportVisibility place = .pub ∧ (∃ e, place.parent? = some e ∧ e.kind = "export_statement")
      ∨ exportVisibility place = .priv
        ∧ ¬ ∃ e, place.parent? = some e ∧ e.kind = "export_statement" := by
  unfold exportVisibility isExported
  cases place.parent? with
  | none => exact Or.inr ⟨rfl, fun ⟨_, h, _⟩ => by cases h⟩
  | some e =>
    by_cases hkind : e.kind = "export_statement"
    · exact Or.inl ⟨by simp [hkind], e, rfl, hkind⟩
    · exact Or.inr ⟨by simp [hkind], fun ⟨_, h, he⟩ => hkind (Option.some.inj h ▸ he)⟩

theorem declaredVisibility_cases (place : Cursor) :
    declaredVisibility place = .pub ∧ IsExportChild place
      ∨ declaredVisibility place = .priv ∧ ¬ IsExportChild place := by
  unfold declaredVisibility IsExportChild
  cases declarationOf? place with
  | none => exact Or.inr ⟨rfl, fun ⟨_, _, h, _⟩ => by cases h⟩
  | some d =>
    rcases exportVisibility_cases d with ⟨hpub, e, he⟩ | ⟨hpriv, hnot⟩
    · exact Or.inl ⟨hpub, d, e, rfl, he⟩
    · refine Or.inr ⟨hpriv, fun ⟨d', e, hd, he⟩ => hnot ⟨e, ?_⟩⟩
      rwa [Option.some.inj hd]

/-- What is declared at a place and then published follows the exports. -/
theorem followsExports_of_published {s : SourceText} {tree : Tree} {place : Cursor}
    {name? : Option String} {name : String} {visibility : Visibility}
    (h : (name?.map (·, declaredVisibility place)).map
      (published (exportNames s (modulePlaces tree))) = some (name, visibility)) :
    name? = some name ∧ FollowsExports s tree place name visibility := by
  obtain ⟨n, hn, h⟩ := Option.map_eq_some_iff.mp (Option.map_map .. ▸ h)
  obtain ⟨rfl, rfl⟩ := Prod.mk.inj h
  refine ⟨hn, ?_⟩
  have hclause := mem_exportNames s tree n
  refine .of_cases ?_
  -- a clause makes anything public; without one the place decides
  by_cases hn : InExportClause s tree n
  · exact Or.inl ⟨if_pos (List.contains_iff_mem.mpr (hclause.mpr hn)), Or.inr hn⟩
  · have hsame : (published (exportNames s (modulePlaces tree)) (n, declaredVisibility place)).2 =
        declaredVisibility place := if_neg fun h => hn (hclause.mp (List.contains_iff_mem.mp h))
    rcases declaredVisibility_cases place with ⟨hpub, hchild⟩ | ⟨hpriv, hchild⟩
    · exact Or.inl ⟨hsame.trans hpub, Or.inl hchild⟩
    · exact Or.inr ⟨hsame.trans hpriv, not_or.mpr ⟨hchild, hn⟩⟩

/-- Items whose views are the entries of places are paired with the places that have one. -/
theorem forall₂_of_map_eq_filterMap {α β γ : Type} {entry : α → Option γ} {view : β → γ}
    {places : List α} {items : List β} (h : items.map view = places.filterMap entry) :
    List.Forall₂ (fun a b => entry a = some (view b))
      (places.filter (entry · |>.isSome)) items := by
  -- the places without an entry drop out one by one
  induction places generalizing items with
  | nil =>
    rw [List.map_eq_nil_iff.mp h]
    exact .nil
  | cons a places ih =>
    rw [List.filter_cons]
    cases ha : entry a with
    | none => exact ih (by rwa [List.filterMap_cons_none ha] at h)
    | some c =>
      rw [List.filterMap_cons_some ha] at h
      obtain ⟨b, rest, rfl, hb, hrest⟩ := List.map_eq_cons_iff.mp h
      exact .cons (by rw [ha, hb]) (ih hrest)

end SourceAtlas.Extract.TypeScript

namespace SourceAtlas

open Extract.TypeScript

/--
**What a module exports is public and the rest of it is private.** The classes of a module are those
of the places that declare one, and likewise the free functions, both in document order; what is
declared at the top level is among them. Each is public if its declaration is a child of an export
statement or some export clause without a source names it, and private otherwise.
-/
theorem extract_visibility (path text : String) (tree : Tree) (hmodule : tree.kind = "program") :
    let s := SourceText.ofString text
    ∃ x, extract .typescript path text tree = .ok x
      ∧ (∀ place, AtTop tree place → place ∈ modulePlaces tree)
      ∧ List.Forall₂
        (fun place c => className? s place = some c.name
          ∧ FollowsExports s tree place c.name c.visibility)
        ((modulePlaces tree).filter fun place => (className? s place).isSome) x.classes
      ∧ List.Forall₂
        (fun place f => functionName? s place = some f.name
          ∧ FollowsExports s tree place f.name f.visibility)
        ((modulePlaces tree).filter fun place => (functionName? s place).isSome)
        (x.functions.filter fun f => f.className.isNone) := by
  intro s
  refine ⟨_, if_neg (by simp [hmodule]), fun place => AtTop.mem_modulePlaces hmodule, ?_, ?_⟩
  · have hpaired := forall₂_of_map_eq_filterMap (classViews_extract path s tree)
    simp only [Option.isSome_map, classView?] at hpaired
    exact hpaired.imp fun place c h => followsExports_of_published h
  · have hpaired := forall₂_of_map_eq_filterMap (functionViews_extract path s tree)
    simp only [Option.isSome_map, functionView?] at hpaired
    exact hpaired.imp fun place f h => followsExports_of_published h

open Tree (rule token) in
/-- The tree of a module that begins with a clause for its variable `b`, declares the function `a`
and that variable with a function as its value, and exports the class `C` where it declares it. -/
def clauseFirstTree : Tree :=
  rule "program" none 0 67
    [rule "export_statement" none 0 13
      [token "export" 0 6,
       rule "export_clause" none 7 12
        [token "\x7b" 7 8,
         rule "export_specifier" none 9 10 [rule "identifier" (some "name") 9 10 []],
         token "\x7d" 11 12],
       token ";" 12 13],
     rule "function_declaration" none 14 29
      [token "function" 14 22,
       rule "identifier" (some "name") 23 24 [],
       rule "formal_parameters" (some "parameters") 24 26 [token "(" 24 25, token ")" 25 26],
       rule "statement_block" (some "body") 27 29 [token "\x7b" 27 28, token "\x7d" 28 29]],
     rule "lexical_declaration" none 30 48
      [token "const" 30 35,
       rule "variable_declarator" none 36 47
        [rule "identifier" (some "name") 36 37 [],
         token "=" 38 39,
         rule "arrow_function" (some "value") 40 47
          [rule "formal_parameters" (some "parameters") 40 42 [token "(" 40 41, token ")" 41 42],
           token "=>" 43 45,
           rule "number" (some "body") 46 47 []]],
       token ";" 47 48],
     rule "export_statement" none 49 66
      [token "export" 49 55,
       rule "class_declaration" (some "declaration") 56 66
        [token "class" 56 61,
         rule "identifier" (some "name") 62 63 [],
         rule "class_body" (some "body") 64 66 [token "\x7b" 64 65, token "\x7d" 65 66]]]]

theorem extract_visibility_clauseFirst :
    let text :=
      "export \x7b b \x7d;\nfunction a() \x7b\x7d\nconst b = () => 1;\nexport class C \x7b\x7d\n"
    let s := SourceText.ofString text
    clauseFirstTree.kind = "program"
      ∧ ∃ x, extract .typescript "a.js" text clauseFirstTree = .ok x
        ∧ List.Forall₂
          (fun place f => functionName? s place = some f.name
            ∧ FollowsExports s clauseFirstTree place f.name f.visibility)
          ((modulePlaces clauseFirstTree).filter fun place => (functionName? s place).isSome)
          (x.functions.filter fun f => f.className.isNone)
        ∧ functionViews x = [("a", .priv), ("b", .pub)] ∧ classViews x = [("C", .pub)] := by
  intro text s
  obtain ⟨x, hx, -, -, hfunctions⟩ := extract_visibility "a.js" text clauseFirstTree rfl
  refine ⟨rfl, x, hx, hfunctions, ?_⟩
  -- the module is small enough to be read by evaluation
  have hx' : Extract.TypeScript.extract "a.js" s clauseFirstTree = x := Except.ok.inj hx
  rw [← hx']
  decide +kernel

open Tree (rule token) in
/-- The tree of a module that declares the class `A` and gives it as its default export. -/
def defaultExportTree : Tree :=
  rule "program" none 0 29
    [rule "class_declaration" none 0 10
      [token "class" 0 5,
       rule "identifier" (some "name") 6 7 [],
       rule "class_body" (some "body") 8 10 [token "\x7b" 8 9, token "\x7d" 9 10]],
     rule "export_statement" none 11 28
      [token "export" 11 17,
       token "default" 18 25,
       rule "identifier" (some "value") 26 27 [],
       token ";" 27 28]]

/-- **A class that a default export names stays private.** Its declaration is no child of the export
statement, and the name is not in a clause. -/
theorem extract_defaultExport :
    let text := "class A \x7b\x7d\nexport default A;\n"
    ∃ x, extract .typescript "a.js" text defaultExportTree = .ok x
      ∧ IsDefaultExport (.ofString text) defaultExportTree "A"
      ∧ classViews x = [("A", .priv)] := by
  intro text
  refine ⟨Extract.TypeScript.extract "a.js" (.ofString text) defaultExportTree,
    if_neg (by decide), ?_, by decide +kernel⟩
  have hmem : (Cursor.root defaultExportTree).children[1] ∈ modulePlaces defaultExportTree :=
    (AtTop.statement (List.getElem_mem _)).mem_modulePlaces rfl
  exact ⟨_, hmem, by decide, by decide, _, rfl, by decide, by decide +kernel⟩

end SourceAtlas
