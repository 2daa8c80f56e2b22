import SourceAtlas.Proofs.Resolve.ImportRecords
import SourceAtlas.Resolve.Call

/-!
# Qualified calls and the order of imports

A receiver may start with the names of several imports: `pkg.mod` starts with `pkg` and with
`pkg.mod`. The first import of the file counts, not the longest name, so the order of the imports
can decide where a call leads. `resolveCall_order_iff` says exactly when it does not.

* **Names without dots** are bound by one import at most, if no name is bound twice
  (`eq_of_mem_binders`). So every step that looks up a class is the same in any order
  (`findClass?_perm`), and so are nearness and the steps after the first (`laterSteps_perm`).
* **The receiver** is bound by the first of its `binders`, and every one of them is the first in
  some order of the imports.
-/

namespace SourceAtlas.Resolve

/-! ## Names that an expression starts with -/

/-- An expression starts with a name if it is the name, or goes on behind it with a dot. -/
theorem startsAt_iff {name expression : String} :
    startsAt name expression = true ↔
      expression = name ∨ ∃ rest, expression.toList = name.toList ++ '.' :: rest := by
  have hdot : ∀ rest : String, Text.startsWith rest "." = true ↔ rest.toList.head? = some '.' :=
    fun rest => startsWith_singleton rest '.'
  rw [startsAt, Bool.or_eq_true, beq_iff_eq, Text.stripPrefix?, Chars.stripPrefix?]
  -- without the name in front neither side can hold but by equality
  cases hstrip : name.toList.isPrefixOf? expression.toList with
  | none =>
    refine or_congr_right ⟨(fun h => nomatch h), ?_⟩
    rintro ⟨rest, hrest⟩
    rw [List.isPrefixOf?_eq_some_iff_append_eq.mpr hrest.symm] at hstrip
    cases hstrip
  | some after =>
    -- what is left behind the name decides: it starts with a dot or not
    have hafter := List.isPrefixOf?_eq_some_iff_append_eq.mp hstrip
    dsimp only [Option.map_some]
    rw [hdot, String.toList_ofList, ← hafter]
    refine or_congr_right ⟨fun hhead => ?_, ?_⟩
    · obtain ⟨rest, rfl⟩ := List.head?_eq_some_iff.mp hhead
      exact ⟨rest, rfl⟩
    · rintro ⟨rest, hrest⟩
      rw [List.append_cancel_left hrest]
      rfl

theorem eq_of_startsAt {name expression : String} (hdotless : '.' ∉ expression.toList)
    (h : startsAt name expression = true) : name = expression := by
  rcases startsAt_iff.mp h with rfl | ⟨rest, hrest⟩
  · rfl
  -- to go on behind the name takes a dot
  · refine absurd ?_ hdotless
    rw [hrest]
    simp

theorem dotless_of_splitFirst? {cs : List Char} :
    (∀ head tail, Chars.splitFirst? ['.'] cs = some (head, tail) → '.' ∉ head) ∧
      (Chars.splitFirst? ['.'] cs = none → '.' ∉ cs) := by
  -- the split is at the first dot, so the induction stops there
  induction cs with
  | nil => exact ⟨(fun _ _ h => nomatch h), fun _ => List.not_mem_nil⟩
  | cons c cs ih =>
    rw [Chars.splitFirst?]
    by_cases hc : c = '.'
    · subst hc
      refine ⟨fun head tail h => ?_, fun h => ?_⟩
      · obtain ⟨rfl, -⟩ := Prod.mk.inj (Option.some.inj h)
        exact List.not_mem_nil
      · cases h
    · have hstrip : Chars.stripPrefix? ['.'] (c :: cs) = none := by
        simp [Chars.stripPrefix?, List.isPrefixOf?, Ne.symm hc]
      rw [hstrip]
      refine ⟨fun head tail h => ?_, fun h => ?_⟩
      · obtain ⟨⟨before, after⟩, hbefore, hcons⟩ := Option.map_eq_some_iff.mp h
        obtain ⟨rfl, -⟩ := Prod.mk.inj hcons
        rw [List.mem_cons, not_or]
        exact ⟨Ne.symm hc, ih.1 before after hbefore⟩
      · rw [List.mem_cons, not_or]
        exact ⟨Ne.symm hc, ih.2 (Option.map_eq_none_iff.mp h)⟩

/-! ## Binders -/

/-- The names that imports bind, each with its import. -/
def bound (imports : List Import) : List (Import × ImportBinding) :=
  imports.flatMap fun i => i.bindings.map (i, ·)

/-- No name is bound twice. -/
def NamesDistinct (imports : List Import) : Prop :=
  ((bound imports).map (·.2.localName)).Nodup

/-- For each import that binds a name the expression starts with, the first such name. -/
def binders (imports : List Import) (expression : String) : List (Import × ImportBinding) :=
  imports.filterMap fun i =>
    (i.bindings.find? fun b => startsAt b.localName expression).map (i, ·)

theorem bindingFor?_eq (imports : List Import) (expression : String) :
    bindingFor? imports expression = (binders imports expression).head? :=
  List.head?_filterMap.symm

theorem mem_binders {imports : List Import} {expression : String} {p : Import × ImportBinding}
    (h : p ∈ binders imports expression) :
    p ∈ bound imports ∧ startsAt p.2.localName expression = true := by
  obtain ⟨i, hi, hp⟩ := List.mem_filterMap.mp h
  obtain ⟨b, hb, rfl⟩ := Option.map_eq_some_iff.mp hp
  have hstarts := List.find?_some hb
  have hmem := List.mem_of_find?_eq_some hb
  exact ⟨List.mem_flatMap.mpr ⟨i, hi, List.mem_map_of_mem hmem⟩, hstarts⟩

/-- A name without dots has one binder at most. -/
theorem eq_of_mem_binders {imports : List Import} {name : String} (hnames : NamesDistinct imports)
    (hdotless : '.' ∉ name.toList) {p q : Import × ImportBinding}
    (hp : p ∈ binders imports name) (hq : q ∈ binders imports name) : p = q := by
  obtain ⟨hp, hpname⟩ := mem_binders hp
  obtain ⟨hq, hqname⟩ := mem_binders hq
  -- both names are the name itself, and no name is bound twice
  apply List.inj_on_of_nodup_map hnames hp hq
  rw [eq_of_startsAt hdotless hpname, eq_of_startsAt hdotless hqname]

/-- What is the same for all items is the same for the first item of any order. -/
theorem head?_map_eq_of_perm {α β : Type} {f : α → β} {l l' : List α} (hperm : l'.Perm l)
    (hagree : ∀ a ∈ l, ∀ b ∈ l, f a = f b) : l'.head?.map f = l.head?.map f := by
  cases l with
  | nil => rw [List.perm_nil.mp hperm]
  | cons a l =>
    cases l' with
    | nil => exact absurd hperm.symm (List.not_perm_cons_nil)
    | cons b l' =>
      -- the first of the other order is one of the same items
      have hb : b ∈ a :: l := hperm.subset List.mem_cons_self
      exact congrArg some (hagree b hb a List.mem_cons_self)

theorem bindingFor?_perm {imports imports' : List Import} {name : String}
    (hnames : NamesDistinct imports) (hperm : imports'.Perm imports)
    (hdotless : '.' ∉ name.toList) :
    bindingFor? imports' name = bindingFor? imports name := by
  have hunique : ∀ p ∈ binders imports name, ∀ q ∈ binders imports name, id p = id q :=
    fun p hp q hq => eq_of_mem_binders hnames hdotless hp hq
  have hbinders : (binders imports' name).Perm (binders imports name) := hperm.filterMap _
  have hhead := head?_map_eq_of_perm hbinders hunique
  rw [Option.map_id, id, id] at hhead
  rw [bindingFor?_eq, bindingFor?_eq, hhead]

/-! ## Steps that do not depend on the order -/

def Scope.withImports (scope : Scope) (imports : List Import) : Scope :=
  { scope with imports := imports }

section

variable {ix : Index} {scope : Scope} {imports : List Import}

theorem nearer_perm (hperm : imports.Perm scope.imports) :
    nearer ix (scope.withImports imports) = nearer ix scope := by
  have htier : ∀ path, tier ix (scope.withImports imports) path = tier ix scope path := by
    intro path
    -- whether some import leads to a file does not depend on their order
    have hany : imports.any (·.targets.contains path)
        = scope.imports.any (·.targets.contains path) := hperm.any_eq
    have hpackage : samePackage ix (scope.withImports imports) path = samePackage ix scope path :=
      rfl
    rw [tier, tier, hpackage]
    show (if path == scope.path then 0 else if samePackage ix scope path then 1
      else if imports.any (·.targets.contains path) then 2 else 3) = _
    rw [hany]
  funext a b
  rw [nearer, nearer, htier, htier]

theorem nearest?_perm (hperm : imports.Perm scope.imports) (paths : List String) :
    nearest? ix (scope.withImports imports) paths = nearest? ix scope paths := by
  rw [nearest?, nearest?, nearer_perm hperm]

/-- A type name refers to the same class in any order: the imports are asked for what comes before
its first dot. -/
theorem findClass?_perm (hnames : NamesDistinct scope.imports) (hperm : imports.Perm scope.imports)
    (typeName : String) :
    findClass? ix (scope.withImports imports) typeName = findClass? ix scope typeName := by
  -- the head of a type name has no dot, so one import at most binds it
  have himported : ∀ head tail, '.' ∉ head.toList →
      importedClass ix (scope.withImports imports) head tail
        = importedClass ix scope head tail := by
    intro head tail hdotless
    have hbinding : bindingFor? (scope.withImports imports).imports head
        = bindingFor? scope.imports head := bindingFor?_perm hnames hperm hdotless
    rw [importedClass, importedClass, hbinding]
  have hdeclared : declaredClass? ix (scope.withImports imports) typeName
      = declaredClass? ix scope typeName := by
    rw [declaredClass?, declaredClass?, nearer_perm hperm]
    rfl
  have hsplit := @dotless_of_splitFirst? typeName.toList
  have hmark : ".".toList = ['.'] := by decide
  rw [findClass?, findClass?, Text.splitFirst?, hmark, hdeclared]
  -- without a dot the whole name is the head
  cases hfirst : Chars.splitFirst? ['.'] typeName.toList with
  | none =>
    dsimp only [Option.map_none]
    rw [himported typeName none (hsplit.2 hfirst)]
  | some parts =>
    obtain ⟨head, tail⟩ := parts
    have hhead : '.' ∉ (String.ofList head).toList := by
      rw [String.toList_ofList]
      exact hsplit.1 head tail hfirst
    dsimp only [Option.map_some]
    rw [himported _ _ hhead]

theorem byReceiverType_perm (hnames : NamesDistinct scope.imports)
    (hperm : imports.Perm scope.imports) (call : CallSite) :
    byReceiverType ix (scope.withImports imports) call = byReceiverType ix scope call := by
  have htype : onType ix (scope.withImports imports) = onType ix scope := by
    funext typeName name
    rw [onType, onType, findClass?_perm hnames hperm]
  rw [byReceiverType, byReceiverType, htype]
  rfl

theorem byReceiverClass_perm (hnames : NamesDistinct scope.imports)
    (hperm : imports.Perm scope.imports) (call : CallSite) :
    byReceiverClass ix (scope.withImports imports) call = byReceiverClass ix scope call := by
  have hclass : findClass? ix (scope.withImports imports) = findClass? ix scope :=
    funext (findClass?_perm hnames hperm)
  rw [byReceiverClass, byReceiverClass, hclass]

theorem unscoped?_perm (hperm : imports.Perm scope.imports) (call : CallSite) :
    unscoped? ix (scope.withImports imports) call = unscoped? ix scope call := by
  have hnearest : nearest? ix (scope.withImports imports) = nearest? ix scope :=
    funext (nearest?_perm hperm)
  rw [unscoped?, unscoped?, hnearest]
  rfl

end

/-! ## All steps -/

/-- Where a call leads by a step, or else by the steps after it. -/
def Verdict.orElse : Verdict → Option String → Option String
  | .found path, _ => some path
  | .outside, _ => none
  | .undecided, later => later

/-- Where the steps lead that come after imports and qualified types. -/
def laterSteps (ix : Index) (scope : Scope) (call : CallSite) : Option String :=
  (byReceiverType ix scope call).orElse
    ((byReceiverClass ix scope call).orElse (unscoped? ix scope call))

/-- Where a call leads if it goes through a name that an import binds. -/
def resolveThrough (ix : Index) (scope : Scope) (call : CallSite) (receiver : String)
    (p : Import × ImportBinding) : Option String :=
  (throughBinding ix p.1 p.2 receiver call.name).orElse (laterSteps ix scope call)

/-- Where a call leads if no import binds a start of its receiver. -/
def resolveUnbound (ix : Index) (scope : Scope) (call : CallSite) (receiver : String) :
    Option String :=
  Verdict.orElse
    (if Text.containsChar receiver '.' then
      .ofOption ((ix.classQualified? receiver).map (memberOrClass ix · call.name))
    else .undecided)
    (laterSteps ix scope call)

section

variable {ix : Index} {scope : Scope} {call : CallSite} {receiver : String}

theorem resolveCall_eq (ix : Index) (scope : Scope) (call : CallSite) :
    resolveCall ix scope call
      = (qualified ix scope call).orElse (laterSteps ix scope call) := by
  rw [resolveCall, laterSteps]
  cases qualified ix scope call with
  | found path => rfl
  | outside => rfl
  | undecided =>
    cases byReceiverType ix scope call with
    | found path => rfl
    | outside => rfl
    | undecided => cases byReceiverClass ix scope call <;> rfl

theorem laterSteps_perm {imports : List Import} (hnames : NamesDistinct scope.imports)
    (hperm : imports.Perm scope.imports) :
    laterSteps ix (scope.withImports imports) call = laterSteps ix scope call := by
  rw [laterSteps, laterSteps, byReceiverType_perm hnames hperm, byReceiverClass_perm hnames hperm,
    unscoped?_perm hperm]

/-- A call on a receiver goes through the first binder of the receiver. -/
theorem resolveCall_of_receiver (hreceiver : call.receiver = some receiver) :
    resolveCall ix scope call
      = ((binders scope.imports receiver).head?.map (resolveThrough ix scope call receiver)).getD
          (resolveUnbound ix scope call receiver) := by
  rw [resolveCall_eq, qualified, hreceiver]
  dsimp only
  rw [qualifiedReceiver, bindingFor?_eq]
  cases (binders scope.imports receiver).head? with
  | none => rfl
  | some p => rfl

/-- In another order, the call goes through the first binder of that order. -/
theorem resolveCall_withImports {imports : List Import} (hreceiver : call.receiver = some receiver)
    (hnames : NamesDistinct scope.imports) (hperm : imports.Perm scope.imports) :
    resolveCall ix (scope.withImports imports) call
      = ((binders imports receiver).head?.map (resolveThrough ix scope call receiver)).getD
          (resolveUnbound ix scope call receiver) := by
  have hthrough : resolveThrough ix (scope.withImports imports) call receiver
      = resolveThrough ix scope call receiver := by
    funext p
    rw [resolveThrough, resolveThrough, laterSteps_perm hnames hperm]
  have hunbound : resolveUnbound ix (scope.withImports imports) call receiver
      = resolveUnbound ix scope call receiver := by
    rw [resolveUnbound, resolveUnbound, laterSteps_perm hnames hperm]
  rw [resolveCall_of_receiver hreceiver, hthrough, hunbound]
  rfl

/--
**The order of imports decides a call exactly when two imports that bind a start of its receiver
lead to different files.** A receiver without dots leads to the same file in any order.
-/
theorem resolveCall_order_iff (hreceiver : call.receiver = some receiver)
    (hnames : NamesDistinct scope.imports) :
    ((∀ imports, imports.Perm scope.imports →
        resolveCall ix (scope.withImports imports) call = resolveCall ix scope call) ↔
      ∀ p ∈ binders scope.imports receiver, ∀ q ∈ binders scope.imports receiver,
        resolveThrough ix scope call receiver p = resolveThrough ix scope call receiver q) ∧
      ('.' ∉ receiver.toList → ∀ imports, imports.Perm scope.imports →
        resolveCall ix (scope.withImports imports) call = resolveCall ix scope call) := by
  -- if all binders lead alike, the first one of any order does
  have hagree : (∀ p ∈ binders scope.imports receiver, ∀ q ∈ binders scope.imports receiver,
      resolveThrough ix scope call receiver p = resolveThrough ix scope call receiver q) →
      ∀ imports, imports.Perm scope.imports →
        resolveCall ix (scope.withImports imports) call = resolveCall ix scope call := by
    intro hsame imports hperm
    have hbinders : (binders imports receiver).Perm (binders scope.imports receiver) :=
      hperm.filterMap _
    rw [resolveCall_withImports hreceiver hnames hperm, resolveCall_of_receiver hreceiver,
      head?_map_eq_of_perm hbinders hsame]
  refine ⟨⟨fun horder => ?_, hagree⟩, fun hdotless => hagree fun p hp q hq => ?_⟩
  · -- every binder is the first one when its import is listed first
    have hfirst : ∀ p ∈ binders scope.imports receiver,
        resolveThrough ix scope call receiver p = resolveCall ix scope call := by
      intro p hp
      obtain ⟨i, hi, hbinds⟩ := List.mem_filterMap.mp hp
      have hperm := (List.perm_cons_erase hi).symm
      have hhead : (binders (i :: scope.imports.erase i) receiver).head? = some p := by
        rw [binders, List.filterMap_cons, hbinds]
        rfl
      rw [← horder _ hperm, resolveCall_withImports hreceiver hnames hperm, hhead]
      rfl
    intro p hp q hq
    rw [hfirst p hp, hfirst q hq]
  · rw [eq_of_mem_binders hnames hdotless hp hq]

end

/-! ## A package and its module

A file imports `pkg` and `pkg.mod`, and calls `pkg.load()` and `pkg.mod.run()`. -/

def packageIndex : Index :=
  .ofEntries .python (.ofSources [] [])
    [.declared
      { path := "pkg/__init__.py"
        functions := [{ name := "load", kind := .free, visibility := .pub }] },
     .declared
      { path := "pkg/mod.py"
        functions := [{ name := "run", kind := .free, visibility := .pub }] }]

def moduleImport (module path : String) : Import :=
  { source := module, kind := .inRepository, path := some path, bindings := [⟨module, none⟩]
    targets := [path] }

/-- The scope of a file that imports the package before its module. -/
def packageScope : Scope :=
  { path := "main.py", namespaceName := none, className := none
    imports := [moduleImport "pkg" "pkg/__init__.py", moduleImport "pkg.mod" "pkg/mod.py"] }

/-- A call on the package leads to its file in either order. -/
theorem resolveCall_order_package :
    NamesDistinct packageScope.imports ∧
      ∀ imports, imports.Perm packageScope.imports →
        resolveCall packageIndex (packageScope.withImports imports)
            { name := "load", receiver := some "pkg" }
          = some "pkg/__init__.py" := by
  have hnames : NamesDistinct packageScope.imports := by
    unfold NamesDistinct
    decide +kernel
  have hfirst : resolveCall packageIndex packageScope { name := "load", receiver := some "pkg" }
      = some "pkg/__init__.py" := by
    decide +kernel
  refine ⟨hnames, fun imports hperm => ?_⟩
  rw [← hfirst]
  exact (resolveCall_order_iff rfl hnames).2 (by decide +kernel) imports hperm

/-- A call on the module is lost behind the import of the package, and found before it. -/
theorem resolveCall_order_module :
    NamesDistinct packageScope.imports ∧ packageScope.imports.reverse.Perm packageScope.imports ∧
      resolveCall packageIndex packageScope { name := "run", receiver := some "pkg.mod" } = none ∧
      resolveCall packageIndex (packageScope.withImports packageScope.imports.reverse)
          { name := "run", receiver := some "pkg.mod" }
        = some "pkg/mod.py" := by
  refine ⟨?_, List.reverse_perm _, ?_, ?_⟩
  · unfold NamesDistinct
    decide +kernel
  · decide +kernel
  · decide +kernel

end SourceAtlas.Resolve
