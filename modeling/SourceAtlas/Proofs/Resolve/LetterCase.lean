import SourceAtlas.Proofs.Index.Contents
import SourceAtlas.Proofs.Resolve.Hierarchy
import SourceAtlas.Proofs.Resolve.ImportOrder
import SourceAtlas.Proofs.Text.LetterCase

/-!
# Calls and the case of letters

Apex does not tell names apart by the case of their letters. A call goes through tables that are
looked up by lowercase forms, and through comparisons up to the case of ASCII letters, so both have
to agree on what a spelling is. Without imports they do, at every step (`resolveCall_spelledAlike`):

* **Look-ups** take the lowercase form of a name, and ASCII spellings of one name share it
  (`key_eq`).
* **The search through a hierarchy** asks each class for the method by such look-ups, and goes on
  from class to class by what the classes say, not by the call (`searchMethod_spelling`).
* **Types of members** are looked up by the receiver as it is written, but only C# has them
  (`memberType?_ofEntries`).
-/

namespace SourceAtlas

open Text (SameLetters)

/-! ## Look-ups -/

namespace Index

section

variable {ix : Index} (hfolds : ix.language.foldsCase = true) {a b : String} (h : SameLetters a b)

include hfolds h

/-- Spellings of one name are looked up by one key. -/
theorem key_eq : ix.key a = ix.key b := by
  rw [key, key, if_pos hfolds, if_pos hfolds, h.lower_eq]

/-- A name that is like one spelling is like the other. -/
theorem sameName_eq (name : String) : ix.sameName name a = ix.sameName name b := by
  rw [sameName, sameName, if_pos hfolds, if_pos hfolds, h.eqIgnoreAsciiCase_eq]

/-- Classes are found by either spelling of their name. -/
theorem classesNamed_spelling : ix.classesNamed a = ix.classesNamed b := by
  rw [classesNamed, classesNamed, key_eq hfolds h]

/-- A class is found by either spelling of its qualified name. -/
theorem classQualified?_spelling : ix.classQualified? a = ix.classQualified? b := by
  rw [classQualified?, classQualified?, key_eq hfolds h]

/-- Methods are found by either spelling of their name. -/
theorem methodSites_spelling : ix.methodSites a = ix.methodSites b := by
  rw [methodSites, methodSites, key_eq hfolds h]

end

/-- No member has a type but in C#. -/
theorem memberType?_ofEntries {l : Language} (hl : l ≠ .csharp) (r : Repository)
    (entries : List Entry) (className member : String) :
    (ofEntries l r entries).memberType? className member = none := by
  have hempty : (ofEntries l r entries).language = l
      ∧ (ofEntries l r entries).memberTypes = Dict.empty := by
    refine ofEntries_induction (motive := fun ix => ix.language = l ∧ ix.memberTypes = Dict.empty)
      ⟨rfl, rfl⟩ (fun _ _ hix => hix) (fun ix x hix => ?_) entries
    refine add_induction (motive := fun ix => ix.language = l ∧ ix.memberTypes = Dict.empty) ix x
      hix (fun _ _ hix => hix) (fun ix' c hix' => ?_) (fun _ _ hix => hix)
    obtain ⟨hlanguage, hmembers⟩ := hix'
    -- a class adds its name and its qualified names, and types of members only in C#
    obtain ⟨d, hd⟩ := foldl_addQualified_eq ix'.classes.length (ix'.qualifiedNames x c)
      { ix' with
        classes := ix'.classes ++ [.ofDecl x.path c]
        slotsByName :=
          ix'.slotsByName.update (ix'.key c.name) (·.getD [] ++ [ix'.classes.length]) }
    unfold addClass
    dsimp only
    rw [hd, if_neg (hlanguage ▸ hl)]
    exact ⟨hlanguage, hmembers⟩
  rw [memberType?, hempty.2]
  rfl

end Index

namespace Resolve

/-! ## Names in a call -/

/-- Names that are spelled alike have last parts that are spelled alike. -/
theorem simpleName_spelling {a b : String} (h : SameLetters a b) :
    SameLetters (simpleName a) (simpleName b) := by
  -- a dot is no letter, so the last dot stands at the same place
  have hsimple : ∀ s, simpleName (Text.asciiLower s) = Text.asciiLower (simpleName s) := by
    intro s
    unfold simpleName Text.splitLast?
    rw [Text.toList_asciiLower, Chars.splitLast?_map_asciiLower]
    cases Chars.splitLast? (· == '.') s.toList with
    | none => rfl
    | some parts => exact (Text.asciiLower_ofList parts.2).symm
  rw [SameLetters, ← hsimple, ← hsimple, show Text.asciiLower a = Text.asciiLower b from h]

/-- Whether a receiver is a path of names does not depend on the case of letters. -/
theorem isNamePath_spelling {a b : String} (h : SameLetters a b) : isNamePath a = isNamePath b := by
  refine h.apply_eq fun s => ?_
  have hchar : ∀ c, (Text.isAlphanumeric (Chars.asciiLower c) || Chars.asciiLower c == '_'
      || Chars.asciiLower c == '$') = (Text.isAlphanumeric c || c == '_' || c == '$') :=
    Chars.apply_asciiLower (f := fun c => Text.isAlphanumeric c || c == '_' || c == '$')
      (by decide +kernel)
  rw [isNamePath, isNamePath, Text.splitOn_asciiLower_dot, List.all_map]
  refine List.all_congr rfl fun segment => ?_
  rw [Function.comp_apply, Text.isEmpty_asciiLower, Text.toList_asciiLower, List.all_map]
  exact congrArg (!segment.isEmpty && ·) (List.all_congr rfl hchar)

/-! ## Methods -/

section

variable {ix : Index} (hfolds : ix.language.foldsCase = true)

include hfolds

section

variable {name name' : String} (hname : SameLetters name name')

include hname

/-- A class has a method under either spelling of its name. -/
theorem ownMethod?_spelling (c : ClassEntry) : ownMethod? ix c name = ownMethod? ix c name' := by
  have hsites : sitesOf ix c name = sitesOf ix c name' := by
    rw [sitesOf, sitesOf, Index.methodSites_spelling hfolds hname]
  have hsame : (ix.sameName · name) = (ix.sameName · name') :=
    funext (Index.sameName_eq hfolds hname)
  rw [ownMethod?, ownMethod?, hsites, hsame]

/-- The induction is that of the search: the classes that it enters are the same for both
spellings. -/
theorem searchMethod_spelling (unseen : List ClassKey) (pending : List ClassEntry) :
    searchMethod ix name unseen pending = searchMethod ix name' unseen pending := by
  have hown := ownMethod?_spelling hfolds hname
  induction unseen, pending using searchMethod.induct ix name with
  | case1 unseen => rw [searchMethod, searchMethod]
  | case2 unseen c rest hmem path hfound =>
    rw [searchMethod, searchMethod, dif_pos hmem, dif_pos hmem, ← hown, hfound]
  | case3 unseen c rest hmem hnone ih =>
    rw [searchMethod, searchMethod, dif_pos hmem, dif_pos hmem, ← hown, hnone]
    exact ih
  | case4 unseen c rest hmem ih =>
    rw [searchMethod, searchMethod, dif_neg hmem, dif_neg hmem]
    exact ih

/-- So a method is found in a hierarchy under either spelling. -/
theorem methodInChain?_spelling (c : ClassEntry) :
    methodInChain? ix c name = methodInChain? ix c name' :=
  searchMethod_spelling hfolds hname _ [c]

/-- The same where the class itself stands in for a method that it does not have. -/
theorem memberOrClass_spelling (c : ClassEntry) :
    memberOrClass ix c name = memberOrClass ix c name' := by
  rw [memberOrClass, memberOrClass, methodInChain?_spelling hfolds hname]

end

/-! ## Classes -/

/-- A class is found by either spelling, in the namespace of the scope and elsewhere. -/
theorem declaredClass?_spelling {a b : String} (h : SameLetters a b) (scope : Scope) :
    declaredClass? ix scope a = declaredClass? ix scope b := by
  have hin : ∀ ns : String,
      ix.classQualified? (ns ++ "." ++ a) = ix.classQualified? (ns ++ "." ++ b) := fun ns =>
    Index.classQualified?_spelling hfolds (h.append_left (ns ++ "."))
  rw [declaredClass?, declaredClass?, h.containsChar_dot, Index.classQualified?_spelling hfolds h,
    Index.classesNamed_spelling hfolds (simpleName_spelling h)]
  simp only [hin]

end

/-- Without imports a type name refers to a declared class. -/
theorem findClass?_of_imports_eq_nil {ix : Index} {scope : Scope} (himports : scope.imports = [])
    (typeName : String) : findClass? ix scope typeName = declaredClass? ix scope typeName := by
  -- no import says anything about the name
  have hsilent : ∀ head tail, importedClass ix scope head tail = .silent := by
    intro head tail
    rw [importedClass, himports]
    rfl
  unfold findClass?
  dsimp only
  rw [hsilent]

/-! ## The steps of a call -/

/-- Two calls, each with the scope that it is made in, that differ at most by the case of letters in
the called name, the receiver and the name of the enclosing class. -/
structure SpelledAlike (scope scope' : Scope) (call call' : CallSite) : Prop where
  path : scope.path = scope'.path
  namespaceName : scope.namespaceName = scope'.namespaceName
  imports : scope.imports = scope'.imports
  className : Option.Rel SameLetters scope.className scope'.className
  name : SameLetters call.name call'.name
  receiver : Option.Rel SameLetters call.receiver call'.receiver
  receiverType : call.receiverType = call'.receiverType

/-- Options that are related are both there or both not. -/
theorem rel_cases {α : Type} {R : α → α → Prop} {o o' : Option α} (h : Option.Rel R o o') :
    (o = none ∧ o' = none) ∨ ∃ a b, o = some a ∧ o' = some b ∧ R a b := by
  cases h with
  | none => exact Or.inl ⟨rfl, rfl⟩
  | some hab => exact Or.inr ⟨_, _, rfl, rfl, hab⟩

namespace SpelledAlike

variable {ix : Index} {scope scope' : Scope} {call call' : CallSite}
  (h : SpelledAlike scope scope' call call')

include h

/-- Nearness does not depend on the enclosing class. -/
theorem nearer_eq : nearer ix scope = nearer ix scope' := by
  obtain ⟨path, namespaceName, className, imports⟩ := scope
  obtain ⟨path', namespaceName', className', imports'⟩ := scope'
  obtain rfl : path = path' := h.path
  obtain rfl : namespaceName = namespaceName' := h.namespaceName
  obtain rfl : imports = imports' := h.imports
  rfl

variable (himports : scope.imports = [])

section

include himports

/-- A type name, which is spelled in one way here, refers to the same class from both scopes. -/
theorem findClass?_eq (typeName : String) :
    findClass? ix scope typeName = findClass? ix scope' typeName := by
  rw [findClass?_of_imports_eq_nil himports, findClass?_of_imports_eq_nil (h.imports ▸ himports),
    declaredClass?, declaredClass?, h.nearer_eq, h.namespaceName]

end

variable (hfolds : ix.language.foldsCase = true)

include hfolds

/-- Both scopes stand in the same class. -/
theorem ownClass?_eq : ownClass? ix scope = ownClass? ix scope' := by
  unfold ownClass?
  rw [h.path]
  rcases rel_cases h.className with ⟨hnone, hnone'⟩ | ⟨a, b, ha, hb, hab⟩
  · rw [hnone, hnone']
  · rw [ha, hb]
    dsimp only [Option.bind_eq_bind, Option.bind_some]
    rw [Index.classesNamed_spelling hfolds hab]

/-- The last step, where names are looked up among all functions and classes. -/
theorem unscoped?_eq : unscoped? ix scope call = unscoped? ix scope' call' := by
  have hsome : call.receiver.isSome = call'.receiver.isSome := by
    rcases rel_cases h.receiver with ⟨hnone, hnone'⟩ | ⟨a, b, ha, hb, -⟩
    · rw [hnone, hnone']
    · rw [ha, hb]
      rfl
  have hnearest : nearest? ix scope = nearest? ix scope' := by
    funext paths
    rw [nearest?, nearest?, h.nearer_eq]
  have hvisible : visibleFrom ix scope = visibleFrom ix scope' := by
    funext path
    rw [visibleFrom, visibleFrom, h.path]
  rw [unscoped?, unscoped?, hsome, hnearest, hvisible, h.ownClass?_eq hfolds,
    Index.methodSites_spelling hfolds h.name, Index.classesNamed_spelling hfolds h.name,
    funext (methodInChain?_spelling hfolds h.name)]

include himports

/-- The first step: a receiver that is a qualified name. -/
theorem qualified_eq : qualified ix scope call = qualified ix scope' call' := by
  unfold qualified
  rcases rel_cases h.receiver with ⟨hnone, hnone'⟩ | ⟨a, b, ha, hb, hab⟩
  · -- a bare name could only be an imported one
    rw [hnone, hnone']
    dsimp only
    rw [importedName, importedName, ← h.imports, himports]
    rfl
  · -- a receiver could only be bound by an import, or be qualified itself
    rw [ha, hb]
    dsimp only
    rw [qualifiedReceiver, qualifiedReceiver, ← h.imports, himports]
    dsimp only [bindingFor?, List.findSome?_nil]
    rw [hab.containsChar_dot, Index.classQualified?_spelling hfolds hab,
      funext (memberOrClass_spelling hfolds h.name)]

/-- A method of a given type is the same. -/
theorem onType_eq (typeName : String) :
    onType ix scope typeName call.name = onType ix scope' typeName call'.name := by
  rw [onType, onType, h.findClass?_eq himports, funext (methodInChain?_spelling hfolds h.name)]

/-- The second step: a receiver whose type is known. -/
theorem byReceiverType_eq (hmembers : ∀ className member, ix.memberType? className member = none) :
    byReceiverType ix scope call = byReceiverType ix scope' call' := by
  have hon := h.onType_eq himports hfolds
  have hmember : ∀ (className : Option String) member,
      (className.bind (ix.memberType? · member)).bind TypeName.normalize? = none := by
    intro className member
    cases className with
    | none => rfl
    | some name => rw [Option.bind_some, hmembers, Option.bind_none]
  unfold byReceiverType
  rcases rel_cases h.receiver with ⟨hnone, hnone'⟩ | ⟨a, b, ha, hb, hab⟩
  · rw [hnone, hnone']
  · have hsame : (ix.sameName · a) = (ix.sameName · b) := funext (Index.sameName_eq hfolds hab)
    rw [ha, hb, ← h.receiverType]
    dsimp only
    cases call.receiverType with
    | some hint =>
      dsimp only
      cases TypeName.normalize? hint with
      | none => rfl
      | some typeName => exact hon typeName
    | none =>
      dsimp only
      -- without a hint, `this`, `super` and the like remain
      rw [hmember, hmember, hsame, h.ownClass?_eq hfolds]
      simp only [methodInChain?_spelling hfolds h.name, hon]

/-- The third step: a receiver that is the name of a class. -/
theorem byReceiverClass_eq : byReceiverClass ix scope call = byReceiverClass ix scope' call' := by
  unfold byReceiverClass
  rcases rel_cases h.receiver with ⟨hnone, hnone'⟩ | ⟨a, b, ha, hb, hab⟩
  · rw [hnone, hnone']
  · have hclass : findClass? ix scope a = findClass? ix scope' b := by
      rw [h.findClass?_eq himports, findClass?_of_imports_eq_nil (h.imports ▸ himports),
        findClass?_of_imports_eq_nil (h.imports ▸ himports), declaredClass?_spelling hfolds hab]
    rw [ha, hb]
    dsimp only
    rw [isNamePath_spelling hab, hclass, funext (memberOrClass_spelling hfolds h.name)]

end SpelledAlike

/--
**Apex calls do not depend on the case of letters.** In the index of any Apex files, two calls that
are spelled alike lead to the same file from a scope without imports.
-/
theorem resolveCall_spelledAlike (r : Repository) (entries : List Index.Entry)
    {scope scope' : Scope} {call call' : CallSite} (h : SpelledAlike scope scope' call call')
    (himports : scope.imports = []) :
    resolveCall (.ofEntries .apex r entries) scope call =
      resolveCall (.ofEntries .apex r entries) scope' call' := by
  have hfolds : (Index.ofEntries .apex r entries).language.foldsCase = true := by
    rw [Index.language_ofEntries]
    rfl
  have hmembers := Index.memberType?_ofEntries (l := .apex) (by decide) r entries
  rw [resolveCall_eq, resolveCall_eq, laterSteps, laterSteps, h.qualified_eq himports hfolds,
    h.byReceiverType_eq himports hfolds hmembers, h.byReceiverClass_eq himports hfolds,
    h.unscoped?_eq hfolds]

/-! ## A handler that inherits a method

`AccountHandler` gets `Run` from `BaseHandler`, which it spells in small letters. -/

/-- A public class with a superclass and some methods. -/
def handlerClass (name : String) (superclass : Option String) (methods : List String) : ClassDecl :=
  { name, qualifiedName := name, kind := .cls, visibility := .pub, superclass, methods }

/-- The class that declares `Run`. -/
def baseHandler : ClassEntry :=
  .ofDecl "classes/BaseHandler.cls" (handlerClass "BaseHandler" none ["Run"])

/-- The class that inherits it. -/
def accountHandler : ClassEntry :=
  .ofDecl "classes/AccountHandler.cls" (handlerClass "AccountHandler" (some "basehandler") [])

/-- The index of the two files. -/
def handlerIndex : Index :=
  .ofEntries .apex (.ofSources [] [])
    [.declared
      { path := "classes/BaseHandler.cls", classes := [handlerClass "BaseHandler" none ["Run"]] },
     .declared
      { path := "classes/AccountHandler.cls"
        classes := [handlerClass "AccountHandler" (some "basehandler") []] }]

/-- The scope of a trigger, its name spelled in some way. -/
def triggerScope (name : String) : Scope :=
  { path := "triggers/AccountTrigger.trigger", namespaceName := none, className := some name
    imports := [] }

/-- A call on a receiver without a type. -/
def callOn (receiver name : String) : CallSite :=
  { name, receiver := some receiver }

/-- The search goes from the handler to its superclass, and finds the method there. -/
theorem methodInChain?_accountHandler :
    methodInChain? handlerIndex accountHandler "Run" = some "classes/BaseHandler.cls" := by
  have hup : parentsOf handlerIndex accountHandler = [baseHandler] := by decide +kernel
  have hnone : ownMethod? handlerIndex accountHandler "Run" = none := by decide +kernel
  have hbase : ownMethod? handlerIndex baseHandler "Run" = some "classes/BaseHandler.cls" := by
    decide +kernel
  rw [methodInChain?, searchMethod, dif_pos (by decide +kernel), hnone]
  dsimp only
  rw [hup, List.singleton_append, searchMethod, dif_pos (by decide +kernel), hbase]

/-- A call of the inherited method leads to the file of the superclass in either spelling. -/
theorem resolveCall_spelledAlike_handler :
    let scope := triggerScope "AccountTrigger"
    let call := callOn "AccountHandler" "Run"
    let scope' := triggerScope "ACCOUNTTRIGGER"
    let call' := callOn "accountHANDLER" "rUN"
    SpelledAlike scope scope' call call'
      ∧ resolveCall handlerIndex scope call = some "classes/BaseHandler.cls"
      ∧ resolveCall handlerIndex scope' call' = some "classes/BaseHandler.cls" := by
  intro scope call scope' call'
  have halike : SpelledAlike scope scope' call call' :=
    { path := rfl
      namespaceName := rfl
      imports := rfl
      className := .some (by decide +kernel)
      name := by decide +kernel
      receiver := .some (by decide +kernel)
      receiverType := rfl }
  have hfound : byReceiverClass handlerIndex scope call = .found "classes/BaseHandler.cls" := by
    have hname : isNamePath "AccountHandler" = true := by decide +kernel
    have hclass : findClass? handlerIndex scope "AccountHandler" = some accountHandler := by
      decide +kernel
    unfold byReceiverClass
    dsimp only [call, callOn]
    rw [if_pos hname, hclass, Option.map_some, memberOrClass, methodInChain?_accountHandler]
    rfl
  have hfirst : resolveCall handlerIndex scope call = some "classes/BaseHandler.cls" := by
    have hqualified : qualified handlerIndex scope call = .undecided := by decide +kernel
    have htype : byReceiverType handlerIndex scope call = .undecided := by decide +kernel
    rw [resolveCall, hqualified, htype, hfound]
  refine ⟨halike, hfirst, ?_⟩
  rw [← hfirst]
  exact (resolveCall_spelledAlike _ _ halike rfl).symm

end Resolve

end SourceAtlas
