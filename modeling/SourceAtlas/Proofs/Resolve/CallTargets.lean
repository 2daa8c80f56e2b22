import SourceAtlas.Proofs.Resolve.ImportTargets
import SourceAtlas.Resolve.Call

/-!
# Resolving calls: the callee is in a registered file

A call can be resolved in a dozen ways: through the targets of an import, the sites of a name, class
entries, the parts and parents of a class, or the nearest declaration. In a closed index all of them
end at a registered file (`resolveCall_registered`), with one exception that has to be paid for: a
static import of a single member is taken at its word, so its targets must be registered
(`StaticTargetsRegistered`).

The targets of imports are known paths that need not be registered. Resolution never gives one away
before it has found a declaration there or has looked it up among the registered files.
-/

namespace SourceAtlas.Resolve

variable {ix : Index}

/-! ## Classes

Whatever a class is found by, it is an entry of the index. -/

/-- A least item is one of the items. -/
theorem mem_of_firstLeast? {α : Type} {less : α → α → Bool} {items : List α} {a : α}
    (h : firstLeast? less items = some a) : a ∈ items := by
  cases items with
  | nil => cases h
  | cons x xs =>
    rw [← Option.some.inj h]
    -- the best so far is the first item or one of those passed
    refine List.foldlRecOn xs _ (motive := fun best => best ∈ x :: xs) List.mem_cons_self ?_
    intro best hbest y hy
    split
    · exact List.mem_cons_of_mem x hy
    · exact hbest

/-- A class among some targets. -/
theorem classIn?_registered (h : ix.Closed) {targets : List String} {name : String}
    {c : ClassEntry} (hc : classIn? ix targets name = some c) : c.path ∈ ix.files :=
  h.classesNamed (List.mem_filter.mp (mem_of_firstLeast? hc)).1

/-- The class that a call stands in. -/
theorem ownClass?_registered (h : ix.Closed) {scope : Scope} {c : ClassEntry}
    (hc : ownClass? ix scope = some c) : c.path ∈ ix.files := by
  obtain ⟨name, -, hc⟩ := Option.bind_eq_some_iff.mp hc
  rcases Option.or_eq_some_iff.mp hc with hc | ⟨-, hc⟩
  · exact h.classesNamed (List.mem_of_find?_eq_some hc)
  · exact h.classesNamed (mem_of_firstLeast? hc)

/-- What an import finds is a class in its targets. -/
theorem exists_classIn?_of_importedClass {scope : Scope} {head : String} {tail : Option String}
    {c : ClassEntry} (hc : importedClass ix scope head tail = .found c) :
    ∃ targets name, classIn? ix targets name = some c := by
  unfold importedClass at hc
  split at hc
  · cases hc
  next i b _ =>
    split at hc
    · cases hc
    · split at hc
      · cases hc
      next wanted _ =>
        -- an import that binds the name is silent or decides, but finds nothing else
        cases hin : classIn? ix i.targets wanted with
        | none => simp [hin] at hc
        | some found =>
          simp only [hin, Option.elim_some, ImportVerdict.found.injEq] at hc
          exact ⟨i.targets, wanted, hc ▸ hin⟩

/--
The ways to find the class of a type name: in the targets of an import, by a qualified name, or as
the nearest class of its simple name.
-/
theorem findClass?_cases {scope : Scope} {typeName : String} {c : ClassEntry}
    (hc : findClass? ix scope typeName = some c) :
    (∃ targets name, classIn? ix targets name = some c)
      ∨ (∃ qualified, ix.classQualified? qualified = some c)
      ∨ firstLeast? (fun a b => nearer ix scope a.path b.path)
          (ix.classesNamed (simpleName typeName)) = some c := by
  unfold findClass? at hc
  simp only at hc
  split at hc
  next found hfound =>
    rw [← Option.some.inj hc]
    exact Or.inl (exists_classIn?_of_importedClass hfound)
  · cases hc
  · unfold declaredClass? at hc
    rcases Option.or_eq_some_iff.mp hc with hc | ⟨-, hc⟩
    · rcases Option.or_eq_some_iff.mp hc with hc | ⟨-, hc⟩
      · -- by the qualified name as written
        split at hc
        · exact Or.inr (Or.inl ⟨typeName, hc⟩)
        · cases hc
      · -- in the namespace of the scope
        obtain ⟨ns, -, hc⟩ := Option.bind_eq_some_iff.mp hc
        exact Or.inr (Or.inl ⟨ns ++ "." ++ typeName, hc⟩)
    · exact Or.inr (Or.inr hc)

/-- A type name refers to a class of a registered file. -/
theorem findClass?_registered (h : ix.Closed) {scope : Scope} {typeName : String}
    {c : ClassEntry} (hc : findClass? ix scope typeName = some c) : c.path ∈ ix.files := by
  rcases findClass?_cases hc with ⟨targets, name, hin⟩ | ⟨qualified, hqualified⟩ | hnearest
  · exact classIn?_registered h hin
  · exact h.classQualified? hqualified
  · exact h.classesNamed (mem_of_firstLeast? hnearest)

/-- Parents are looked up as type names are. -/
theorem parentsOf_registered (h : ix.Closed) {c parent : ClassEntry}
    (hparent : parent ∈ parentsOf ix c) : parent.path ∈ ix.files := by
  obtain ⟨typeName, -, hfound⟩ := List.mem_filterMap.mp hparent
  exact findClass?_registered h hfound

/-! ## Methods -/

/-- A method that the class has itself, in one of its parts. -/
theorem ownMethod?_registered (h : ix.Closed) {c : ClassEntry} (hc : c.path ∈ ix.files)
    {name p : String} (hp : ownMethod? ix c name = some p) : p ∈ ix.files := by
  unfold ownMethod? at hp
  have hsites : ∀ s ∈ sitesOf ix c name, s.path ∈ ix.files := fun s hs =>
    h.methodSites (List.mem_filter.mp hs).1
  rcases Option.or_eq_some_iff.mp hp with hp | ⟨-, hp⟩
  · -- a site of the method
    obtain ⟨s, hs, rfl⟩ := Option.map_eq_some_iff.mp hp
    rcases Option.or_eq_some_iff.mp hs with hs | ⟨-, hs⟩
    · exact hsites s (List.mem_of_find?_eq_some hs)
    · exact hsites s (List.mem_of_head? hs)
  · -- a part of the class that lists it
    obtain ⟨part, hpart, rfl⟩ := Option.map_eq_some_iff.mp hp
    exact h.partsOf hc (List.mem_of_find?_eq_some hpart)

/-- The search through a hierarchy ends at a registered file, if it starts from registered classes.
The induction is that of the search; parents are found by name, so they are registered too. -/
theorem searchMethod_registered (h : ix.Closed) {name p : String} (unseen : List ClassKey)
    (pending : List ClassEntry) (hpending : ∀ c ∈ pending, c.path ∈ ix.files)
    (hp : searchMethod ix name unseen pending = some p) : p ∈ ix.files := by
  induction unseen, pending using searchMethod.induct ix name with
  | case1 unseen => rw [searchMethod] at hp; cases hp
  | case2 unseen c rest hunseen path hown =>
    rw [searchMethod, dif_pos hunseen, hown] at hp
    rw [← Option.some.inj hp]
    exact ownMethod?_registered h (hpending c List.mem_cons_self) hown
  | case3 unseen c rest hunseen hown ih =>
    rw [searchMethod, dif_pos hunseen, hown] at hp
    refine ih ?_ hp
    intro c' hc'
    rcases List.mem_append.mp hc' with hc' | hc'
    · exact parentsOf_registered h hc'
    · exact hpending c' (List.mem_cons_of_mem c hc')
  | case4 unseen c rest hseen ih =>
    rw [searchMethod, dif_neg hseen] at hp
    exact ih (fun c' hc' => hpending c' (List.mem_cons_of_mem c hc')) hp

/-- A method that the class has or inherits. -/
theorem methodInChain?_registered (h : ix.Closed) {c : ClassEntry} (hc : c.path ∈ ix.files)
    {name p : String} (hp : methodInChain? ix c name = some p) : p ∈ ix.files :=
  searchMethod_registered h _ [c] (by simpa using hc) hp

/-- A method of the class, or the class in its place. -/
theorem memberOrClass_registered (h : ix.Closed) {c : ClassEntry} (hc : c.path ∈ ix.files)
    (name : String) : memberOrClass ix c name ∈ ix.files := by
  unfold memberOrClass
  cases hp : methodInChain? ix c name with
  | none => exact hc
  | some p => exact methodInChain?_registered h hc hp

/-! ## Verdicts

The steps before the last one give verdicts. A verdict is sound if the file it names, should it name
one, is registered. -/

/-- The file that a verdict names is registered. -/
def Verdict.Sound (ix : Index) (v : Verdict) : Prop :=
  ∀ p, v = .found p → p ∈ ix.files

namespace Verdict

theorem sound_found {p : String} (h : p ∈ ix.files) : (Verdict.found p).Sound ix := by
  rintro _ ⟨⟩
  exact h

theorem sound_outside : Verdict.outside.Sound ix := by
  rintro _ ⟨⟩

theorem sound_undecided : Verdict.undecided.Sound ix := by
  rintro _ ⟨⟩

/-- A file that may be found, with other steps after this one. -/
theorem sound_ofOption {o : Option String} (h : ∀ p, o = some p → p ∈ ix.files) :
    (ofOption o).Sound ix := by
  cases o with
  | none => exact sound_undecided
  | some p => exact sound_found (h p rfl)

/-- A file that may be found, with no other steps after this one. -/
theorem sound_orOutside {o : Option String} (h : ∀ p, o = some p → p ∈ ix.files) :
    (orOutside o).Sound ix := by
  cases o with
  | none => exact sound_outside
  | some p => exact sound_found (h p rfl)

end Verdict

/-! ## Through imports -/

/-- A target with a site of the function is registered, since the site is. -/
theorem freeFunctionIn?_registered (h : ix.Closed) {targets : List String} {name p : String}
    (hp : freeFunctionIn? ix targets name = some p) : p ∈ ix.files := by
  have hsite := List.find?_some hp
  obtain ⟨s, hs, hpath⟩ := List.any_eq_true.mp hsite
  rw [Bool.and_eq_true, beq_iff_eq] at hpath
  exact hpath.2 ▸ h.methodSites hs

/-- The target that declares a name, or the first one that is known. -/
theorem declaringTarget?_registered (h : ix.Closed) {i : Import} {name p : String}
    (hp : declaringTarget? ix i name = some p) : p ∈ ix.files := by
  unfold declaringTarget? at hp
  rcases Option.or_eq_some_iff.mp hp with hp | ⟨-, hp⟩
  · rcases Option.or_eq_some_iff.mp hp with hp | ⟨-, hp⟩
    · exact freeFunctionIn?_registered h hp
    · obtain ⟨c, hc, rfl⟩ := Option.map_eq_some_iff.mp hp
      exact classIn?_registered h hc
  · -- the first target that is registered
    exact List.contains_iff_mem.mp (List.find?_some hp)

/-- A member of a class among some targets, or the class. -/
theorem memberIn_registered (h : ix.Closed) {targets : List String} {className name p : String}
    (hp : (classIn? ix targets className).map (memberOrClass ix · name) = some p) :
    p ∈ ix.files := by
  obtain ⟨c, hc, rfl⟩ := Option.map_eq_some_iff.mp hp
  exact memberOrClass_registered h (classIn?_registered h hc) name

/-- Through what an import binds the receiver to. -/
theorem throughBinding_sound (h : ix.Closed) (i : Import) (b : ImportBinding)
    (receiver name : String) : (throughBinding ix i b receiver name).Sound ix := by
  unfold throughBinding
  split
  · exact Verdict.sound_outside
  -- further names behind a module, the module itself, or a symbol of it
  · split
    · exact Verdict.sound_ofOption fun p => memberIn_registered h
    · exact Verdict.sound_ofOption fun p => declaringTarget?_registered h
    · refine Verdict.sound_ofOption fun p hp => ?_
      rcases Option.or_eq_some_iff.mp hp with hp | ⟨-, hp⟩
      · exact memberIn_registered h hp
      · exact declaringTarget?_registered h hp

/-- Through a receiver that is bound by an import, or that is a qualified name. -/
theorem qualifiedReceiver_sound (h : ix.Closed) (scope : Scope) (receiver name : String) :
    (qualifiedReceiver ix scope receiver name).Sound ix := by
  unfold qualifiedReceiver
  split
  · exact throughBinding_sound h _ _ receiver name
  · split
    · refine Verdict.sound_ofOption fun p hp => ?_
      obtain ⟨c, hc, rfl⟩ := Option.map_eq_some_iff.mp hp
      exact memberOrClass_registered h (h.classQualified? hc) name
    · exact Verdict.sound_undecided

/-- A name that comes in unnamed. This is the one place where a target is given away unseen: for a
static import of a single member. -/
theorem throughUnnamed?_registered (h : ix.Closed) {name p : String} {i : Import}
    (hstatic : i.isStatic = true → ∀ t ∈ i.targets, t ∈ ix.files)
    (hp : throughUnnamed? ix name i = some p) : p ∈ ix.files := by
  unfold throughUnnamed? at hp
  split at hp
  next hi =>
    rcases Option.or_eq_some_iff.mp hp with hp | ⟨-, hp⟩
    · -- the single member itself
      split at hp
      · exact hstatic hi p (List.mem_of_head? hp)
      · cases hp
    · obtain ⟨c, hc, hp⟩ := Option.bind_eq_some_iff.mp hp
      exact methodInChain?_registered h (h.classQualified? hc) hp
  · split at hp
    · exact freeFunctionIn?_registered h hp
    · cases hp

/-- Through an import of the called name. -/
theorem importedName_sound (h : ix.Closed) {scope : Scope}
    (hstatic : StaticTargetsRegistered ix scope.imports) (name : String) :
    (importedName ix scope name).Sound ix := by
  unfold importedName
  split
  · split
    · exact Verdict.sound_outside
    · exact Verdict.sound_orOutside fun p => declaringTarget?_registered h
  · refine Verdict.sound_ofOption fun p hp => ?_
    obtain ⟨i, hi, hp⟩ := List.exists_of_findSome?_eq_some hp
    rw [List.mem_filter, beq_iff_eq] at hi
    exact throughUnnamed?_registered h (hstatic i hi.1 hi.2) hp

/-! ## Through the receiver -/

/-- Through a type name. -/
theorem onType_sound (h : ix.Closed) (scope : Scope) (typeName name : String) :
    (onType ix scope typeName name).Sound ix := by
  refine Verdict.sound_orOutside fun p hp => ?_
  obtain ⟨c, hc, hp⟩ := Option.bind_eq_some_iff.mp hp
  exact methodInChain?_registered h (findClass?_registered h hc) hp

/-- Through the type of the receiver. -/
theorem byReceiverType_sound (h : ix.Closed) (scope : Scope) (call : CallSite) :
    (byReceiverType ix scope call).Sound ix := by
  unfold byReceiverType
  split
  · exact Verdict.sound_undecided
  · split
    · -- the extractor has told the type
      split
      · exact onType_sound h scope _ _
      · exact Verdict.sound_undecided
    · split
      · -- the enclosing object or class
        split
        next c hc =>
          exact Verdict.sound_orOutside fun p =>
            methodInChain?_registered h (ownClass?_registered h hc)
        · exact Verdict.sound_undecided
      · split
        · -- the superclass
          split
          · exact onType_sound h scope _ _
          · exact Verdict.sound_outside
        · -- a member of the enclosing class
          split
          · exact onType_sound h scope _ _
          · exact Verdict.sound_undecided

/-- Through a receiver that is the name of a class. -/
theorem byReceiverClass_sound (h : ix.Closed) (scope : Scope) (call : CallSite) :
    (byReceiverClass ix scope call).Sound ix := by
  unfold byReceiverClass
  split
  · exact Verdict.sound_undecided
  · split
    · refine Verdict.sound_ofOption fun p hp => ?_
      obtain ⟨c, hc, rfl⟩ := Option.map_eq_some_iff.mp hp
      exact memberOrClass_registered h (findClass?_registered h hc) _
    · exact Verdict.sound_undecided

/-! ## By the bare name -/

/-- By the name alone, among all functions and classes. -/
theorem unscoped?_registered (h : ix.Closed) {scope : Scope} {call : CallSite} {p : String}
    (hp : unscoped? ix scope call = some p) : p ∈ ix.files := by
  -- the paths of sites are registered, whichever of them are asked for
  have hsites : ∀ q : MethodSite → Bool,
      ∀ p ∈ ((ix.methodSites call.name).filter q).map (·.path), p ∈ ix.files := by
    intro q p hp
    obtain ⟨s, hs, rfl⟩ := List.mem_map.mp hp
    exact h.methodSites (List.mem_filter.mp hs).1
  unfold unscoped? at hp
  simp only at hp
  split at hp
  · exact hsites _ p (mem_of_firstLeast? hp)
  · rcases Option.or_eq_some_iff.mp hp with hp | ⟨-, hp⟩
    · rcases Option.or_eq_some_iff.mp hp with hp | ⟨-, hp⟩
      · -- inherited by the enclosing class
        obtain ⟨c, hc, hp⟩ := Option.bind_eq_some_iff.mp hp
        exact methodInChain?_registered h (ownClass?_registered h hc) hp
      · exact hsites _ p (List.mem_filter.mp (mem_of_firstLeast? hp)).1
    · -- a class that the call constructs
      have hclass := (List.mem_filter.mp (mem_of_firstLeast? hp)).1
      obtain ⟨c, hc, rfl⟩ := List.mem_map.mp hclass
      exact h.classesNamed hc

/-! ## All steps -/

/-- **A resolved call points at a registered file.** -/
theorem resolveCall_registered (h : ix.Closed) {scope : Scope}
    (hstatic : StaticTargetsRegistered ix scope.imports) {call : CallSite} {p : String}
    (hp : resolveCall ix scope call = some p) : p ∈ ix.files := by
  have hqualified : (qualified ix scope call).Sound ix := by
    unfold qualified
    split
    · exact qualifiedReceiver_sound h scope _ _
    · exact importedName_sound h hstatic _
  unfold resolveCall at hp
  -- the steps are taken in turn until one of them decides
  split at hp
  next path hfound => exact Option.some.inj hp ▸ hqualified path hfound
  · cases hp
  · split at hp
    next path hfound => exact Option.some.inj hp ▸ byReceiverType_sound h scope call path hfound
    · cases hp
    · split at hp
      next path hfound => exact Option.some.inj hp ▸ byReceiverClass_sound h scope call path hfound
      · cases hp
      · exact unscoped?_registered h hp

end SourceAtlas.Resolve
