import SourceAtlas.Extract
import SourceAtlas.Proofs.Model.FirstSeen

/-!
# Extraction: functions and the method lists of classes agree

A function carries the name of its class, and a class lists the names of its methods. The two are
written in different places: a walker finds the class of a member by the declaration around it, Go
attaches a method by the name of its receiver type, and a trigger brings its own function. The
invariant `MembersAgree` says that they tell the same story:

* no class lists a name twice;
* a function with a class name has such a class, and the class lists it, constructors apart unless
  the language lists them too;
* what a class other than an interface lists is a function with the name of that class.

Three steps decide about it: a class comes in (`MembersAgree.addClass`), a function comes in
together with its class's list (`MembersAgree.addMember`), a function comes in alone
(`MembersAgree.addFunction`). Everything else leaves the names, kinds and lists alone
(`MembersAgree.congr`). All languages together are `extract_membersAgree`.

Only the struct and interface types of a Go file are classes. A method on any other type has a class
name and no class, even where the file declares the type.
-/

namespace SourceAtlas

/-- What of a class its members depend on. -/
def ClassDecl.outline (c : ClassDecl) : String × ClassKind × List String :=
  (c.name, c.kind, c.methods)

/-- What of a function its class depends on. -/
def FunctionDecl.outline (f : FunctionDecl) : String × FunctionKind × Option String :=
  (f.name, f.kind, f.className)

/-- Whether a class lists a function, where `constructors` says whether constructors are listed. -/
def FunctionDecl.IsListed (constructors : Bool) (f : FunctionDecl) : Prop :=
  f.kind ≠ .constructor ∨ constructors = true

/-- The functions and the method lists of the classes agree. A function needs its class where the
class name is `needed`. -/
structure Extraction.MembersAgree (needed : String → Prop) (constructors : Bool) (x : Extraction) :
    Prop where
  nodup : ∀ c ∈ x.classes, c.methods.Nodup
  owned : ∀ f ∈ x.functions, ∀ owner, f.className = some owner → needed owner →
    ∃ c ∈ x.classes, c.name = owner ∧ (f.IsListed constructors → f.name ∈ c.methods)
  declared : ∀ c ∈ x.classes, c.kind ≠ .interface → ∀ m ∈ c.methods,
    ∃ f ∈ x.functions, f.name = m ∧ f.className = some c.name

/-- A change of one item that a view does not show leaves the view of the list. -/
theorem map_modify_of_eq {α β : Type} (view : α → β) {g : α → α} (hg : ∀ a, view (g a) = view a)
    (items : List α) (i : Nat) : (items.modify i g).map view = items.map view := by
  refine List.ext_getElem? fun j => ?_
  rw [List.getElem?_map, List.getElem?_modify, List.getElem?_map]
  cases items[j]? with
  | none => rfl
  | some a => by_cases hij : i = j <;> simp [hij, hg a]

/-- A change of a class that lists a function with it. -/
structure Lists (constructors : Bool) (f : FunctionDecl) (g : ClassDecl → ClassDecl) : Prop where
  name : ∀ c, (g c).name = c.name
  kind : ∀ c, (g c).kind = c.kind
  methods : ∀ c, (g c).methods = addNew c.methods f.name
    ∨ (g c).methods = c.methods ∧ ¬ f.IsListed constructors

namespace Lists

variable {constructors : Bool} {f : FunctionDecl} {g : ClassDecl → ClassDecl}

/-- A list without repetitions stays so: a name that is there is not added again. -/
theorem nodup (h : Lists constructors f g) {c : ClassDecl} (hc : c.methods.Nodup) :
    (g c).methods.Nodup := by
  rcases h.methods c with heq | ⟨heq, -⟩
  · rw [heq]
    exact nodup_addNew hc f.name
  · rw [heq]
    exact hc

/-- Nothing is listed but what was, and the function. -/
theorem mem (h : Lists constructors f g) {c : ClassDecl} {m : String} (hm : m ∈ (g c).methods) :
    m ∈ c.methods ∨ m = f.name := by
  rcases h.methods c with heq | ⟨heq, -⟩
  · exact mem_addNew.mp (heq ▸ hm)
  · exact Or.inl (heq ▸ hm)

/-- What was listed stays listed. -/
theorem mem_of_mem (h : Lists constructors f g) {c : ClassDecl} {m : String} (hm : m ∈ c.methods) :
    m ∈ (g c).methods := by
  rcases h.methods c with heq | ⟨heq, -⟩
  · rw [heq]
    exact mem_addNew.mpr (Or.inl hm)
  · rw [heq]
    exact hm

/-- The function is listed, if functions of its kind are. -/
theorem mem_self (h : Lists constructors f g) (c : ClassDecl) (hf : f.IsListed constructors) :
    f.name ∈ (g c).methods := by
  rcases h.methods c with heq | ⟨-, hnot⟩
  · rw [heq]
    exact mem_addNew.mpr (Or.inr rfl)
  · exact absurd hf hnot

end Lists

namespace Extraction.MembersAgree

variable {needed : String → Prop} {constructors : Bool} {x y : Extraction}

/-- A file starts out with neither classes nor functions. -/
theorem start (path : String) : MembersAgree needed constructors { path } :=
  ⟨by simp, by simp, by simp⟩

/-- Only the outlines matter. -/
theorem congr (h : x.MembersAgree needed constructors)
    (hclasses : y.classes.map ClassDecl.outline = x.classes.map ClassDecl.outline)
    (hfunctions : y.functions.map FunctionDecl.outline = x.functions.map FunctionDecl.outline) :
    y.MembersAgree needed constructors := by
  -- both directions are needed: from the new class to the old, and back
  have hclass : ∀ {xs ys : List ClassDecl}
      (_ : ys.map ClassDecl.outline = xs.map ClassDecl.outline),
      ∀ c ∈ ys, ∃ d ∈ xs, d.name = c.name ∧ d.kind = c.kind ∧ d.methods = c.methods := by
    intro xs ys heq c hc
    obtain ⟨d, hd, hdc⟩ := List.mem_map.mp (heq ▸ List.mem_map_of_mem hc)
    obtain ⟨hname, hrest⟩ := Prod.mk.inj hdc
    exact ⟨d, hd, hname, Prod.mk.inj hrest⟩
  have hfunction : ∀ {xs ys : List FunctionDecl}
      (_ : ys.map FunctionDecl.outline = xs.map FunctionDecl.outline),
      ∀ f ∈ ys, ∃ k ∈ xs, k.name = f.name ∧ k.kind = f.kind ∧ k.className = f.className := by
    intro xs ys heq f hf
    obtain ⟨k, hk, hkf⟩ := List.mem_map.mp (heq ▸ List.mem_map_of_mem hf)
    obtain ⟨hname, hrest⟩ := Prod.mk.inj hkf
    exact ⟨k, hk, hname, Prod.mk.inj hrest⟩
  -- each part of the agreement, moved to the old lists and back again
  refine ⟨?_, ?_, ?_⟩
  · intro c hc
    obtain ⟨d, hd, -, -, hmethods⟩ := hclass hclasses c hc
    exact hmethods ▸ h.nodup d hd
  · intro f hf owner howner hneeded
    obtain ⟨k, hk, hname, hkind, hclassName⟩ := hfunction hfunctions f hf
    obtain ⟨d, hd, hd', hlisted⟩ := h.owned k hk owner (hclassName.trans howner) hneeded
    obtain ⟨c, hc, hcname, -, hcmethods⟩ := hclass hclasses.symm d hd
    refine ⟨c, hc, hcname.trans hd', fun hf => ?_⟩
    rw [hcmethods, ← hname]
    exact hlisted (by rwa [FunctionDecl.IsListed, hkind])
  · intro c hc hkind m hm
    obtain ⟨d, hd, hdname, hdkind, hdmethods⟩ := hclass hclasses c hc
    obtain ⟨k, hk, hkname, hkclass⟩ := h.declared d hd (hdkind ▸ hkind) m (hdmethods ▸ hm)
    obtain ⟨f, hf, hfname, -, hfclass⟩ := hfunction hfunctions.symm k hk
    exact ⟨f, hf, hfname.trans hkname, by rw [hfclass, hkclass, hdname]⟩

/-! ## Declarations that come in -/

/-- A new class lists nothing yet, unless it is an interface. -/
theorem addClass (h : x.MembersAgree needed constructors) {c : ClassDecl} (hnodup : c.methods.Nodup)
    (hempty : c.kind ≠ .interface → c.methods = []) :
    (x.addClass c).MembersAgree needed constructors := by
  refine ⟨?_, ?_, ?_⟩
  · intro d hd
    rcases List.mem_append.mp hd with hd | hd
    · exact h.nodup d hd
    · rw [List.mem_singleton.mp hd]
      exact hnodup
  · -- the class of a function stays where it is
    intro f hf owner howner hneeded
    obtain ⟨d, hd, hlisted⟩ := h.owned f hf owner howner hneeded
    exact ⟨d, List.mem_append_left _ hd, hlisted⟩
  · intro d hd hkind m hm
    rcases List.mem_append.mp hd with hd | hd
    · exact h.declared d hd hkind m hm
    · -- the new class lists nothing that would need a function
      rw [List.mem_singleton.mp hd] at hkind hm
      rw [hempty hkind] at hm
      cases hm

/-- A function that needs no class. -/
theorem addFunction (h : x.MembersAgree needed constructors) {f : FunctionDecl}
    (hf : ∀ owner, f.className = some owner → ¬ needed owner) :
    (x.addFunction f).MembersAgree needed constructors := by
  refine ⟨h.nodup, ?_, ?_⟩
  · intro k hk owner howner hneeded
    rcases List.mem_append.mp hk with hk | hk
    · exact h.owned k hk owner howner hneeded
    · rw [List.mem_singleton.mp hk] at howner
      exact absurd hneeded (hf owner howner)
  · intro c hc hkind m hm
    obtain ⟨k, hk, hname⟩ := h.declared c hc hkind m hm
    exact ⟨k, List.mem_append_left _ hk, hname⟩

/-- A function together with the list of its class. -/
theorem addMember (h : x.MembersAgree needed constructors) {slot : Nat} {c : ClassDecl}
    (hc : x.classes[slot]? = some c) {f : FunctionDecl} {g : ClassDecl → ClassDecl}
    (hg : Lists constructors f g) (hf : f.className = some c.name) :
    ((x.modifyClass slot g).addFunction f).MembersAgree needed constructors := by
  -- a class of the new list is one of the old list, or the class of the slot as changed
  have hback : ∀ d ∈ x.classes.modify slot g, d ∈ x.classes ∨ d = g c := by
    intro d hd
    obtain ⟨j, hj⟩ := List.mem_iff_getElem?.mp hd
    rw [List.getElem?_modify] at hj
    obtain ⟨e, he, rfl⟩ := Option.map_eq_some_iff.mp hj
    split
    next heq =>
      subst heq
      rw [hc] at he
      exact Or.inr (congrArg g (Option.some.inj he).symm)
    next => exact Or.inl (List.mem_of_getElem? he)
  -- and a class of the old list is still there, as it was or as changed
  have hforth : ∀ d ∈ x.classes, d ∈ x.classes.modify slot g ∨ g d ∈ x.classes.modify slot g := by
    intro d hd
    obtain ⟨j, hj⟩ := List.mem_iff_getElem?.mp hd
    have hmodified : (x.classes.modify slot g)[j]? = some (if slot = j then g d else d) := by
      rw [List.getElem?_modify, hj]
      rfl
    by_cases hslot : slot = j
    · rw [if_pos hslot] at hmodified
      exact Or.inr (List.mem_of_getElem? hmodified)
    · rw [if_neg hslot] at hmodified
      exact Or.inl (List.mem_of_getElem? hmodified)
  have hself : g c ∈ x.classes.modify slot g := by
    refine List.mem_of_getElem? (i := slot) ?_
    rw [List.getElem?_modify, hc]
    exact congrArg some (if_pos rfl)
  have hcmem : c ∈ x.classes := List.mem_of_getElem? hc
  refine ⟨?_, ?_, ?_⟩
  · intro d hd
    rcases hback d hd with hd | rfl
    · exact h.nodup d hd
    · exact hg.nodup (h.nodup c hcmem)
  · intro k hk owner howner hneeded
    rcases List.mem_append.mp hk with hk | hk
    · -- a function of before keeps its class, which may have been changed
      obtain ⟨d, hd, hname, hlisted⟩ := h.owned k hk owner howner hneeded
      rcases hforth d hd with hd | hd
      · exact ⟨d, hd, hname, hlisted⟩
      · exact ⟨g d, hd, (hg.name d).trans hname, fun hk => hg.mem_of_mem (hlisted hk)⟩
    · -- the new function has the class of the slot
      rw [List.mem_singleton.mp hk] at howner ⊢
      refine ⟨g c, hself, ?_, hg.mem_self c⟩
      rw [hg.name, Option.some.inj (hf.symm.trans howner)]
  · intro d hd hkind m hm
    rcases hback d hd with hd | rfl
    · obtain ⟨k, hk, hname⟩ := h.declared d hd hkind m hm
      exact ⟨k, List.mem_append_left _ hk, hname⟩
    · -- what the changed class lists was listed before, or is the new function
      rcases hg.mem hm with hm | rfl
      · obtain ⟨k, hk, hname, hclass⟩ := h.declared c hcmem (hg.kind c ▸ hkind) m hm
        exact ⟨k, List.mem_append_left _ hk, hname, by rw [hclass, hg.name]⟩
      · exact ⟨f, List.mem_append_right _ (List.mem_singleton_self f), rfl, by rw [hf, hg.name]⟩

/-! ## Steps that leave the outlines -/

/-- A change of what no outline shows, such as the properties of a class. -/
theorem modifyClass (h : x.MembersAgree needed constructors) (slot : Nat)
    {g : ClassDecl → ClassDecl} (hg : ∀ c, (g c).outline = c.outline) :
    (x.modifyClass slot g).MembersAgree needed constructors :=
  h.congr (map_modify_of_eq ClassDecl.outline hg x.classes slot) rfl

/-- Typing receivers changes calls, which no outline shows. -/
theorem typeMemberReceivers (h : x.MembersAgree needed constructors) (selfNames : List String)
    (implicit : Bool) :
    (x.typeMemberReceivers selfNames implicit).MembersAgree needed constructors := by
  refine h.congr rfl ?_
  unfold Extraction.typeMemberReceivers
  rw [List.map_map]
  refine List.map_congr_left fun f _ => ?_
  simp only [Function.comp_apply]
  split
  next heq => simp [FunctionDecl.outline, heq]
  next => rfl

end Extraction.MembersAgree

namespace Extract

variable {needed : String → Prop} {constructors : Bool}

/-! ## Steps of a walk

The class of a member is the one in the slot of the declaration around it, and its name is the class
name of the function. -/

/-- Where a constructor changes nothing that is listed, and all else is listed by its name. -/
theorem lists_of_kind {f : FunctionDecl} {g k : ClassDecl → ClassDecl}
    (hk : ∀ c, (k c).outline = c.outline)
    (hg : ∀ c, g c = if f.kind == .constructor then k c else c.addMethod f.name) :
    Lists false f g := by
  by_cases hkind : f.kind = .constructor
  · -- a constructor is not listed, so nothing has to change
    have hsame : ∀ c, (g c).outline = c.outline := by
      intro c
      rw [hg, if_pos (by simp [hkind]), hk]
    have hnot : ¬ f.IsListed false := by simp [FunctionDecl.IsListed, hkind]
    exact ⟨fun c => congrArg (·.1) (hsame c), fun c => congrArg (·.2.1) (hsame c),
      fun c => Or.inr ⟨congrArg (·.2.2) (hsame c), hnot⟩⟩
  · have hlisted : ∀ c, (g c).outline = (c.name, c.kind, addNew c.methods f.name) := by
      intro c
      rw [hg, if_neg (by simp [hkind])]
      rfl
    exact ⟨fun c => congrArg (·.1) (hlisted c), fun c => congrArg (·.2.1) (hlisted c),
      fun c => Or.inl (congrArg (·.2.2) (hlisted c))⟩

/-- The languages that list functions alike: a constructor gives its parameters instead. -/
theorem lists_listFunction (f : FunctionDecl) : Lists false f (listFunction · f) := by
  refine lists_of_kind (k := fun c =>
    if c.constructorParams.isEmpty then { c with constructorParams := f.params } else c)
    (fun c => ?_) (fun c => rfl)
  split <;> rfl

namespace Progress

variable {p : Progress}

/-- A function comes in with the class of a slot, or without a class if the slot has none. -/
theorem membersAgree_addMember (h : p.result.MembersAgree needed constructors) {slot : Option Nat}
    {f : FunctionDecl} {g : ClassDecl → ClassDecl} (hg : Lists constructors f g)
    (hf : f.className = (p.classIn? slot).map (·.name)) :
    ((p.modifySlot slot g).change (·.addFunction f)).result.MembersAgree needed constructors := by
  cases slot with
  | none => exact h.addFunction fun owner howner => by cases hf.symm.trans howner
  | some slot =>
    cases hc : p.result.classes[slot]? with
    | some c =>
      rw [classIn?, Option.bind_some, hc] at hf
      exact h.addMember hc hg hf
    | none =>
      -- there is no class, so the change does nothing and the function has no class name
      rw [classIn?, Option.bind_some, hc] at hf
      have hsame : p.result.modifyClass slot g = p.result := by
        unfold Extraction.modifyClass
        rw [List.modify_eq_self (List.getElem?_eq_none_iff.mp hc)]
      show ((p.result.modifyClass slot g).addFunction f).MembersAgree needed constructors
      rw [hsame]
      exact h.addFunction fun owner howner => by cases hf.symm.trans howner

/-- A function comes in, if the place declares one. -/
theorem membersAgree_addFunction? (h : p.result.MembersAgree needed false) {slot : Option Nat}
    {f : Option FunctionDecl}
    (hf : ∀ k, f = some k → k.className = (p.classIn? slot).map (·.name)) :
    (f.elim p (p.addFunction slot)).result.MembersAgree needed false := by
  cases f with
  | none => exact h
  | some k => exact membersAgree_addMember h (lists_listFunction k) (hf k rfl)

/-- A class comes in, if the place declares one. -/
theorem membersAgree_addClass? (h : p.result.MembersAgree needed constructors) (place : Cursor)
    {c : Option ClassDecl}
    (hc : ∀ d, c = some d → d.methods.Nodup ∧ (d.kind ≠ .interface → d.methods = [])) :
    (c.elim p (p.addClass place)).result.MembersAgree needed constructors := by
  cases c with
  | none => exact h
  | some d => exact h.addClass (hc d rfl).1 (hc d rfl).2

/-- Properties do not matter. -/
theorem membersAgree_addProperties (h : p.result.MembersAgree needed constructors)
    (slot : Option Nat) (properties : List Property) :
    (p.addProperties slot properties).result.MembersAgree needed constructors := by
  cases slot with
  | none => exact h
  | some slot => exact h.modifyClass slot fun _ => rfl

/-- Nor do imports. -/
theorem membersAgree_addImport? (h : p.result.MembersAgree needed constructors)
    (i : Option Import) :
    (i.elim p fun j => p.change (·.addImport j)).result.MembersAgree needed constructors := by
  cases i with
  | none => exact h
  | some j => exact h.congr rfl rfl

end Progress

/-! ## Java and Apex -/

namespace Java

/-- A method has the class name that it is read with. -/
theorem className_of_methodOf? {r : Reading} {className : Option String} {place : Cursor}
    {f : FunctionDecl} (h : methodOf? r className place = some f) : f.className = className := by
  unfold methodOf? at h
  obtain ⟨name, -, h⟩ := Option.bind_eq_some_iff.mp h
  rw [← Option.some.inj h]

/-- A class is read without its methods, which come in one by one. -/
theorem methods_of_classOf? {r : Reading} {package : Option String} {place : Cursor} {c : ClassDecl}
    (h : classOf? r package place = some c) : c.methods = [] := by
  unfold classOf? at h
  obtain ⟨name, -, h⟩ := Option.bind_eq_some_iff.mp h
  rw [← Option.some.inj h]

/-- What one place declares comes in by one of the steps above. -/
theorem membersAgree_visit {r : Reading} {p : Progress} (h : p.result.MembersAgree needed false)
    (place : Cursor) : (visit r p place).result.MembersAgree needed false := by
  unfold visit
  simp only
  split
  · exact h.congr rfl rfl
  · exact Progress.membersAgree_addImport? h _
  · exact Progress.membersAgree_addProperties h _ _
  · exact Progress.membersAgree_addProperties h _ _
  · exact Progress.membersAgree_addFunction? h fun _ => className_of_methodOf?
  · exact Progress.membersAgree_addFunction? h fun _ => className_of_methodOf?
  · exact Progress.membersAgree_addFunction? h fun _ => className_of_methodOf?
  · split
    · refine Progress.membersAgree_addClass? h place fun c hc => ?_
      rw [methods_of_classOf? hc]
      exact ⟨List.nodup_nil, fun _ => rfl⟩
    · exact h

/-- The walk of a tree, on top of what is already known of the file. -/
theorem membersAgree_extend {x : Extraction} (h : x.MembersAgree needed false) (r : Reading)
    (tree : Tree) : (extend r x tree).MembersAgree needed false := by
  unfold extend
  apply Extraction.MembersAgree.typeMemberReceivers
  refine List.foldlRecOn _ _ (motive := fun p : Progress => p.result.MembersAgree needed false) h ?_
  exact fun p hp place _ => membersAgree_visit hp place

end Java

namespace Apex

/-- A trigger is a class that lists its one function. -/
theorem membersAgree_addTrigger (written masked : SourceText) (tree : Tree) (h : TriggerHeader)
    (path : String) : (addTrigger written masked tree h { path }).MembersAgree needed false := by
  unfold addTrigger
  refine ⟨?_, ?_, ?_⟩
  · intro c hc
    rw [List.mem_singleton.mp hc]
    exact List.nodup_singleton h.name
  · intro f hf owner howner _
    rw [List.mem_singleton.mp hf] at howner ⊢
    exact ⟨_, List.mem_singleton_self _, Option.some.inj howner, fun _ => List.mem_singleton_self _⟩
  · intro c hc _ m hm
    rw [List.mem_singleton.mp hc] at hm ⊢
    exact ⟨_, List.mem_singleton_self _, (List.mem_singleton.mp hm).symm, rfl⟩

theorem membersAgree_extract (path : String) (s : SourceText) (tree : Tree) :
    (extract path s tree).MembersAgree needed false := by
  unfold extract
  simp only
  apply Java.membersAgree_extend
  cases (mask s.text).2 with
  | none => exact .start path
  | some h => exact membersAgree_addTrigger s _ tree h path

end Apex

/-! ## C# -/

namespace CSharp

/-- A method has the name of the class around it. -/
theorem className_of_methodOf? {s : SourceText} {owner : Option ClassDecl} {place : Cursor}
    {f : FunctionDecl} (h : methodOf? s owner place = some f) :
    f.className = owner.map (·.name) := by
  unfold methodOf? at h
  obtain ⟨name, -, h⟩ := Option.bind_eq_some_iff.mp h
  rw [← Option.some.inj h]

theorem methods_of_classOf? {s : SourceText} {fileNamespace : Option String} {place : Cursor}
    {c : ClassDecl} (h : classOf? s fileNamespace place = some c) : c.methods = [] := by
  unfold classOf? at h
  obtain ⟨name, -, h⟩ := Option.bind_eq_some_iff.mp h
  rw [← Option.some.inj h]

theorem membersAgree_visit {s : SourceText} {st : Progress × Option String}
    (h : st.1.result.MembersAgree needed false) (place : Cursor) :
    (visit s st place).1.result.MembersAgree needed false := by
  obtain ⟨p, fileNamespace⟩ := st
  unfold visit
  simp only
  split
  · dsimp only
    exact Progress.membersAgree_addImport? h _
  -- the two forms of a namespace
  · exact h.congr rfl rfl
  · exact h.congr rfl rfl
  -- fields, properties and events
  · exact Progress.membersAgree_addProperties h _ _
  · exact Progress.membersAgree_addProperties h _ _
  · exact Progress.membersAgree_addProperties h _ _
  · exact Progress.membersAgree_addFunction? h fun _ => className_of_methodOf?
  · exact Progress.membersAgree_addFunction? h fun _ => className_of_methodOf?
  · split
    · refine Progress.membersAgree_addClass? h place fun c hc => ?_
      rw [methods_of_classOf? hc]
      exact ⟨List.nodup_nil, fun _ => rfl⟩
    · exact h

theorem membersAgree_extract (path : String) (s : SourceText) (tree : Tree) :
    (extract path s tree).MembersAgree needed false := by
  unfold extract
  simp only
  have hwalk : (List.foldl (visit s) ({ result := { path } }, none)
      ((Cursor.root tree).preorder fun c => bodyKinds.contains c.kind)).1.result.MembersAgree
        needed false := by
    refine List.foldlRecOn _ _
      (motive := fun st : Progress × Option String => st.1.result.MembersAgree needed false)
      (.start path) ?_
    exact fun st hst place _ => membersAgree_visit hst place
  exact hwalk.typeMemberReceivers ["this"] true

end CSharp

/-! ## Python

A class lists its constructor too. -/

namespace Python

/-- Bases are no methods. -/
theorem methods_foldl_addBase (s : SourceText) (bases : List Tree) (c : ClassDecl) :
    (bases.foldl (addBase s) c).methods = c.methods := by
  refine List.foldlRecOn bases (addBase s) (motive := fun d => d.methods = c.methods) rfl ?_
  intro d hd base _
  rw [← hd]
  -- a name is a marker, a superclass or an interface; a keyword only a marker
  have hname : ∀ name : String, (if lastSegment name == "ABC" then d.addModifier .abstract
      else if d.superclass.isNone then { d with superclass := some name }
      else { d with interfaces := d.interfaces ++ [name] }).methods = d.methods := by
    intro name
    split
    · rfl
    · split <;> rfl
  unfold addBase
  split
  · exact hname _
  · exact hname _
  · split <;> rfl
  · rfl

theorem methods_of_classOf? {s : SourceText} {place : Cursor} {c : ClassDecl}
    (h : classOf? s place = some c) : c.methods = [] := by
  unfold classOf? at h
  obtain ⟨name, -, h⟩ := Option.bind_eq_some_iff.mp h
  rw [← Option.some.inj h, methods_foldl_addBase]

/-- Whatever a definition is, the class lists it by its name. -/
theorem lists_listDefinition (d : Definition) : Lists true d.function (listDefinition d) := by
  have hfields : ∀ c, (listDefinition d c).name = c.name ∧ (listDefinition d c).kind = c.kind
      ∧ (listDefinition d c).methods = addNew c.methods d.function.name := by
    intro c
    unfold listDefinition
    simp only
    split <;> split <;> exact ⟨rfl, rfl, rfl⟩
  exact ⟨fun c => (hfields c).1, fun c => (hfields c).2.1, fun c => Or.inl (hfields c).2.2⟩

theorem membersAgree_visit {s : SourceText} {p : Progress} (h : p.result.MembersAgree needed true)
    (place : Cursor) : (visit s p place).result.MembersAgree needed true := by
  unfold visit
  simp only
  split
  · refine List.foldlRecOn _ _
      (motive := fun p : Progress => p.result.MembersAgree needed true) h ?_
    exact fun p hp i _ => hp.congr rfl rfl
  · exact Progress.membersAgree_addImport? h _
  · refine Progress.membersAgree_addClass? h place fun c hc => ?_
    rw [methods_of_classOf? hc]
    exact ⟨List.nodup_nil, fun _ => rfl⟩
  · exact Progress.membersAgree_addMember h (lists_listDefinition _) rfl
  · exact h

theorem membersAgree_extract (path : String) (s : SourceText) (tree : Tree) :
    (extract path s tree).MembersAgree needed true := by
  unfold extract
  apply Extraction.MembersAgree.typeMemberReceivers
  refine List.foldlRecOn _ _ (motive := fun p : Progress => p.result.MembersAgree needed true)
    (.start path) ?_
  exact fun p hp place _ => membersAgree_visit hp place

end Python

/-! ## TypeScript -/

namespace TypeScript

/-- An interface lists no signature twice. -/
theorem nodup_foldl_addSignature (s : SourceText) (members : List Tree) {c : ClassDecl}
    (hc : c.methods.Nodup) : (members.foldl (addSignature s) c).methods.Nodup := by
  refine List.foldlRecOn members (addSignature s) (motive := fun d => d.methods.Nodup) hc ?_
  intro d hd member _
  unfold addSignature
  split
  · exact nodup_addNew hd _
  · exact hd
  · exact hd

/-- Signatures do not change the kind of their class. -/
theorem kind_foldl_addSignature (s : SourceText) (members : List Tree) (c : ClassDecl) :
    (members.foldl (addSignature s) c).kind = c.kind := by
  refine List.foldlRecOn members (addSignature s) (motive := fun d => d.kind = c.kind) rfl ?_
  intro d hd member _
  unfold addSignature
  split <;> exact hd

/-- A new class lists what an interface declares, or nothing. -/
theorem methods_of_classOf? {s : SourceText} {place : Cursor} {c : ClassDecl}
    (h : classOf? s place = some c) :
    c.methods.Nodup ∧ (c.kind ≠ .interface → c.methods = []) := by
  unfold classOf? at h
  obtain ⟨name, -, h⟩ := Option.bind_eq_some_iff.mp h
  dsimp only at h
  split at h
  · rw [if_pos (by decide)] at h
    rw [← Option.some.inj h]
    refine ⟨nodup_foldl_addSignature s _ List.nodup_nil, fun hnot => ?_⟩
    exact absurd (kind_foldl_addSignature s _ _) hnot
  · rw [if_neg (by decide)] at h
    rw [← Option.some.inj h]
    exact ⟨List.nodup_nil, fun _ => rfl⟩
  · rw [if_neg (by decide)] at h
    rw [← Option.some.inj h]
    exact ⟨List.nodup_nil, fun _ => rfl⟩

/-- A field is a property, or a method if a function is assigned to it. -/
theorem membersAgree_addField {s : SourceText} {p : Progress}
    (h : p.result.MembersAgree needed false) {slot : Nat} {c : ClassDecl}
    (hc : p.result.classes[slot]? = some c) (node : Tree) :
    (addField s p slot c.name node).result.MembersAgree needed false := by
  unfold addField
  split
  · split
    · exact h
    · exact h.addMember hc ⟨fun _ => rfl, fun _ => rfl, fun _ => Or.inl rfl⟩ rfl
  · exact h.modifyClass slot fun _ => rfl

/-- A constructor brings parameters and properties along, any other method its name. -/
theorem membersAgree_addMethod {p : Progress} (h : p.result.MembersAgree needed false) {slot : Nat}
    {c : ClassDecl} (hc : p.result.classes[slot]? = some c) {f : FunctionDecl}
    (hf : f.className = some c.name) (properties : List Property) :
    (addMethod p slot f properties).result.MembersAgree needed false := by
  refine h.addMember hc (lists_of_kind (k := fun c =>
    { c with constructorParams := f.params, properties := c.properties ++ properties })
    (fun _ => rfl) fun _ => rfl) hf

theorem className_of_methodOf? {s : SourceText} {className : String} {node : Tree}
    {m : FunctionDecl × List Property} (h : methodOf? s className node = some m) :
    m.1.className = some className := by
  unfold methodOf? at h
  obtain ⟨nameNode, -, h⟩ := Option.bind_eq_some_iff.mp h
  rw [← Option.some.inj h]

/-- The owner of a member is a class that was read, under its name. -/
theorem owner_cases (p : Progress) (slot : Option Nat) {owner : Option (Nat × String)}
    (h : (slot.bind fun slot => (p.classIn? (some slot)).map fun c => (slot, c.name)) = owner) :
    owner = none ∨ ∃ i c, p.result.classes[i]? = some c ∧ owner = some (i, c.name) := by
  subst h
  cases slot with
  | none => exact Or.inl rfl
  | some i =>
    cases hc : p.result.classes[i]? with
    | none => exact Or.inl (by simp [Progress.classIn?, hc])
    | some c => exact Or.inr ⟨i, c, hc, by simp [Progress.classIn?, hc]⟩

theorem membersAgree_visit {s : SourceText} {p : Progress} (h : p.result.MembersAgree needed false)
    (place : Cursor) : (visit s p place).result.MembersAgree needed false := by
  -- functions outside classes
  have hfree : ∀ {f : FunctionDecl}, f.className = none →
      (p.change (·.addFunction f)).result.MembersAgree needed false := by
    intro f hf
    exact h.addFunction fun owner howner => by cases hf.symm.trans howner
  unfold visit
  simp only
  generalize howner : (p.slotAt? (ownerOf? place)).bind _ = owner
  -- members come with the owner that `owner_cases` speaks of
  have hfield : ∀ node, (owner.elim p fun o => addField s p o.1 o.2 node).result.MembersAgree
      needed false := by
    intro node
    rcases owner_cases p _ howner with rfl | ⟨i, c, hc, rfl⟩
    · exact h
    · exact membersAgree_addField h hc node
  have hmethod : ∀ node, (owner.elim p fun o => (methodOf? s o.2 node).elim p fun m =>
      addMethod p o.1 m.1 m.2).result.MembersAgree needed false := by
    intro node
    rcases owner_cases p _ howner with rfl | ⟨i, c, hc, rfl⟩
    · exact h
    · simp only [Option.elim_some]
      cases hm : methodOf? s c.name node with
      | none => exact h
      | some m => exact membersAgree_addMethod h hc (className_of_methodOf? hm) m.2
  split
  · exact Progress.membersAgree_addImport? h _
  · split
    · exact h.congr rfl rfl
    · exact h
  · exact hfield _
  · exact hfield _
  · cases owner with
    | none => exact h
    | some o => exact hmethod _
  · cases owner with
    | none => exact h
    | some o => exact hmethod _
  · split
    · exact h
    · exact hfree rfl
  · split
    · exact h
    · exact hfree rfl
  · split
    · exact hfree rfl
    · exact h
  · split
    · exact Progress.membersAgree_addClass? h place fun c => methods_of_classOf?
    · exact h

/-- To publish a name changes visibilities only. -/
theorem membersAgree_publish {x : Extraction} (h : x.MembersAgree needed constructors)
    (names : List String) : (publish names x).MembersAgree needed constructors := by
  unfold publish
  refine h.congr ?_ ?_
  · rw [List.map_map]
    refine List.map_congr_left fun c _ => ?_
    simp only [Function.comp_apply]
    split <;> rfl
  · rw [List.map_map]
    refine List.map_congr_left fun f _ => ?_
    simp only [Function.comp_apply]
    split <;> rfl

theorem membersAgree_extract (path : String) (s : SourceText) (tree : Tree) :
    (extract path s tree).MembersAgree needed false := by
  unfold extract
  apply Extraction.MembersAgree.typeMemberReceivers
  have hwalk : (List.foldl (visit s) { result := { path } }
      ((Cursor.root tree).preorder fun c => bodyKinds.contains c.kind)).result.MembersAgree
        needed false := by
    refine List.foldlRecOn _ _ (motive := fun p : Progress => p.result.MembersAgree needed false)
      (.start path) ?_
    exact fun p hp place _ => membersAgree_visit hp place
  exact (membersAgree_publish hwalk _).congr rfl rfl

end TypeScript

/-! ## Go

The methods come after all types, each looking for its class by name. -/

namespace Go

/-- The names that a type specification gives to a class. -/
def SpecifiesClass (s : SourceText) (spec : Tree) (name : String) : Prop :=
  spec.kind = "type_spec" ∧ s.field? spec "name" = some name
    ∧ ∃ type, spec.child? "type" = some type
      ∧ (type.kind = "struct_type" ∨ type.kind = "interface_type")

/-- Some specification at package level gives the name to a class. -/
def DeclaresClass (s : SourceText) (tree : Tree) (name : String) : Prop :=
  ∃ spec ∈ tree.nodesOutside ["block"], SpecifiesClass s spec name

/-- The fields of a struct do not show in its outline. -/
theorem outline_foldl_addField (s : SourceText) (fields : List Tree) (c : ClassDecl) :
    (fields.foldl (addField s) c).outline = c.outline := by
  refine List.foldlRecOn fields (addField s) (motive := fun d => d.outline = c.outline) rfl ?_
  exact fun d hd field _ => hd

/-- An interface lists the names that it declares. -/
theorem outline_foldl_addMethod (names : List String) (c : ClassDecl) :
    (names.foldl .addMethod c).outline = (c.name, c.kind, names.foldl addNew c.methods) := by
  induction names generalizing c with
  | nil => rfl
  | cons name names ih => exact ih (c.addMethod name)

/-- A specification gives a class under its name, or there is none to give. -/
theorem classOf?_cases (s : SourceText) (package : Option String) {spec : Tree}
    (hspec : spec.kind = "type_spec") :
    (∃ c, classOf? s package spec = some c ∧ c.methods.Nodup
      ∧ (c.kind ≠ .interface → c.methods = []) ∧ ∀ name, SpecifiesClass s spec name ↔ c.name = name)
    ∨ classOf? s package spec = none ∧ ∀ name, ¬ SpecifiesClass s spec name := by
  unfold classOf?
  cases hname : s.field? spec "name" with
  | none => exact Or.inr ⟨rfl, fun name h => by cases hname.symm.trans h.2.1⟩
  | some given =>
    cases htype : spec.child? "type" with
    | none => exact Or.inr ⟨rfl, fun name ⟨_, _, type, h, _⟩ => by cases htype.symm.trans h⟩
    | some type =>
      -- a specification with a name and a class type names just that class
      have hiff : type.kind = "struct_type" ∨ type.kind = "interface_type" →
          ∀ name, SpecifiesClass s spec name ↔ given = name := by
        intro hkind name
        refine ⟨fun h => Option.some.inj (hname.symm.trans h.2.1), fun h => ?_⟩
        exact ⟨hspec, h ▸ hname, type, htype, hkind⟩
      dsimp only [Option.bind_eq_bind, Option.bind_some]
      split
      next hkind =>
        refine Or.inl ⟨_, rfl, ?_⟩
        generalize hc : List.foldl (addField s) _ _ = c
        have hout := hc ▸ outline_foldl_addField s _ _
        obtain ⟨hname, hrest⟩ := Prod.mk.inj hout
        obtain ⟨-, hmethods⟩ := Prod.mk.inj hrest
        rw [hmethods, hname]
        exact ⟨List.nodup_nil, fun _ => rfl, hiff (Or.inl hkind)⟩
      next hkind =>
        refine Or.inl ⟨_, rfl, ?_⟩
        generalize hc : List.foldl ClassDecl.addMethod _ _ = c
        have hout := hc ▸ outline_foldl_addMethod _ _
        obtain ⟨hname, hrest⟩ := Prod.mk.inj hout
        obtain ⟨hkind', hmethods⟩ := Prod.mk.inj hrest
        rw [hmethods, hname]
        exact ⟨nodup_foldl_addNew List.nodup_nil _, fun hnot => absurd hkind' hnot,
          hiff (Or.inr hkind)⟩
      -- a type of any other kind is no class
      next hstruct hinterface =>
        refine Or.inr ⟨rfl, ?_⟩
        rintro name ⟨-, -, type', htype', hkind⟩
        rw [Option.some.inj (htype.symm.trans htype')] at hstruct hinterface
        exact hkind.elim hstruct hinterface

/-- A declaration brings in a class, or nothing that matters. -/
theorem membersAgree_addDeclaration {s : SourceText} {x : Extraction}
    (h : x.MembersAgree needed false) (node : Tree) :
    (addDeclaration s x node).MembersAgree needed false := by
  unfold addDeclaration
  split
  · exact h.congr rfl rfl
  · cases importOf? s node with
    | none => exact h
    | some i => exact h.congr rfl rfl
  next hkind =>
    rcases classOf?_cases s x.namespaceName hkind with ⟨c, hc, hnodup, hempty, -⟩ | ⟨hc, -⟩
    · rw [hc]
      exact h.addClass hnodup hempty
    · rw [hc]
      exact h
  · exact h

/-- The class names after one more declaration. -/
theorem mem_names_addDeclaration {s : SourceText} {x : Extraction} {node : Tree} {name : String} :
    name ∈ (addDeclaration s x node).classes.map (·.name)
      ↔ name ∈ x.classes.map (·.name) ∨ SpecifiesClass s node name := by
  -- only a type specification changes anything
  have hother : node.kind ≠ "type_spec" → (name ∈ x.classes.map (·.name)
      ↔ name ∈ x.classes.map (·.name) ∨ SpecifiesClass s node name) :=
    fun hkind => ⟨Or.inl, fun h => h.resolve_right fun hspec => hkind hspec.1⟩
  unfold addDeclaration
  split
  next hkind => exact hother (by simp [hkind])
  next hkind =>
    cases importOf? s node with
    | none => exact hother (by simp [hkind])
    | some i => exact hother (by simp [hkind])
  next hkind =>
    rcases classOf?_cases s x.namespaceName hkind with ⟨c, hc, -, -, hname⟩ | ⟨hc, hnone⟩
    · rw [hc, hname]
      simp [Extraction.addClass, eq_comm]
    · rw [hc]
      simp [hnone]
  next hkind => exact hother hkind

/-- The classes of a file are those that its specifications name. -/
theorem mem_names_foldl_addDeclaration {s : SourceText} {nodes : List Tree} {x : Extraction}
    {name : String} :
    name ∈ (nodes.foldl (addDeclaration s) x).classes.map (·.name)
      ↔ name ∈ x.classes.map (·.name) ∨ ∃ spec ∈ nodes, SpecifiesClass s spec name := by
  induction nodes generalizing x with
  | nil => simp
  | cons node nodes ih => simp [ih, mem_names_addDeclaration, or_assoc]

/-- A function brings in no class. -/
theorem names_addFunction (x : Extraction) (f : FunctionDecl) :
    (addFunction x f).classes.map (·.name) = x.classes.map (·.name) := by
  unfold addFunction
  cases f.className with
  | none => rfl
  | some owner =>
    show ((x.modifyNamed owner (·.addMethod f.name)).classes.map (·.name)) = _
    unfold Extraction.modifyNamed
    split
    next slot _ =>
      exact map_modify_of_eq ClassDecl.name (g := (·.addMethod f.name)) (fun _ => rfl) _ slot
    next => rfl

/-- A method goes to the first class with the name of its receiver, if there is one. -/
theorem membersAgree_addFunction {x : Extraction} {f : FunctionDecl}
    (h : x.MembersAgree needed false)
    (hneeded : ∀ name, needed name → name ∈ x.classes.map (·.name)) :
    (addFunction x f).MembersAgree needed false := by
  unfold addFunction
  cases hf : f.className with
  | none => exact h.addFunction fun owner howner => by cases hf.symm.trans howner
  | some owner =>
    simp only [Option.elim_some]
    unfold Extraction.modifyNamed
    split
    next slot hslot =>
      obtain ⟨hlt, hname, -⟩ := List.findIdx?_eq_some_iff_getElem.mp hslot
      refine h.addMember (List.getElem?_eq_getElem hlt)
        ⟨fun _ => rfl, fun _ => rfl, fun _ => Or.inl rfl⟩ ?_
      rw [hf, eq_of_beq hname]
    next hnone =>
      -- no class has that name, so the function needs none
      refine h.addFunction fun owner' howner' hneeded' => ?_
      obtain ⟨c, hc, hname⟩ := List.mem_map.mp (hneeded owner' hneeded')
      have hnot := List.findIdx?_eq_none_iff.mp hnone c hc
      rw [← Option.some.inj (howner'.symm.trans hf), hname] at hnot
      simp at hnot

/-- The class names of a file, and the agreement about them. -/
theorem extract_classes (path : String) (s : SourceText) (tree : Tree) :
    (extract path s tree).MembersAgree (DeclaresClass s tree) false
      ∧ ∀ name, name ∈ (extract path s tree).classes.map (·.name) ↔ DeclaresClass s tree name := by
  unfold extract
  simp only
  generalize hx : List.foldl (addDeclaration s) { path } (tree.nodesOutside ["block"]) = x
  have hagree : x.MembersAgree (DeclaresClass s tree) false := by
    rw [← hx]
    refine List.foldlRecOn _ _ (motive := Extraction.MembersAgree (DeclaresClass s tree) false)
      (.start path) ?_
    exact fun y hy node _ => membersAgree_addDeclaration hy node
  have hnames : ∀ name, name ∈ x.classes.map (·.name) ↔ DeclaresClass s tree name := by
    intro name
    rw [← hx, mem_names_foldl_addDeclaration]
    simp [DeclaresClass]
  generalize List.filterMap (functionOf? s) _ = functions
  -- the class names are complete before the first function comes in
  have hwalk : (functions.foldl addFunction x).MembersAgree (DeclaresClass s tree) false
      ∧ (functions.foldl addFunction x).classes.map (·.name) = x.classes.map (·.name) := by
    refine List.foldlRecOn functions addFunction
      (motive := fun y => y.MembersAgree (DeclaresClass s tree) false
        ∧ y.classes.map (·.name) = x.classes.map (·.name)) ⟨hagree, rfl⟩ ?_
    intro y hy f _
    refine ⟨membersAgree_addFunction hy.1 fun name h => ?_, (names_addFunction y f).trans hy.2⟩
    rw [hy.2]
    exact (hnames name).mpr h
  refine ⟨hwalk.1.typeMemberReceivers _ _, fun name => ?_⟩
  rw [← hnames, ← hwalk.2]
  rfl

end Go

end Extract

/-! ## All languages -/

/-- Whether the classes of a language list their constructors. -/
def Language.listsConstructors : Language → Bool
  | .python => true
  | .go | .java | .typescript | .csharp | .apex => false

/-- The class names that a function needs a class for: in Go, those of declared classes. -/
def NeedsClass (l : Language) (text : String) (tree : Tree) (name : String) : Prop :=
  l = .go → Extract.Go.DeclaresClass (.ofString text) tree name

/-- The agreement in every language. -/
theorem extract_membersAgree {l : Language} {path text : String} {tree : Tree} {x : Extraction}
    (h : extract l path text tree = .ok x) :
    x.MembersAgree (NeedsClass l text tree) l.listsConstructors := by
  unfold extract at h
  split at h
  · cases h
  · rw [← Except.ok.inj h]
    cases l with
    | go =>
      have hagree := (Extract.Go.extract_classes path (.ofString text) tree).1
      -- outside Go the condition is void, so only here it has to be met
      refine ⟨hagree.nodup, fun f hf owner howner hneeded => ?_, hagree.declared⟩
      exact hagree.owned f hf owner howner (hneeded rfl)
    | java => exact Extract.Java.membersAgree_extend (.start path) _ tree
    | python => exact Extract.Python.membersAgree_extract path _ tree
    | typescript => exact Extract.TypeScript.membersAgree_extract path _ tree
    | csharp => exact Extract.CSharp.membersAgree_extract path _ tree
    | apex => exact Extract.Apex.membersAgree_extract path _ tree

/-- A class of a Go file is declared in it. -/
theorem declaresClass_of_mem {path text : String} {tree : Tree} {x : Extraction}
    (h : extract .go path text tree = .ok x) {c : ClassDecl} (hc : c ∈ x.classes) :
    Extract.Go.DeclaresClass (.ofString text) tree c.name := by
  unfold extract at h
  split at h
  · cases h
  · rw [← Except.ok.inj h] at hc
    exact ((Extract.Go.extract_classes path _ tree).2 c.name).mp (List.mem_map_of_mem hc)

open Extract in
/-- Functions and the method lists of classes agree in what any file declares. The class of a
function is there, in Go exactly if the file declares it as a struct or an interface; and it lists
the function, unless that is a constructor and the language is not Python. -/
theorem extract_members_agree {l : Language} {path text : String} {tree : Tree} {x : Extraction}
    (h : extract l path text tree = .ok x) :
    (∀ c ∈ x.classes, c.methods.Nodup)
    ∧ (∀ f ∈ x.functions, ∀ owner, f.className = some owner →
        ((∃ c ∈ x.classes, c.name = owner)
          ↔ (l = .go → Go.DeclaresClass (.ofString text) tree owner))
        ∧ ((l = .go → Go.DeclaresClass (.ofString text) tree owner) →
          f.kind ≠ .constructor ∨ l = .python →
          ∃ c ∈ x.classes, c.name = owner ∧ f.name ∈ c.methods))
    ∧ (∀ c ∈ x.classes, c.kind ≠ .interface → ∀ m ∈ c.methods,
        ∃ f ∈ x.functions, f.name = m ∧ f.className = some c.name) := by
  have hagree := extract_membersAgree h
  refine ⟨hagree.nodup, fun f hf owner howner => ⟨⟨?_, ?_⟩, ?_⟩, hagree.declared⟩
  · rintro ⟨c, hc, rfl⟩ rfl
    exact declaresClass_of_mem h hc
  · intro hneeded
    obtain ⟨c, hc, hname, -⟩ := hagree.owned f hf owner howner hneeded
    exact ⟨c, hc, hname⟩
  · intro hneeded hlisted
    obtain ⟨c, hc, hname, hmem⟩ := hagree.owned f hf owner howner hneeded
    refine ⟨c, hc, hname, hmem (hlisted.imp_right fun hl => ?_)⟩
    rw [hl]
    rfl

open Tree (rule) in
/-- The tree of a Python class `A` with a constructor and two methods of one name. -/
def sameNameTree : Tree :=
  let function (start name stop : Nat) :=
    rule "function_definition" none start (stop + 9)
      [rule "identifier" (some "name") name stop [],
       rule "parameters" (some "parameters") stop (stop + 6)
        [rule "identifier" none (stop + 1) (stop + 5) []],
       rule "block" (some "body") (stop + 8) (stop + 9)
        [rule "identifier" none (stop + 8) (stop + 9) []]]
  rule "module" none 0 67
    [rule "class_definition" none 0 66
      [rule "identifier" (some "name") 6 7 [],
       rule "block" (some "body") 11 66
        [function 11 15 23, function 35 39 40, function 52 56 57]]]

/-- The class lists its constructor, and the two methods under their one name. -/
theorem extract_members_agree_same_name :
    let text := "class A:\n  def __init__(self): x\n  def m(self): y\n  def m(self): z\n"
    ∃ x, extract .python "a.py" text sameNameTree = .ok x
      ∧ x.functions.map FunctionDecl.outline =
        [("__init__", .constructor, some "A"), ("m", .method, some "A"), ("m", .method, some "A")]
      ∧ (∀ f ∈ x.functions, ∃ c ∈ x.classes, c.name = "A" ∧ f.name ∈ c.methods)
      ∧ ∀ c ∈ x.classes, c.methods.Nodup := by
  intro text
  have hx : extract .python "a.py" text sameNameTree
      = .ok (Extract.Python.extract "a.py" (.ofString text) sameNameTree) :=
    if_neg (by decide)
  have howner : ∀ f ∈ (Extract.Python.extract "a.py" (.ofString text) sameNameTree).functions,
      f.className = some "A" := by
    decide +kernel
  obtain ⟨hnodup, howned, -⟩ := extract_members_agree hx
  refine ⟨_, hx, by decide +kernel, fun f hf => ?_, hnodup⟩
  exact (howned f hf "A" (howner f hf)).2 (fun hgo => by cases hgo) (Or.inr rfl)

open Tree (rule token) in
/-- The tree of a Go file with the type `Celsius`, a number, and its method `Show`. -/
def celsiusTree : Tree :=
  rule "source_file" none 0 60
    [rule "package_clause" none 0 9
      [token "package" 0 7, rule "package_identifier" none 8 9 []],
     rule "type_declaration" none 11 31
      [token "type" 11 15,
       rule "type_spec" none 16 31
        [rule "type_identifier" (some "name") 16 23 [],
         rule "type_identifier" (some "type") 24 31 []]],
     rule "method_declaration" none 33 59
      [token "func" 33 37,
       rule "parameter_list" (some "receiver") 38 49
        [token "(" 38 39,
         rule "parameter_declaration" none 39 48
          [rule "identifier" (some "name") 39 40 [],
           rule "type_identifier" (some "type") 41 48 []],
         token ")" 48 49],
       rule "field_identifier" (some "name") 50 54 [],
       rule "parameter_list" (some "parameters") 54 56 [token "(" 54 55, token ")" 55 56],
       rule "block" (some "body") 57 59 [token "\x7b" 57 58, token "\x7d" 58 59]]]

/-- **A method of a declared type can have no class.** The file declares the type of the receiver,
which is not a struct or an interface. -/
theorem extract_members_celsius :
    let text := "package p\n\ntype Celsius float64\n\nfunc (c Celsius) Show() \x7b\x7d\n"
    ∃ x, extract .go "p/celsius.go" text celsiusTree = .ok x
      ∧ (∃ spec ∈ celsiusTree.nodesOutside ["block"], spec.kind = "type_spec"
        ∧ (SourceText.ofString text).field? spec "name" = some "Celsius")
      ∧ x.functions.map FunctionDecl.outline = [("Show", .method, some "Celsius")]
      ∧ ¬ ∃ c ∈ x.classes, c.name = "Celsius" := by
  intro text
  refine ⟨Extract.Go.extract "p/celsius.go" (.ofString text) celsiusTree, if_neg (by decide), ?_⟩
  decide +kernel

end SourceAtlas
