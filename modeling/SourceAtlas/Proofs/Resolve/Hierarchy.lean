import Mathlib.Logic.Relation
import SourceAtlas.Resolve.ClassLookup

/-!
# The hierarchy of a class

A method is looked for depth first along the parents of a class. Here the hierarchy is a relation,
`Inherits`, and what a search finds is told by it: a file in which a class of the hierarchy declares
the method itself (`exists_declaresAt_of_methodInChain?`).

The search keeps a list of pending classes, so the run lemma `exists_declaresAt_of_searchMethod` is
about any of them; the classes that were entered before do not matter for what is found.
-/

namespace SourceAtlas.Resolve

variable {ix : Index}

/-- Whether a class is extended or implemented by another, as the other's file sees the name. -/
def Extends (ix : Index) (c parent : ClassEntry) : Prop :=
  parent ∈ parentsOf ix c

/-- Whether a class is another one or stands above it. -/
def Inherits (ix : Index) : ClassEntry → ClassEntry → Prop :=
  Relation.ReflTransGen (Extends ix)

/--
Whether a class declares a method itself in a file: by a site of the method that is declared with
the name of the class, in a file that may declare members of the class, or by a part of the class
that lists the method.
-/
def DeclaresAt (ix : Index) (c : ClassEntry) (name path : String) : Prop :=
  (∃ site ∈ ix.methodSites name, (∃ owner ∈ site.className, ix.sameName owner c.name = true)
      ∧ ix.declaresMembersOf c site.path = true ∧ site.path = path)
    ∨ ∃ part ∈ ix.partsOf c, part.methods.any (ix.sameName · name) = true ∧ part.path = path

theorem mem_sitesOf {c : ClassEntry} {name : String} {site : MethodSite} :
    site ∈ sitesOf ix c name ↔ site ∈ ix.methodSites name
      ∧ (∃ owner ∈ site.className, ix.sameName owner c.name = true)
      ∧ ix.declaresMembersOf c site.path = true := by
  unfold sitesOf
  rw [List.mem_filter, Bool.and_eq_true]
  -- a site without a class belongs to no class
  cases site.className with
  | none => simp
  | some owner => simp

/-- The sites of a method by which a class declares it are those that a search looks at. -/
theorem declaresAt_iff {c : ClassEntry} {name path : String} :
    DeclaresAt ix c name path ↔ (∃ site ∈ sitesOf ix c name, site.path = path)
      ∨ ∃ part ∈ ix.partsOf c, part.methods.any (ix.sameName · name) = true ∧ part.path = path := by
  refine or_congr_left (exists_congr fun site => ?_)
  rw [mem_sitesOf, and_assoc, and_assoc]

theorem declaresAt_of_ownMethod? {c : ClassEntry} {name path : String}
    (h : ownMethod? ix c name = some path) : DeclaresAt ix c name path := by
  unfold ownMethod? at h
  rw [declaresAt_iff]
  rcases Option.or_eq_some_iff.mp h with hsite | ⟨-, hpart⟩
  · obtain ⟨site, hsite, hpath⟩ := Option.map_eq_some_iff.mp hsite
    refine Or.inl ⟨site, ?_, hpath⟩
    -- the site in the file of the class, or else the first one
    rcases Option.or_eq_some_iff.mp hsite with hfound | ⟨-, hfirst⟩
    · exact List.mem_of_find?_eq_some hfound
    · exact List.mem_of_head? hfirst
  · obtain ⟨part, hpart, hpath⟩ := Option.map_eq_some_iff.mp hpart
    have hlists := List.find?_some hpart
    exact Or.inr ⟨part, List.mem_of_find?_eq_some hpart, hlists, hpath⟩

/-- What a search finds is declared by a class of the hierarchy of one of the pending classes. The
induction is that of the search: a class found above a parent is found above its child. -/
theorem exists_declaresAt_of_searchMethod {name path : String} (unseen : List ClassKey)
    (pending : List ClassEntry) (h : searchMethod ix name unseen pending = some path) :
    ∃ c ∈ pending, ∃ d, Inherits ix c d ∧ DeclaresAt ix d name path := by
  induction unseen, pending using searchMethod.induct ix name with
  | case1 unseen =>
    rw [searchMethod] at h
    cases h
  | case2 unseen c rest hunseen found hown =>
    rw [searchMethod, dif_pos hunseen, hown] at h
    cases h
    exact ⟨c, List.mem_cons_self, c, .refl, declaresAt_of_ownMethod? hown⟩
  | case3 unseen c rest hunseen hown ih =>
    rw [searchMethod, dif_pos hunseen, hown] at h
    obtain ⟨next, hnext, d, hinherits, hdeclares⟩ := ih h
    -- the parents go in front of the classes that were pending before
    rcases List.mem_append.mp hnext with hparent | hrest
    · exact ⟨c, List.mem_cons_self, d, .head hparent hinherits, hdeclares⟩
    · exact ⟨next, List.mem_cons_of_mem c hrest, d, hinherits, hdeclares⟩
  | case4 unseen c rest hseen ih =>
    rw [searchMethod, dif_neg hseen] at h
    obtain ⟨next, hnext, hfound⟩ := ih h
    exact ⟨next, List.mem_cons_of_mem c hnext, hfound⟩

/-- A class without parents has the methods that it declares itself. -/
theorem methodInChain?_of_parentsOf_eq_nil {c : ClassEntry} (hc : c ∈ ix.classes)
    (hparents : parentsOf ix c = []) (name : String) :
    methodInChain? ix c name = ownMethod? ix c name := by
  have hunseen : c.searchKey ∈ ix.classes.map ClassEntry.searchKey := List.mem_map_of_mem hc
  unfold methodInChain?
  rw [searchMethod, dif_pos hunseen, hparents]
  -- without parents nothing is pending after the class
  cases ownMethod? ix c name with
  | none => simp only [List.append_nil, searchMethod]
  | some path => rfl

/-- **What is found for a class is declared in its hierarchy.** -/
theorem exists_declaresAt_of_methodInChain? {c : ClassEntry} {name path : String}
    (h : methodInChain? ix c name = some path) :
    ∃ d, Inherits ix c d ∧ DeclaresAt ix d name path := by
  obtain ⟨start, hstart, hfound⟩ := exists_declaresAt_of_searchMethod _ [c] h
  rw [List.mem_singleton.mp hstart] at hfound
  exact hfound

end SourceAtlas.Resolve
