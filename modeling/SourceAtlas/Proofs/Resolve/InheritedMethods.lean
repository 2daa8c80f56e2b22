import Mathlib.Data.Prod.Lex
import SourceAtlas.Proofs.Index.Contents
import SourceAtlas.Proofs.Resolve.CallTargets
import SourceAtlas.Proofs.Resolve.Hierarchy

/-!
# The search for an inherited method is exact

The search through a hierarchy enters a class once for each key, a path with a qualified name.
Several entries can have one key: a file may declare a class twice. What makes the search exact all
the same is that look-ups never give any but the first of them.

* **Look-ups give foremost entries** (`LookedUp.foremost`), and two of these with one key are the
  same (`Foremost.eq_of_searchKey`). Every way of looking up goes through a list in the order of
  registration and compares paths only.
* **The search as a recursion.** `Visits` is the search with the set of visited keys: a class, then
  the hierarchies of its parents one after another. It ends on every hierarchy, with the answer of
  the search by pending classes (`exists_visits`), and has no other outcome (`Visits.unique`).
* **What is visited is closed.** Where nothing is found, the parents of every class visited are
  visited too (`Visits.closed`), so all that stands above the first class is.

Together with the converse in `Hierarchy` this is `methodInChain?_exact`.
-/

namespace SourceAtlas.Resolve

variable {ix : Index}

/-! ## Foremost entries -/

/-- Whether no class with the key of an entry is registered before it. -/
def Foremost (ix : Index) (c : ClassEntry) : Prop :=
  ∃ before after, ix.classes = before ++ c :: after ∧ ∀ b ∈ before, b.searchKey ≠ c.searchKey

/-- A foremost entry is one of the entries. -/
theorem Foremost.mem {c : ClassEntry} (h : Foremost ix c) : c ∈ ix.classes := by
  obtain ⟨before, after, hsplit, -⟩ := h
  rw [hsplit]
  simp

/-- A key has one foremost entry. -/
theorem Foremost.eq_of_searchKey {c d : ClassEntry} (hc : Foremost ix c) (hd : Foremost ix d)
    (hkey : c.searchKey = d.searchKey) : c = d := by
  -- both are what a search for the key finds first
  have hfind : ∀ e, Foremost ix e → e.searchKey = c.searchKey →
      ix.classes.find? (·.searchKey == c.searchKey) = some e := by
    rintro e ⟨before, after, hsplit, hbefore⟩ he
    refine List.find?_eq_some_iff_append.mpr ⟨by simp [he], before, after, hsplit, fun b hb => ?_⟩
    simpa [← he] using hbefore b hb
  exact Option.some.inj ((hfind c hc rfl).symm.trans (hfind d hd hkey.symm))

/-- The first entry with some property is foremost, if entries of one key agree on the property. -/
theorem foremost_of_first {p : ClassEntry → Bool} {c : ClassEntry} {before after : List ClassEntry}
    (hagree : ∀ b ∈ ix.classes, b.searchKey = c.searchKey → p b = true)
    (hsplit : ix.classes.filter p = before ++ c :: after)
    (hbefore : ∀ b ∈ before, b.searchKey ≠ c.searchKey) : Foremost ix c := by
  obtain ⟨before', rest, hclasses, hbefore', hrest⟩ := List.filter_eq_append_iff.mp hsplit
  obtain ⟨skipped, after', hrest', hskipped, -, -⟩ := List.filter_eq_cons_iff.mp hrest
  refine ⟨before' ++ skipped, after', by rw [hclasses, hrest', List.append_assoc], ?_⟩
  intro b hb hkey
  have hmem : b ∈ ix.classes := by
    rw [hclasses, hrest', ← List.append_assoc]
    exact List.mem_append_left _ hb
  -- an entry of the same key is kept by the filter, so it stands before `c` there
  have hp := hagree b hmem hkey
  rcases List.mem_append.mp hb with hb | hb
  · exact hbefore b (hbefore' ▸ List.mem_filter.mpr ⟨hb, hp⟩) hkey
  · exact hskipped b hb hp

/-! ## The first least item

`firstLeast?` compares by a measure; of the items with the least measure it gives the first. -/

/-- The items before the one that is given all have a greater measure. -/
theorem firstLeast?_split {α β : Type} [LinearOrder β] {m : α → β} {less : α → α → Bool}
    (hless : ∀ a b, less a b = true ↔ m a < m b) {items : List α} {a : α}
    (h : firstLeast? less items = some a) :
    ∃ before after, items = before ++ a :: after ∧ ∀ b ∈ before, m a < m b := by
  -- the best so far comes with the items before it and those passed since
  have hrun : ∀ (xs before after : List α) (best : α), (∀ b ∈ before, m best < m b) →
      (∀ b ∈ after, m best ≤ m b) →
      ∃ before' after', before ++ best :: after ++ xs
          = before' ++ xs.foldl (fun best y => if less y best then y else best) best :: after'
        ∧ ∀ b ∈ before',
          m (xs.foldl (fun best y => if less y best then y else best) best) < m b := by
    intro xs
    induction xs with
    | nil =>
      intro before after best hbefore _
      exact ⟨before, after, List.append_nil _, hbefore⟩
    | cons y ys ih =>
      intro before after best hbefore hafter
      rw [List.foldl_cons]
      by_cases hy : m y < m best
      -- a lesser item: all others come before it now
      · rw [if_pos ((hless y best).mpr hy)]
        obtain ⟨before', after', heq, hlt⟩ := ih (before ++ best :: after) [] y (by
          intro b hb
          rcases List.mem_append.mp hb with hb | hb
          · exact lt_trans hy (hbefore b hb)
          · rcases List.mem_cons.mp hb with rfl | hb
            · exact hy
            · exact lt_of_lt_of_le hy (hafter b hb)) (by simp)
        exact ⟨before', after', by simpa using heq, hlt⟩
      -- otherwise it is one of those passed
      · rw [if_neg (fun hl => hy ((hless y best).mp hl))]
        obtain ⟨before', after', heq, hlt⟩ := ih before (after ++ [y]) best hbefore (by
          intro b hb
          rcases List.mem_append.mp hb with hb | hb
          · exact hafter b hb
          · rw [List.mem_singleton.mp hb]
            exact not_lt.mp hy)
        exact ⟨before', after', by simpa using heq, hlt⟩
  cases items with
  | nil => cases h
  | cons x xs =>
    obtain ⟨before, after, heq, hlt⟩ := hrun xs [] [] x (by simp) (by simp)
    rw [← Option.some.inj h]
    exact ⟨before, after, by simpa using heq, hlt⟩

/-- Nearness is the order of the tiers, and of the places within a tier. -/
theorem nearer_iff (ix : Index) (scope : Scope) (a b : String) :
    nearer ix scope a b = true ↔
      toLex (tier ix scope a, ix.position a) < toLex (tier ix scope b, ix.position b) := by
  unfold nearer
  simp [Prod.Lex.toLex_lt_toLex]

/-! ## What look-ups give -/

/-- The classes that look-ups give: the class of a scope, the class that a type name refers to, a
class in some files, the class with a qualified name. -/
inductive LookedUp (ix : Index) (c : ClassEntry) : Prop where
  | own {scope : Scope} (h : ownClass? ix scope = some c)
  | byType {scope : Scope} {typeName : String} (h : findClass? ix scope typeName = some c)
  | inFiles {targets : List String} {name : String} (h : classIn? ix targets name = some c)
  | byQualified {qualified : String} (h : ix.classQualified? qualified = some c)

/-- The simple name of every class is the last part of its qualified name. -/
def NamesQualified (ix : Index) : Prop :=
  ∀ c ∈ ix.classes, c.name = simpleName c.qualifiedName

/-- Entries of one key have one name. -/
theorem name_eq_of_searchKey (hnames : NamesQualified ix) {c d : ClassEntry} (hc : c ∈ ix.classes)
    (hd : d ∈ ix.classes) (hkey : c.searchKey = d.searchKey) : c.name = d.name := by
  rw [hnames c hc, hnames d hd, show c.qualifiedName = d.qualifiedName from congrArg Prod.snd hkey]

/-- Of the classes chosen by name and path, the first one in its file is foremost. -/
theorem foremost_of_chosen (hnames : NamesQualified ix) {p : ClassEntry → Bool}
    (hp : ∀ a b, a.name = b.name → a.path = b.path → p a = p b) {c : ClassEntry}
    {before after : List ClassEntry} (hsplit : ix.classes.filter p = before ++ c :: after)
    (hbefore : ∀ b ∈ before, b.path ≠ c.path) : Foremost ix c := by
  have hmem : c ∈ ix.classes.filter p := by
    rw [hsplit]
    simp
  obtain ⟨hc, hchosen⟩ := List.mem_filter.mp hmem
  refine foremost_of_first (fun b hb hkey => ?_) hsplit fun b hb hkey =>
    hbefore b hb (congrArg Prod.fst hkey)
  rw [hp b c (name_eq_of_searchKey hnames hb hc hkey) (congrArg Prod.fst hkey)]
  exact hchosen

/-- The same of a choice by a measure of paths. -/
theorem foremost_of_firstLeast? (hnames : NamesQualified ix) {p : ClassEntry → Bool}
    (hp : ∀ a b, a.name = b.name → a.path = b.path → p a = p b) {β : Type} [LinearOrder β]
    {m : String → β} {less : ClassEntry → ClassEntry → Bool}
    (hless : ∀ a b, less a b = true ↔ m a.path < m b.path) {c : ClassEntry}
    (h : firstLeast? less (ix.classes.filter p) = some c) : Foremost ix c := by
  obtain ⟨before, after, hsplit, hlt⟩ := firstLeast?_split (m := fun c => m c.path) hless h
  refine foremost_of_chosen hnames hp hsplit fun b hb hpath => ?_
  exact absurd (hlt b hb) (by simp [hpath])

section Foremost

variable (hix : ix.Consistent) (hnames : NamesQualified ix)
include hix hnames

/-- A class in some files. -/
theorem foremost_of_classIn? {targets : List String} {name : String} {c : ClassEntry}
    (h : classIn? ix targets name = some c) : Foremost ix c := by
  unfold classIn? at h
  rw [hix.classesNamed, List.filter_filter] at h
  exact foremost_of_firstLeast? hnames (fun a b hname hpath => by rw [hname, hpath])
    (m := (targets.idxOf ·)) (by simp) h

/-- The class with a qualified name. -/
theorem foremost_of_classQualified? {q : String} {c : ClassEntry}
    (h : ix.classQualified? q = some c) : Foremost ix c := by
  rw [hix.classQualified?] at h
  obtain ⟨hc, before, after, hsplit, hbefore⟩ := List.find?_eq_some_iff_append.mp h
  have hmem : c ∈ ix.classes := List.mem_of_find?_eq_some h
  refine ⟨before, after, hsplit, fun b hb hkey => ?_⟩
  -- the names that a class is registered under depend on its key and its name
  have hb' : b ∈ ix.classes := hsplit ▸ List.mem_append_left _ hb
  have hsame : ix.registeredNames b = ix.registeredNames c := by
    unfold Index.registeredNames
    rw [name_eq_of_searchKey hnames hb' hmem hkey,
      show b.path = c.path from congrArg Prod.fst hkey,
      show b.qualifiedName = c.qualifiedName from congrArg Prod.snd hkey]
  have hnot := hbefore b hb
  rw [hsame, hc] at hnot
  cases hnot

/-- The class of a scope: one in the file of the scope, or the one that was registered first. -/
theorem foremost_of_ownClass? {scope : Scope} {c : ClassEntry} (h : ownClass? ix scope = some c) :
    Foremost ix c := by
  obtain ⟨name, -, hc⟩ := Option.bind_eq_some_iff.mp h
  rw [hix.classesNamed] at hc
  rcases Option.or_eq_some_iff.mp hc with hc | ⟨-, hc⟩
  · obtain ⟨hpath, before, after, hsplit, hbefore⟩ := List.find?_eq_some_iff_append.mp hc
    refine foremost_of_chosen hnames (fun a b hname _ => by rw [hname]) hsplit fun b hb heq => ?_
    have hnot := hbefore b hb
    rw [heq, hpath] at hnot
    cases hnot
  · exact foremost_of_firstLeast? hnames (fun a b hname _ => by rw [hname]) (m := ix.position)
      (by simp) hc

/-- The class that a type name refers to. -/
theorem foremost_of_findClass? {scope : Scope} {typeName : String} {c : ClassEntry}
    (h : findClass? ix scope typeName = some c) : Foremost ix c := by
  rcases findClass?_cases h with ⟨targets, name, hin⟩ | ⟨qualified, hqualified⟩ | hnearest
  · exact foremost_of_classIn? hix hnames hin
  · exact foremost_of_classQualified? hix hnames hqualified
  · rw [hix.classesNamed] at hnearest
    exact foremost_of_firstLeast? hnames (fun a b hname _ => by rw [hname])
      (m := fun p => toLex (tier ix scope p, ix.position p))
      (fun a b => nearer_iff ix scope a.path b.path) hnearest

/-- **A look-up gives the first of the entries with one key.** -/
theorem LookedUp.foremost {c : ClassEntry} (h : LookedUp ix c) : Foremost ix c := by
  cases h with
  | own h => exact foremost_of_ownClass? hix hnames h
  | byType h => exact foremost_of_findClass? hix hnames h
  | inFiles h => exact foremost_of_classIn? hix hnames h
  | byQualified h => exact foremost_of_classQualified? hix hnames h

end Foremost

/-- Parents are looked up by their type names. -/
theorem lookedUp_of_mem_parentsOf {c parent : ClassEntry} (h : parent ∈ parentsOf ix c) :
    LookedUp ix parent := by
  obtain ⟨typeName, -, hfound⟩ := List.mem_filterMap.mp h
  exact .byType hfound

/-! ## The search as a recursion -/

/-- The search through the hierarchies of some classes, one after another: the keys visited before,
the classes, the keys visited in the end, and the file that was found. -/
inductive Visits (ix : Index) (name : String) :
    List ClassKey → List ClassEntry → List ClassKey → Option String → Prop where
  | done (visited : List ClassKey) : Visits ix name visited [] visited none
  /-- A class that was visited is passed over. -/
  | seen {visited visited' c rest found} (hseen : c.searchKey ∈ visited)
      (hrest : Visits ix name visited rest visited' found) :
      Visits ix name visited (c :: rest) visited' found
  /-- The class declares the method itself. -/
  | own {visited c path} (rest : List ClassEntry) (hnew : c.searchKey ∉ visited)
      (hown : ownMethod? ix c name = some path) :
      Visits ix name visited (c :: rest) (c.searchKey :: visited) (some path)
  /-- It is found above the class. -/
  | above {visited visited' c path} (rest : List ClassEntry) (hnew : c.searchKey ∉ visited)
      (hown : ownMethod? ix c name = none)
      (hparents : Visits ix name (c.searchKey :: visited) (parentsOf ix c) visited' (some path)) :
      Visits ix name visited (c :: rest) visited' (some path)
  /-- It is not, and the next class is looked at. -/
  | next {visited visited' visited'' c rest found} (hnew : c.searchKey ∉ visited)
      (hown : ownMethod? ix c name = none)
      (hparents : Visits ix name (c.searchKey :: visited) (parentsOf ix c) visited' none)
      (hrest : Visits ix name visited' rest visited'' found) :
      Visits ix name visited (c :: rest) visited'' found

namespace Visits

variable {name : String} {visited visited' : List ClassKey} {pending : List ClassEntry}
  {found : Option String}

/-- Nothing that was visited is forgotten. -/
theorem subset (h : Visits ix name visited pending visited' found) : visited ⊆ visited' := by
  induction h with
  | done => exact List.Subset.refl _
  | seen _ _ ih => exact ih
  | own => exact List.subset_cons_self _ _
  | above _ _ _ _ ih => exact List.Subset.trans (List.subset_cons_self _ _) ih
  | next _ _ _ _ ihparents ihrest =>
    exact List.Subset.trans (List.subset_cons_self _ _) (List.Subset.trans ihparents ihrest)

/-- The search has one outcome. -/
theorem unique (h : Visits ix name visited pending visited' found) {visited₂ : List ClassKey}
    {found₂ : Option String} (h₂ : Visits ix name visited pending visited₂ found₂) :
    visited₂ = visited' ∧ found₂ = found := by
  induction h generalizing visited₂ found₂ with
  | done =>
    cases h₂
    exact ⟨rfl, rfl⟩
  | seen hseen _ ih =>
    cases h₂ with
    | seen _ hrest => exact ih hrest
    | own _ hnew _ => exact absurd hseen hnew
    | above _ hnew _ _ => exact absurd hseen hnew
    | next hnew _ _ _ => exact absurd hseen hnew
  | own rest hnew hown =>
    cases h₂ with
    | seen hseen _ => exact absurd hseen hnew
    | own _ _ hown₂ => exact ⟨rfl, hown₂.symm.trans hown⟩
    | above _ _ hown₂ _ => cases hown.symm.trans hown₂
    | next _ hown₂ _ _ => cases hown.symm.trans hown₂
  -- in the parents one search finds the method, so the other one does
  | above rest hnew hown _ ih =>
    cases h₂ with
    | seen hseen _ => exact absurd hseen hnew
    | own _ _ hown₂ => cases hown.symm.trans hown₂
    | above _ _ _ hparents => exact ih hparents
    | next _ _ hparents _ => cases (ih hparents).2
  | next hnew hown _ _ ihparents ihrest =>
    cases h₂ with
    | seen hseen _ => exact absurd hseen hnew
    | own _ _ hown₂ => cases hown.symm.trans hown₂
    | above _ _ _ hparents => cases (ihparents hparents).2
    | next _ _ hparents hrest =>
      obtain ⟨rfl, -⟩ := ihparents hparents
      exact ihrest hrest

/-- **What is visited is closed under parents.** Where nothing is found, the classes asked for are
visited, and of a class that became visited the parents are, and it does not declare the method. -/
theorem closed (hfirst : ∀ c, LookedUp ix c → Foremost ix c)
    (h : Visits ix name visited pending visited' found) (hfound : found = none)
    (hpending : ∀ c ∈ pending, LookedUp ix c) :
    (∀ c ∈ pending, c.searchKey ∈ visited')
      ∧ ∀ d, LookedUp ix d → d.searchKey ∈ visited' →
        d.searchKey ∈ visited
          ∨ ownMethod? ix d name = none
            ∧ ∀ parent ∈ parentsOf ix d, parent.searchKey ∈ visited' := by
  induction h with
  | done => exact ⟨by simp, fun d _ hd => Or.inl hd⟩
  | seen hseen hrest ih =>
    obtain ⟨hvisited, hclosed⟩ := ih hfound fun c hc => hpending c (List.mem_cons_of_mem _ hc)
    refine ⟨fun c hc => ?_, hclosed⟩
    rcases List.mem_cons.mp hc with rfl | hc
    · exact hrest.subset hseen
    · exact hvisited c hc
  | own => cases hfound
  | above => cases hfound
  | @next visited visited' visited'' c rest found hnew hown hparents hrest ihparents ihrest =>
    obtain ⟨hparentsVisited, hclosedParents⟩ :=
      ihparents rfl fun p hp => lookedUp_of_mem_parentsOf hp
    obtain ⟨hrestVisited, hclosedRest⟩ := ihrest hfound fun d hd =>
      hpending d (List.mem_cons_of_mem _ hd)
    -- what the parents have visited stays visited while the rest is searched
    have hc : c.searchKey ∈ visited'' := hrest.subset (hparents.subset List.mem_cons_self)
    refine ⟨fun d hd => ?_, fun d hd hdvisited => ?_⟩
    · rcases List.mem_cons.mp hd with rfl | hd
      · exact hc
      · exact hrestVisited d hd
    · rcases hclosedRest d hd hdvisited with hbefore | hafter
      · rcases hclosedParents d hd hbefore with hd' | ⟨hnone, hup⟩
        · rcases List.mem_cons.mp hd' with hkey | hd'
          · -- the class itself: its key has no other entry that a look-up gives
            have heq : d = c := (hfirst d hd).eq_of_searchKey
              (hfirst c (hpending c List.mem_cons_self)) hkey
            subst heq
            exact Or.inr ⟨hown, fun p hp => hrest.subset (hparentsVisited p hp)⟩
          · exact Or.inl hd'
        · exact Or.inr ⟨hnone, fun p hp => hrest.subset (hup p hp)⟩
      · exact Or.inr hafter

end Visits

/-! ## The search by pending classes runs the recursion -/

/-- The keys of classes that are not visited. -/
def unseenBy (ix : Index) (visited : List ClassKey) : List ClassKey :=
  (ix.classes.map ClassEntry.searchKey).filter (!visited.contains ·)

/-- At first all keys are unseen. -/
theorem unseenBy_nil : unseenBy ix [] = ix.classes.map ClassEntry.searchKey :=
  List.filter_eq_self.mpr fun _ _ => rfl

/-- An unseen key is that of a class, and not visited. -/
theorem mem_unseenBy {visited : List ClassKey} {k : ClassKey} :
    k ∈ unseenBy ix visited ↔ k ∈ ix.classes.map ClassEntry.searchKey ∧ k ∉ visited := by
  simp [unseenBy]

/-- Entering a class takes its key away. -/
theorem withoutKey_unseenBy (k : ClassKey) (visited : List ClassKey) :
    withoutKey k (unseenBy ix visited) = unseenBy ix (k :: visited) := by
  unfold withoutKey unseenBy
  rw [List.filter_filter]
  refine List.filter_congr fun a _ => ?_
  rw [List.contains_cons, Bool.not_or]
  rfl

/-- So fewer keys are unseen once a class is visited. -/
theorem length_unseenBy_lt {c : ClassEntry} {visited visited' : List ClassKey} (hc : c ∈ ix.classes)
    (hnew : c.searchKey ∉ visited) (hvisited : c.searchKey ∈ visited') (hsub : visited ⊆ visited') :
    (unseenBy ix visited').length < (unseenBy ix visited).length := by
  have hle : (unseenBy ix visited').length ≤ (unseenBy ix (c.searchKey :: visited)).length := by
    refine List.Sublist.length_le (List.monotone_filter_right _ fun k hk => ?_)
    have hk' : k ∉ visited' := by simpa using hk
    have hmem : k ∉ c.searchKey :: visited := fun hmem => by
      rcases List.mem_cons.mp hmem with rfl | hmem
      · exact hk' hvisited
      · exact hk' (hsub hmem)
    simpa using hmem
  rw [← withoutKey_unseenBy] at hle
  exact lt_of_le_of_lt hle
    (length_withoutKey_lt (mem_unseenBy.mpr ⟨List.mem_map_of_mem hc, hnew⟩))

/-- **The recursion ends, with the answer of the search.** A class that is entered leaves the keys
still unseen, so the hierarchies of its parents and then the remaining classes are searched with
fewer of them. -/
theorem exists_visits (hclasses : ∀ c parent, parent ∈ parentsOf ix c → parent ∈ ix.classes)
    (name : String) (visited : List ClassKey) (pending : List ClassEntry)
    (hpending : ∀ c ∈ pending, c ∈ ix.classes) :
    ∃ visited' found, Visits ix name visited pending visited' found
      ∧ ∀ rest, searchMethod ix name (unseenBy ix visited) (pending ++ rest) =
        found.or (searchMethod ix name (unseenBy ix visited') rest) := by
  match pending with
  | [] => exact ⟨visited, none, .done visited, fun rest => rfl⟩
  | c :: pending =>
    have hc : c ∈ ix.classes := hpending c List.mem_cons_self
    have hrest : ∀ d ∈ pending, d ∈ ix.classes := fun d hd => hpending d (List.mem_cons_of_mem c hd)
    by_cases hseen : c.searchKey ∈ visited
    · have hnot : c.searchKey ∉ unseenBy ix visited := fun h => (mem_unseenBy.mp h).2 hseen
      obtain ⟨visited', found, hvisits, hsearch⟩ :=
        exists_visits hclasses name visited pending hrest
      refine ⟨visited', found, .seen hseen hvisits, fun rest => ?_⟩
      rw [List.cons_append, searchMethod, dif_neg hnot, hsearch]
    · have hunseen : c.searchKey ∈ unseenBy ix visited :=
        mem_unseenBy.mpr ⟨List.mem_map_of_mem hc, hseen⟩
      cases hown : ownMethod? ix c name with
      | some path =>
        refine ⟨_, some path, .own pending hseen hown, fun rest => ?_⟩
        rw [List.cons_append, searchMethod, dif_pos hunseen, hown]
        rfl
      | none =>
        -- for the parents: the class itself is visited now
        have hless := length_unseenBy_lt hc hseen List.mem_cons_self (List.subset_cons_self _ _)
        obtain ⟨visited', found, hvisits, hsearch⟩ := exists_visits hclasses name
          (c.searchKey :: visited) (parentsOf ix c) (hclasses c)
        have hstep : ∀ rest, searchMethod ix name (unseenBy ix visited) (c :: pending ++ rest) =
            found.or (searchMethod ix name (unseenBy ix visited') (pending ++ rest)) := by
          intro rest
          rw [List.cons_append, searchMethod, dif_pos hunseen, hown, withoutKey_unseenBy]
          exact hsearch (pending ++ rest)
        cases found with
        | some path => exact ⟨visited', some path, .above pending hseen hown hvisits, hstep⟩
        | none =>
          -- for the remaining classes: what the parents have visited stays visited
          have hless' := length_unseenBy_lt hc hseen (hvisits.subset List.mem_cons_self)
            (List.Subset.trans (List.subset_cons_self _ _) hvisits.subset)
          obtain ⟨visited'', found, hvisitsRest, hsearchRest⟩ :=
            exists_visits hclasses name visited' pending hrest
          refine ⟨visited'', found, .next hseen hown hvisits hvisitsRest, fun rest => ?_⟩
          rw [hstep, Option.none_or, hsearchRest]
termination_by ((unseenBy ix visited).length, pending.length)

/-! ## Exactness -/

/-- A class has no method of its own exactly if it declares none, in any of its parts. -/
theorem ownMethod?_eq_none_iff {c : ClassEntry} {name : String} :
    ownMethod? ix c name = none ↔ ∀ path, ¬ DeclaresAt ix c name path := by
  constructor
  · intro hnone path hdeclares
    unfold ownMethod? at hnone
    simp only [Option.or_eq_none_iff, Option.map_eq_none_iff, List.head?_eq_none_iff,
      List.find?_eq_none] at hnone
    obtain ⟨⟨-, hsites⟩, hparts⟩ := hnone
    rcases declaresAt_iff.mp hdeclares with ⟨site, hsite, -⟩ | ⟨part, hpart, hlists, -⟩
    · rw [hsites] at hsite
      cases hsite
    · exact hparts part hpart hlists
  · intro hnot
    cases hown : ownMethod? ix c name with
    | none => rfl
    | some path => exact absurd (declaresAt_of_ownMethod? hown) (hnot path)

/-- From the first entry with its key, nothing is found exactly if no class above declares the
method. The search visits the parents with the key of the class marked; a class above with that key
is the class itself. -/
theorem methodInChain?_eq_none_iff (hix : ix.Consistent) (hnames : NamesQualified ix)
    {c : ClassEntry} (hc : Foremost ix c) (name : String) :
    methodInChain? ix c name = none ↔ ∀ d, Inherits ix c d → ownMethod? ix d name = none := by
  have hfirst : ∀ d, LookedUp ix d → Foremost ix d := fun d hd => hd.foremost hix hnames
  constructor
  · intro hnone
    have hunseen : c.searchKey ∈ ix.classes.map ClassEntry.searchKey := List.mem_map_of_mem hc.mem
    rw [methodInChain?, searchMethod, dif_pos hunseen] at hnone
    cases hown : ownMethod? ix c name with
    | some path =>
      rw [hown] at hnone
      cases hnone
    | none =>
      obtain ⟨visited, found, hvisits, hsearch⟩ := exists_visits
        (fun d parent hparent => (hfirst parent (lookedUp_of_mem_parentsOf hparent)).mem) name
        [c.searchKey] (parentsOf ix c)
        (fun d hd => (hfirst d (lookedUp_of_mem_parentsOf hd)).mem)
      have hfound : found = none := by
        have hsearch := hsearch []
        rw [hown] at hnone
        dsimp only at hnone
        rw [← unseenBy_nil, withoutKey_unseenBy, hsearch, searchMethod, Option.or_none] at hnone
        exact hnone
      obtain ⟨hparents, hclosed⟩ := hvisits.closed hfirst hfound
        fun d hd => lookedUp_of_mem_parentsOf hd
      -- a class above is the class itself, or it was visited
      have habove : ∀ d, Inherits ix c d → d = c ∨ (LookedUp ix d ∧ d.searchKey ∈ visited) := by
        intro d hinherits
        induction hinherits with
        | refl => exact .inl rfl
        | @tail d e _ hextends ih =>
          refine .inr ⟨lookedUp_of_mem_parentsOf hextends, ?_⟩
          rcases ih with rfl | ⟨hd, hvisited⟩
          · exact hparents e hextends
          · rcases hclosed d hd hvisited with hkey | ⟨-, hup⟩
            · rw [(hfirst d hd).eq_of_searchKey hc (List.mem_singleton.mp hkey)] at hextends
              exact hparents e hextends
            · exact hup e hextends
      intro d hinherits
      rcases habove d hinherits with rfl | ⟨hd, hvisited⟩
      · exact hown
      · rcases hclosed d hd hvisited with hkey | ⟨hnone, -⟩
        · rw [(hfirst d hd).eq_of_searchKey hc (List.mem_singleton.mp hkey)]
          exact hown
        · exact hnone
  · intro hnot
    rw [Option.eq_none_iff_forall_ne_some]
    intro path hpath
    obtain ⟨d, hinherits, hdeclares⟩ := exists_declaresAt_of_methodInChain? hpath
    exact ownMethod?_eq_none_iff.mp (hnot d hinherits) path hdeclares

/-- The classes of an index have the names that their files declare them with. -/
theorem namesQualified_ofEntries {l : Language} {r : Repository} {entries : List Index.Entry}
    (hnames : ∀ x, Index.Entry.declared x ∈ entries → ∀ c ∈ x.classes,
      c.name = simpleName c.qualifiedName) : NamesQualified (.ofEntries l r entries) := by
  intro d hd
  rw [show (Index.ofEntries l r entries).classes = _ from
    Index.classes_foldl_enter entries (.start l r)] at hd
  obtain ⟨e, he, hd⟩ := List.mem_flatMap.mp hd
  cases e with
  | bare path => cases hd
  | declared x =>
    obtain ⟨decl, hdecl, rfl⟩ := List.mem_map.mp hd
    exact hnames x he decl hdecl

/--
**The search for an inherited method is exact.** In an index of files whose classes have the last
part of their qualified names as names, whatever their hierarchies, the search for a method from a
class that a look-up gives ends, as a recursion over the parents with the visited classes marked,
and with one outcome. It finds nothing exactly if no class that stands above the class declares the
method, and what it finds is a file in which such a class does.
-/
theorem methodInChain?_exact {l : Language} {r : Repository} {entries : List Index.Entry}
    (hnames : ∀ x, Index.Entry.declared x ∈ entries → ∀ c ∈ x.classes,
      c.name = simpleName c.qualifiedName)
    {c : ClassEntry} (hc : LookedUp (.ofEntries l r entries) c) (name : String) :
    (∃ visited, ∀ visited' found, Visits (.ofEntries l r entries) name [] [c] visited' found ↔
        visited' = visited ∧ found = methodInChain? (.ofEntries l r entries) c name)
      ∧ (methodInChain? (.ofEntries l r entries) c name = none ↔
        ∀ d, Inherits (.ofEntries l r entries) c d →
          ∀ path, ¬ DeclaresAt (.ofEntries l r entries) d name path)
      ∧ ∀ path, methodInChain? (.ofEntries l r entries) c name = some path →
        ∃ d, Inherits (.ofEntries l r entries) c d
          ∧ DeclaresAt (.ofEntries l r entries) d name path := by
  have hqualified : NamesQualified (.ofEntries l r entries) := namesQualified_ofEntries hnames
  have hfirst : ∀ d, LookedUp (.ofEntries l r entries) d → Foremost (.ofEntries l r entries) d :=
    fun d hd => hd.foremost (Index.consistent_ofEntries l r entries) hqualified
  obtain ⟨visited, found, hvisits, hsearch⟩ := exists_visits
    (fun d parent hparent => (hfirst parent (lookedUp_of_mem_parentsOf hparent)).mem) name [] [c]
    (fun d hd => List.mem_singleton.mp hd ▸ (hfirst c hc).mem)
  have hfound : found = methodInChain? (.ofEntries l r entries) c name := by
    have hsearch := hsearch []
    rw [unseenBy_nil, List.append_nil, searchMethod, Option.or_none] at hsearch
    exact hsearch.symm
  subst hfound
  refine ⟨⟨visited, fun visited' found' => ⟨hvisits.unique, ?_⟩⟩, ?_,
    fun path hpath => exists_declaresAt_of_methodInChain? hpath⟩
  · rintro ⟨rfl, rfl⟩
    exact hvisits
  · rw [methodInChain?_eq_none_iff (Index.consistent_ofEntries l r entries) hqualified
      (hfirst c hc)]
    exact forall₂_congr fun d _ => ownMethod?_eq_none_iff

/-! ## A cycle of two classes

`Reader` and `Writer` extend each other, and the file of `Reader` declares a class of that name
twice. The method `flush` of `Writer` is known by its site alone. -/

/-- A public class of `io`. -/
def streamClass (name parent : String) (methods : List String) : ClassDecl :=
  { name, qualifiedName := "io." ++ name, kind := .cls, visibility := .pub
    superclass := some parent, methods }

/-- The two files. -/
def streams : List Index.Entry :=
  [.declared
    { path := "io/Reader.java"
      namespaceName := some "io"
      classes :=
        [streamClass "Reader" "Writer" ["read"], streamClass "Reader" "Stream" ["close"]] },
   .declared
    { path := "io/Writer.java"
      namespaceName := some "io"
      classes := [streamClass "Writer" "Reader" []]
      functions :=
        [{ name := "flush", kind := .method, visibility := .pub, className := some "Writer" }] }]

/-- Their index. -/
def streamIndex : Index :=
  .ofEntries .java (.ofSources [] []) streams

/-- The first class `Reader`. -/
def reader : ClassEntry :=
  .ofDecl "io/Reader.java" (streamClass "Reader" "Writer" ["read"])

/-- The class `Writer`. -/
def writer : ClassEntry :=
  .ofDecl "io/Writer.java" (streamClass "Writer" "Reader" [])

/-- The search for `close` goes round once; the second `Reader` is never looked up. That for `flush`
ends at the site of the method. -/
theorem methodInChain?_exact_streams :
    LookedUp streamIndex reader
      ∧ Extends streamIndex reader writer ∧ Extends streamIndex writer reader
      ∧ methodInChain? streamIndex reader "close" = none
      ∧ (∀ d, Inherits streamIndex reader d → ∀ path, ¬ DeclaresAt streamIndex d "close" path)
      ∧ methodInChain? streamIndex reader "flush" = some "io/Writer.java"
      ∧ (∃ site ∈ streamIndex.methodSites "flush", site.className = some "Writer")
      ∧ ∃ d, Inherits streamIndex reader d ∧ DeclaresAt streamIndex d "flush" "io/Writer.java" := by
  have hnames : ∀ x, Index.Entry.declared x ∈ streams → ∀ c ∈ x.classes,
      c.name = simpleName c.qualifiedName := by
    intro x hx c hc
    simp only [streams, List.mem_cons, Index.Entry.declared.injEq, List.not_mem_nil, or_false] at hx
    rcases hx with rfl | rfl
    · simp only [List.mem_cons, List.not_mem_nil, or_false] at hc
      rcases hc with rfl | rfl <;> decide +kernel
    · rw [List.mem_singleton.mp hc]
      decide +kernel
  have hfound : streamIndex.classQualified? "io.Reader" = some reader := by decide +kernel
  have hreader : LookedUp streamIndex reader := .byQualified hfound
  have hup : parentsOf streamIndex reader = [writer] := by decide +kernel
  have hdown : parentsOf streamIndex writer = [reader] := by decide +kernel
  -- from `Reader` to `Writer` and back, where the search stops
  have hvisits :
      Visits streamIndex "close" [] [reader] [writer.searchKey, reader.searchKey] none := by
    refine .next (by decide +kernel) (by decide +kernel) ?_ (.done _)
    rw [hup]
    refine .next (by decide +kernel) (by decide +kernel) ?_ (.done _)
    rw [hdown]
    exact .seen (by decide +kernel) (.done _)
  have hfinds : Visits streamIndex "flush" [] [reader] [writer.searchKey, reader.searchKey]
      (some "io/Writer.java") := by
    refine .above _ (by decide +kernel) (by decide +kernel) ?_
    rw [hup]
    exact .own _ (by decide +kernel) (by decide +kernel)
  obtain ⟨⟨visited, houtcome⟩, hnone, -⟩ := methodInChain?_exact hnames hreader "close"
  have hclose := ((houtcome _ _).mp hvisits).2.symm
  obtain ⟨⟨visited', houtcome'⟩, -, hsome⟩ := methodInChain?_exact hnames hreader "flush"
  have hflush := ((houtcome' _ _).mp hfinds).2.symm
  refine ⟨hreader, ?_, ?_, hclose, hnone.mp hclose, hflush, by decide +kernel, hsome _ hflush⟩
  · unfold Extends
    rw [hup]
    exact List.mem_cons_self
  · unfold Extends
    rw [hdown]
    exact List.mem_cons_self

end SourceAtlas.Resolve
