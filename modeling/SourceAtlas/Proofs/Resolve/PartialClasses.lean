import SourceAtlas.Proofs.Extract.QualifiedNames
import SourceAtlas.Proofs.Resolve.InheritedMethods

/-!
# Declarations of one partial class

A C# class may be declared in several places, and the index has an entry for each. A method is
searched from one of them, and which one depends on the file a call is in. This module asks whether
that makes a difference.

* **Sites are shared.** A method that any file of the class declares is found from every entry
  (`sitesOf_eq`).
* **Parts are not.** An entry sees the declarations in other files, but no other one in its own
  (`mem_partsOf`). `SeesAll` is what is needed: then the entry is the only one with its key, so the
  search from it finds the method if any class above declares it (`methodInChain?_eq_none_iff`).
* **Names of parents are read in one file.** The names that all parts write are looked up from the
  file of the entry, not from the file they are written in (`LeadsAbove`).

`methodInChain?_interchange` puts these together, for files whose classes have the last part of
their qualified names as names. What is extracted from C# files is so (`names_of_extracted`).
-/

namespace SourceAtlas.Resolve

variable {ix : Index}

/-! ## What a declaration sees of its class -/

/-- Two declarations of one class. -/
def SameClass (c d : ClassEntry) : Prop :=
  c.name = d.name ∧ c.qualifiedName = d.qualifiedName

theorem SameClass.symm {c d : ClassEntry} (h : SameClass c d) : SameClass d c :=
  ⟨h.1.symm, h.2.symm⟩

theorem SameClass.trans {c d e : ClassEntry} (h : SameClass c d) (h' : SameClass d e) :
    SameClass c e :=
  ⟨h.1.trans h'.1, h.2.trans h'.2⟩

/-- Whether an entry sees every declaration of its class. -/
def SeesAll (ix : Index) (c : ClassEntry) : Prop :=
  ∀ d ∈ ix.classes, SameClass d c → d ∈ ix.partsOf c

section

variable (hix : ix.Consistent) (hcs : ix.language = .csharp)
include hix hcs

/-- The parts of a class are the entry itself and the declarations in other files. -/
theorem mem_partsOf {c d : ClassEntry} :
    d ∈ ix.partsOf c ↔ d = c ∨ (d ∈ ix.classes ∧ SameClass d c ∧ d.path ≠ c.path) := by
  -- the letter case of a name counts in C#, so keys are the names themselves
  have hkey : ∀ a, ix.key a = a := by
    intro a
    rw [Index.key, hcs]
    rfl
  have hsame : ∀ a b, ix.sameName a b = (a == b) := by
    intro a b
    rw [Index.sameName, hcs]
    rfl
  rw [Index.partsOf, hix.classesNamed, List.mem_cons, List.mem_filter, List.mem_filter, hkey, hkey,
    hsame, SameClass, Bool.and_eq_true, beq_iff_eq, beq_iff_eq, bne_iff_ne]
  tauto

/-- The files of a class are the same for all its entries. -/
theorem any_partsOf {c : ClassEntry} (hc : c ∈ ix.classes) (path : String) :
    (ix.partsOf c).any (·.path == path) = true ↔
      ∃ d ∈ ix.classes, SameClass d c ∧ d.path = path := by
  rw [List.any_eq_true]
  constructor
  · rintro ⟨d, hd, hpath⟩
    rw [beq_iff_eq] at hpath
    rcases (mem_partsOf hix hcs).mp hd with rfl | ⟨hd, hsame, -⟩
    · exact ⟨d, hc, ⟨rfl, rfl⟩, hpath⟩
    · exact ⟨d, hd, hsame, hpath⟩
  · rintro ⟨d, hd, hsame, rfl⟩
    -- a declaration in the file of the entry is not seen, but the entry stands for the file
    by_cases hpath : d.path = c.path
    · exact ⟨c, (mem_partsOf hix hcs).mpr (.inl rfl), beq_iff_eq.mpr hpath.symm⟩
    · exact ⟨d, (mem_partsOf hix hcs).mpr (.inr ⟨hd, hsame, hpath⟩), beq_iff_eq.mpr rfl⟩

/-- **Sites of a method belong to a class by all its files**, whichever entry is asked. -/
theorem sitesOf_eq {c c' : ClassEntry} (hc : c ∈ ix.classes) (hc' : c' ∈ ix.classes)
    (hsame : SameClass c c') (name : String) : sitesOf ix c name = sitesOf ix c' name := by
  have hfiles : ∀ path, ix.declaresMembersOf c path = ix.declaresMembersOf c' path := by
    intro path
    -- Go asks for the package instead of the files
    have hgo : ¬ ix.language = .go := by
      rw [hcs]
      decide
    rw [Index.declaresMembersOf, if_neg hgo, Index.declaresMembersOf, if_neg hgo, Bool.eq_iff_iff,
      any_partsOf hix hcs hc, any_partsOf hix hcs hc']
    constructor
    · rintro ⟨d, hd, hsame', hpath⟩
      exact ⟨d, hd, hsame'.trans hsame, hpath⟩
    · rintro ⟨d, hd, hsame', hpath⟩
      exact ⟨d, hd, hsame'.trans hsame.symm, hpath⟩
  rw [sitesOf, sitesOf, hsame.1]
  refine List.filter_congr fun site _ => ?_
  rw [hfiles]

/-- An entry that sees every declaration is the only one with its key. -/
theorem foremost_of_seesAll (hnames : NamesQualified ix) {c : ClassEntry} (hc : c ∈ ix.classes)
    (hsees : SeesAll ix c) : Foremost ix c := by
  have hfind : ix.classes.find? (·.searchKey == c.searchKey) ≠ none := by
    intro hnone
    exact List.find?_eq_none.mp hnone c hc (beq_iff_eq.mpr rfl)
  -- the first entry with the key is in the same file, so it is not a part but the entry
  obtain ⟨d, hd⟩ := Option.ne_none_iff_exists'.mp hfind
  obtain ⟨hkey, before, after, hsplit, hbefore⟩ := List.find?_eq_some_iff_append.mp hd
  rw [beq_iff_eq] at hkey
  have hmem := List.mem_of_find?_eq_some hd
  have hsame : SameClass d c :=
    ⟨name_eq_of_searchKey hnames hmem hc hkey, congrArg Prod.snd hkey⟩
  have heq : d = c := by
    rcases (mem_partsOf hix hcs).mp (hsees d hmem hsame) with heq | ⟨-, -, hpath⟩
    · exact heq
    · exact absurd (congrArg Prod.fst hkey) hpath
  subst heq
  refine ⟨before, after, hsplit, fun b hb hbkey => ?_⟩
  have hnot := hbefore b hb
  rw [hbkey, beq_self_eq_true] at hnot
  cases hnot

end

/-! ## The search from an entry -/

section

variable (hix : ix.Consistent) (hnames : NamesQualified ix)
include hix hnames

/-- A method is found from an entry if the class declares it, or it is found from a parent. -/
theorem isSome_methodInChain?_iff {c : ClassEntry} (hc : Foremost ix c) (name : String) :
    (methodInChain? ix c name).isSome = true ↔
      (ownMethod? ix c name).isSome = true ∨
        ∃ parent ∈ parentsOf ix c, (methodInChain? ix parent name).isSome = true := by
  -- found means that some class above, or the class itself, declares the method
  have hfound : ∀ d, Foremost ix d → ((methodInChain? ix d name).isSome = true ↔
      ∃ e, Inherits ix d e ∧ (ownMethod? ix e name).isSome = true) := by
    intro d hd
    rw [← not_iff_not, Bool.not_eq_true, Option.isSome_eq_false_iff, Option.isNone_iff_eq_none,
      methodInChain?_eq_none_iff hix hnames hd]
    simp
  have hparent : ∀ parent ∈ parentsOf ix c, Foremost ix parent := fun parent hparent =>
    (lookedUp_of_mem_parentsOf hparent).foremost hix hnames
  rw [hfound c hc]
  constructor
  · rintro ⟨e, hinherits, hown⟩
    -- the way up is empty or begins with a parent
    rcases Relation.ReflTransGen.cases_head hinherits with rfl | ⟨parent, hextends, hinherits⟩
    · exact .inl hown
    · have hsome := (hfound parent (hparent parent hextends)).mpr ⟨e, hinherits, hown⟩
      exact .inr ⟨parent, hextends, hsome⟩
  · rintro (hown | ⟨parent, hextends, hsome⟩)
    · exact ⟨c, .refl, hown⟩
    · obtain ⟨e, hinherits, hown⟩ := (hfound parent (hparent parent hextends)).mp hsome
      exact ⟨e, .head hextends hinherits, hown⟩

end

/-! ## Interchanging declarations -/

/-- The names of the classes that a declaration extends or implements. -/
def parentNames (d : ClassEntry) : List String :=
  (d.superclass.toList ++ d.interfaces).filterMap TypeName.normalize?

/-- Whether a method is found from a parent that some declaration of the class names, with the name
looked up from the file of `c`. -/
def LeadsAbove (ix : Index) (c : ClassEntry) (name : String) : Prop :=
  ∃ d ∈ ix.classes, SameClass d c ∧ ∃ typeName ∈ parentNames d, ∃ parent,
    findClass? ix (classScope ix c) typeName = some parent ∧
      (methodInChain? ix parent name).isSome = true

theorem mem_parentsOf {c parent : ClassEntry} :
    parent ∈ parentsOf ix c ↔
      ∃ part ∈ ix.partsOf c, ∃ typeName ∈ parentNames part,
        findClass? ix (classScope ix c) typeName = some parent := by
  rw [parentsOf, List.filterMap_flatMap, List.mem_filterMap]
  constructor
  · rintro ⟨typeName, hname, hfound⟩
    obtain ⟨part, hpart, hname⟩ := List.mem_flatMap.mp hname
    exact ⟨part, hpart, typeName, hname, hfound⟩
  · rintro ⟨part, hpart, typeName, hname, hfound⟩
    exact ⟨typeName, List.mem_flatMap.mpr ⟨part, hpart, hname⟩, hfound⟩

theorem isSome_ownMethod?_iff {c : ClassEntry} {name : String} :
    (ownMethod? ix c name).isSome = true ↔
      sitesOf ix c name ≠ [] ∨
        ∃ part ∈ ix.partsOf c, part.methods.any (ix.sameName · name) = true := by
  rw [← not_iff_not, Bool.not_eq_true, Option.isSome_eq_false_iff, Option.isNone_iff_eq_none,
    ownMethod?_eq_none_iff]
  simp only [declaresAt_iff]
  -- a path at which the method is declared is that of a site or of a part that lists it
  constructor
  · rintro hnot (hsites | ⟨part, hpart, hlists⟩)
    · obtain ⟨site, hsite⟩ := List.exists_mem_of_ne_nil _ hsites
      exact hnot site.path (.inl ⟨site, hsite, rfl⟩)
    · exact hnot part.path (.inr ⟨part, hpart, hlists, rfl⟩)
  · rintro hnot path (⟨site, hsite, -⟩ | ⟨part, hpart, hlists, -⟩)
    · exact hnot (.inl (List.ne_nil_of_mem hsite))
    · exact hnot (.inr ⟨part, hpart, hlists⟩)

section

variable (hix : ix.Consistent) (hcs : ix.language = .csharp)
include hix hcs

theorem mem_partsOf_of_seesAll {c d : ClassEntry} (hc : c ∈ ix.classes) (hsees : SeesAll ix c) :
    d ∈ ix.partsOf c ↔ d ∈ ix.classes ∧ SameClass d c := by
  constructor
  · intro hd
    rcases (mem_partsOf hix hcs).mp hd with rfl | ⟨hd, hsame, -⟩
    · exact ⟨hc, rfl, rfl⟩
    · exact ⟨hd, hsame⟩
  · rintro ⟨hd, hsame⟩
    exact hsees d hd hsame

/-- What a class declares itself is the same from every entry that sees all of it. -/
theorem isSome_ownMethod?_eq {c c' : ClassEntry} (hc : c ∈ ix.classes) (hc' : c' ∈ ix.classes)
    (hsame : SameClass c c') (hsees : SeesAll ix c) (hsees' : SeesAll ix c') (name : String) :
    (ownMethod? ix c name).isSome = true ↔ (ownMethod? ix c' name).isSome = true := by
  -- to see all is to see the same, since both belong to one class
  have hparts : ∀ d, d ∈ ix.partsOf c ↔ d ∈ ix.partsOf c' := by
    intro d
    rw [mem_partsOf_of_seesAll hix hcs hc hsees, mem_partsOf_of_seesAll hix hcs hc' hsees']
    exact and_congr_right fun _ => ⟨fun h => h.trans hsame, fun h => h.trans hsame.symm⟩
  rw [isSome_ownMethod?_iff, isSome_ownMethod?_iff, sitesOf_eq hix hcs hc hc' hsame]
  refine or_congr_right (exists_congr fun part => ?_)
  rw [hparts]

theorem isSome_methodInChain?_of_seesAll (hnames : NamesQualified ix) {c : ClassEntry}
    (hc : c ∈ ix.classes) (hsees : SeesAll ix c) (name : String) :
    (methodInChain? ix c name).isSome = true ↔
      (ownMethod? ix c name).isSome = true ∨ LeadsAbove ix c name := by
  rw [isSome_methodInChain?_iff hix hnames (foremost_of_seesAll hix hcs hnames hc hsees)]
  refine or_congr_right ⟨?_, ?_⟩
  · rintro ⟨parent, hparent, hfound⟩
    obtain ⟨part, hpart, typeName, hname, hclass⟩ := mem_parentsOf.mp hparent
    obtain ⟨hpart, hsame⟩ := (mem_partsOf_of_seesAll hix hcs hc hsees).mp hpart
    exact ⟨part, hpart, hsame, typeName, hname, parent, hclass, hfound⟩
  · rintro ⟨d, hd, hsame, typeName, hname, parent, hclass, hfound⟩
    exact ⟨parent, mem_parentsOf.mpr ⟨d, hsees d hd hsame, typeName, hname, hclass⟩, hfound⟩

end

/--
**When the declarations of a partial class are interchangeable.** In a C# index, take two entries of
one class. Both have the same sites of a method, so a method that any file of the class declares is
found from both. If both see all declarations of the class, a method is found from both or from
neither, unless the class does not declare it and the names of the parents lead to it from the file
of one entry only.
-/
theorem methodInChain?_interchange {r : Repository} {entries : List Index.Entry}
    (hix : ix = .ofEntries .csharp r entries)
    (hnames : ∀ x, Index.Entry.declared x ∈ entries → ∀ c ∈ x.classes,
      c.name = simpleName c.qualifiedName)
    {c c' : ClassEntry} (hc : c ∈ ix.classes) (hc' : c' ∈ ix.classes) (hsame : SameClass c c')
    (name : String) :
    sitesOf ix c name = sitesOf ix c' name ∧
      (SeesAll ix c → SeesAll ix c' →
        (((methodInChain? ix c name).isSome = true ↔ (methodInChain? ix c' name).isSome = true) ↔
          (ownMethod? ix c name).isSome = true ∨
            (LeadsAbove ix c name ↔ LeadsAbove ix c' name))) := by
  subst hix
  have hix := Index.consistent_ofEntries .csharp r entries
  have hcs := Index.language_ofEntries .csharp r entries
  have hqualified : NamesQualified (.ofEntries .csharp r entries) := namesQualified_ofEntries hnames
  refine ⟨sitesOf_eq hix hcs hc hc' hsame name, fun hsees hsees' => ?_⟩
  -- both searches split alike, and the first half is the same for both
  rw [isSome_methodInChain?_of_seesAll hix hcs hqualified hc hsees,
    isSome_methodInChain?_of_seesAll hix hcs hqualified hc' hsees',
    ← isSome_ownMethod?_eq hix hcs hc hc' hsame hsees hsees']
  tauto

/--
The classes of files that were extracted have the last part of their qualified names as names.
-/
theorem names_of_extracted {entries : List Index.Entry}
    (h : ∀ x, Index.Entry.declared x ∈ entries → ∃ path text tree,
      extract .csharp path text tree = .ok x
        ∧ Extract.CSharp.HasSimpleNames (.ofString text) tree) :
    ∀ x, Index.Entry.declared x ∈ entries → ∀ c ∈ x.classes,
      c.name = simpleName c.qualifiedName := by
  intro x hx
  obtain ⟨path, text, tree, hextract, hnames⟩ := h x hx
  exact Extract.CSharp.extract_qualifiedNames hextract hnames

/-! ## A class in two files

`Repo` is declared in two places at least, and one declaration says that it extends `Base`, which
has a method `Close`. -/

/-- The search from a class with one parent that has no parents itself. -/
theorem methodInChain?_of_one_parent {c parent : ClassEntry} {name : String} (hc : c ∈ ix.classes)
    (hparent : parent ∈ ix.classes) (hkey : parent.searchKey ≠ c.searchKey)
    (hown : ownMethod? ix c name = none) (hup : parentsOf ix c = [parent])
    (htop : parentsOf ix parent = []) : methodInChain? ix c name = ownMethod? ix parent name := by
  have hunseen : c.searchKey ∈ ix.classes.map ClassEntry.searchKey := List.mem_map_of_mem hc
  -- the parent has another key and is still to be visited
  have hleft : parent.searchKey ∈
      withoutKey c.searchKey (ix.classes.map ClassEntry.searchKey) :=
    List.mem_filter.mpr ⟨List.mem_map_of_mem hparent, bne_iff_ne.mpr hkey⟩
  rw [methodInChain?, searchMethod, dif_pos hunseen, hown, hup, List.append_nil]
  dsimp only
  rw [searchMethod, dif_pos hleft, htop]
  cases ownMethod? ix parent name with
  | none =>
    rw [List.append_nil]
    dsimp only
    rw [searchMethod]
  | some path => rfl

def partIndex (entries : List Index.Entry) : Index :=
  .ofEntries .csharp (.ofSources [] []) entries

open Tree (rule) in
/-- The tree of a file with the class `Base` and its method `Close`. -/
def baseTree : Tree :=
  rule "compilation_unit" none 0 26
    [rule "class_declaration" none 0 26
      [rule "identifier" (some "name") 6 10 [],
       rule "declaration_list" (some "body") 10 26
        [rule "method_declaration" none 11 25
          [rule "identifier" (some "name") 16 21 [],
           rule "parameter_list" (some "parameters") 21 23 [],
           rule "block" (some "body") 23 25 []]]]]

open Tree (rule) in
/-- The tree of a file that declares `Repo` with nothing in it, with a list of bases or without. -/
def partTree (bases : List Tree) (stop : Nat) : Tree :=
  rule "compilation_unit" none 0 (stop + 2)
    [rule "class_declaration" none 0 (stop + 2)
      (rule "modifier" none 0 7 [] :: rule "identifier" (some "name") 14 18 [] :: bases
        ++ [rule "declaration_list" (some "body") stop (stop + 2) []])]

open Tree (rule) in
/-- Three files with their trees, one declaration in each. -/
def partSources : List (String × String × Tree) :=
  [("Base.cs", "class Base\x7bvoid Close()\x7b\x7d\x7d", baseTree),
   ("Repo.cs", "partial class Repo:Base\x7b\x7d",
      partTree [rule "base_list" none 18 23 [rule "identifier" none 19 23 []]] 23),
   ("Repo.Save.cs", "partial class Repo\x7b\x7d", partTree [] 18)]

/-- What is extracted from these files. -/
def twoFiles : List Index.Entry :=
  partSources.map fun (path, text, tree) =>
    .declared (Extract.CSharp.extract path (.ofString text) tree)

def extractedBase : ClassEntry :=
  { name := "Base", qualifiedName := "Base", path := "Base.cs", kind := .cls, methods := ["Close"]
    superclass := none, interfaces := [] }

def extractedPart (path : String) (superclass : Option String) : ClassEntry :=
  { name := "Repo", qualifiedName := "Repo", path, kind := .cls, superclass, interfaces := []
    methods := [] }

/-- With one declaration in each file, `Close` is found from both. -/
theorem methodInChain?_interchange_twoFiles :
    let loader := extractedPart "Repo.cs" (some "Base")
    let saver := extractedPart "Repo.Save.cs" none
    (∀ c ∈ [loader, saver], c ∈ (partIndex twoFiles).classes)
      ∧ methodInChain? (partIndex twoFiles) loader "Close" = some "Base.cs"
      ∧ (methodInChain? (partIndex twoFiles) saver "Close").isSome = true := by
  intro loader saver
  have hnames : ∀ x, Index.Entry.declared x ∈ twoFiles → ∀ c ∈ x.classes,
      c.name = simpleName c.qualifiedName := by
    refine names_of_extracted fun x hx => ?_
    obtain ⟨⟨path, text, tree⟩, hsource, heq⟩ := List.mem_map.mp hx
    cases heq
    -- each file has a C# root, and no class with a dot in its name
    have hsources : ∀ source ∈ partSources, source.2.2.kind = "compilation_unit"
        ∧ Extract.CSharp.HasSimpleNames (.ofString source.2.1) source.2.2 := by
      unfold Extract.CSharp.HasSimpleNames
      decide +kernel
    obtain ⟨hkind, hsimple⟩ := hsources _ hsource
    exact ⟨path, text, tree, if_neg (by rw [hkind]; decide), hsimple⟩
  have hclasses : ∀ c ∈ [loader, saver], c ∈ (partIndex twoFiles).classes := by decide +kernel
  have hbase : methodInChain? (partIndex twoFiles) extractedBase "Close" = some "Base.cs" := by
    rw [methodInChain?_of_parentsOf_eq_nil (by decide +kernel) (by decide +kernel)]
    decide +kernel
  have hloader : methodInChain? (partIndex twoFiles) loader "Close" = some "Base.cs" := by
    rw [methodInChain?_of_one_parent (by decide +kernel) (by decide +kernel) (by decide +kernel)
      (by decide +kernel) (by decide +kernel : _ = [extractedBase]) (by decide +kernel)]
    decide +kernel
  -- the name `Base` is read alike in both files
  have hleads : ∀ c, SameClass loader c →
      findClass? (partIndex twoFiles) (classScope (partIndex twoFiles) c) "Base" =
          some extractedBase →
        LeadsAbove (partIndex twoFiles) c "Close" := by
    intro c hsame hfound
    refine ⟨loader, by decide +kernel, hsame, "Base", by decide +kernel, extractedBase, hfound, ?_⟩
    rw [hbase]
    rfl
  -- each file has one declaration, so no other one is hidden in it
  have hsees : SeesAll (partIndex twoFiles) loader ∧ SeesAll (partIndex twoFiles) saver := by
    unfold SeesAll SameClass
    decide +kernel
  have hinterchange := (@methodInChain?_interchange (partIndex twoFiles) _ _ rfl hnames loader
    saver (hclasses _ (by decide)) (hclasses _ (by decide)) ⟨rfl, rfl⟩ "Close").2 hsees.1 hsees.2
  have hboth := hinterchange.mpr (.inr (iff_of_true (hleads _ ⟨rfl, rfl⟩ (by decide +kernel))
    (hleads _ ⟨rfl, rfl⟩ (by decide +kernel))))
  refine ⟨hclasses, hloader, hboth.mp ?_⟩
  rw [hloader]
  rfl

def repoClass (parent : Option String) (methods : List String) : ClassDecl :=
  { name := "Repo", qualifiedName := "App.Repo", kind := .cls, visibility := .pub
    superclass := parent, methods }

def baseClass (namespaceName : String) (methods : List String) : ClassDecl :=
  { name := "Base", qualifiedName := namespaceName ++ ".Base", kind := .cls, visibility := .pub
    methods }

def partFile (path namespaceName : String) (classes : List ClassDecl) : Index.Entry :=
  .declared { path, namespaceName := some namespaceName, classes }

/-- Two declarations in one of the files. -/
def twoInOneFile : List Index.Entry :=
  [partFile "Base.cs" "App" [baseClass "App" ["Close"]],
   partFile "Repo.Save.cs" "App" [repoClass none ["Save"]],
   partFile "Repo.cs" "App" [repoClass none ["Load"], repoClass (some "Base") []]]

/-- A file of another namespace, which has a `Base` of its own. -/
def twoNamespaces : List Index.Entry :=
  [partFile "Base.cs" "App" [baseClass "App" ["Close"]],
   partFile "Repo.cs" "App" [repoClass (some "Base") ["Load"]],
   partFile "Tools.cs" "App.Tools" [baseClass "App.Tools" [], repoClass none ["Save"]]]

def loader : ClassEntry :=
  .ofDecl "Repo.cs" (repoClass (some "Base") ["Load"])

def saver (path : String) : ClassEntry :=
  .ofDecl path (repoClass none ["Save"])

def base : ClassEntry :=
  .ofDecl "Base.cs" (baseClass "App" ["Close"])

/-- The declaration of `Repo` that stands first in a file with two. -/
def firstLoader : ClassEntry :=
  .ofDecl "Repo.cs" (repoClass none ["Load"])

/-- `Close` is not found from a declaration whose file has another one that names the parent, nor
from a file that takes the name of the parent for another class. -/
theorem methodInChain?_depends_on_part :
    ((∀ c ∈ [firstLoader, saver "Repo.Save.cs"], c ∈ (partIndex twoInOneFile).classes) ∧
        methodInChain? (partIndex twoInOneFile) firstLoader "Close" = none ∧
        methodInChain? (partIndex twoInOneFile) (saver "Repo.Save.cs") "Close" = some "Base.cs") ∧
      (∀ c ∈ [loader, saver "Tools.cs"], c ∈ (partIndex twoNamespaces).classes) ∧
        methodInChain? (partIndex twoNamespaces) loader "Close" = some "Base.cs" ∧
        methodInChain? (partIndex twoNamespaces) (saver "Tools.cs") "Close" = none := by
  -- in the first index the declaration beside it is hidden; in the second the name is misread
  refine ⟨⟨by decide +kernel, ?_, ?_⟩, by decide +kernel, ?_, ?_⟩
  · rw [methodInChain?_of_parentsOf_eq_nil (by decide +kernel) (by decide +kernel)]
    decide +kernel
  · rw [methodInChain?_of_one_parent (by decide +kernel) (by decide +kernel) (by decide +kernel)
      (by decide +kernel) (by decide +kernel : _ = [base]) (by decide +kernel)]
    decide +kernel
  · rw [methodInChain?_of_one_parent (by decide +kernel) (by decide +kernel) (by decide +kernel)
      (by decide +kernel) (by decide +kernel : _ = [base]) (by decide +kernel)]
    decide +kernel
  · rw [methodInChain?_of_one_parent (by decide +kernel) (by decide +kernel) (by decide +kernel)
      (by decide +kernel) (by decide +kernel : _ = [.ofDecl "Tools.cs" (baseClass "App.Tools" [])])
      (by decide +kernel)]
    decide +kernel

end SourceAtlas.Resolve
