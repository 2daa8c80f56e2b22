import SourceAtlas.Index.Basic
import SourceAtlas.Proofs.Dict
import SourceAtlas.Proofs.Model.FirstSeen

/-!
# The reference index: every path in it is that of a registered file

Look-ups in an index give class entries, method sites and files of namespaces. All of them carry
paths, and no path gets into an index but by the registration of its file. This is the invariant
`Index.Closed`. Registration is a run of steps, and what all of them keep is told by
`add_induction`:

* the invariant holds at the start and each registration keeps it (`Closed.start`, `Closed.addFile`,
  `Closed.add`);
* every look-up of a closed index gives registered paths (`Closed.classesNamed`,
  `Closed.classQualified?`, `Closed.methodSites`, `Closed.filesInNamespace`).

Which files are registered is told by `mem_files_addFile` and `mem_files_add`.
-/

namespace SourceAtlas

namespace Index

/-- Every path that an index refers to is that of a registered file. -/
structure Closed (ix : Index) : Prop where
  classes : ∀ c ∈ ix.classes, c.path ∈ ix.files
  sites : ∀ name sites, ix.sitesByName.find? name = some sites → ∀ s ∈ sites, s.path ∈ ix.files
  namespaces : ∀ name files, ix.filesByNamespace.find? name = some files → ∀ p ∈ files, p ∈ ix.files

/-! ## What registering a class changes

The qualified names and the member types of a class are entered one after another. Neither touches
anything that carries a path, so all that matters of `addClass` is said by `addClass_eq`. -/

theorem foldl_addQualified_eq (slot : Nat) (names : List String) (ix : Index) :
    ∃ d, names.foldl (fun ix q => ix.addQualified slot q) ix
      = { ix with slotByQualified := d } := by
  induction names generalizing ix with
  | nil => exact ⟨ix.slotByQualified, rfl⟩
  | cons q names ih =>
    obtain ⟨d, hd⟩ := ih (ix.addQualified slot q)
    exact ⟨d, hd⟩

/-- Registering a class adds its entry. -/
theorem addClass_eq (x : Extraction) (ix : Index) (c : ClassDecl) :
    ∃ slots qualified members, addClass x ix c = { ix with
      classes := ix.classes ++ [.ofDecl x.path c]
      slotsByName := slots
      slotByQualified := qualified
      memberTypes := members } := by
  unfold addClass
  simp only
  -- the qualified names are entered after the class, in a table of their own
  obtain ⟨d, hd⟩ := foldl_addQualified_eq ix.classes.length (ix.qualifiedNames x c)
    { ix with
      classes := ix.classes ++ [.ofDecl x.path c]
      slotsByName := ix.slotsByName.update (ix.key c.name) (·.getD [] ++ [ix.classes.length]) }
  rw [hd]
  split
  · exact ⟨_, d, _, rfl⟩
  · exact ⟨_, d, _, rfl⟩

/-! ## Registration step by step

Registering what a file declares registers the file, then its namespace, its classes and its
functions. What the first step establishes and the others keep holds in the end. -/

theorem add_induction {motive : Index → Prop} (ix : Index) (x : Extraction)
    (file : motive (ix.addFile x.path))
    (inNamespace : ∀ ix ns, motive ix → motive (ix.addNamespace x.path ns))
    (ofClass : ∀ ix c, motive ix → motive (addClass x ix c))
    (ofFunction : ∀ ix f, motive ix → motive (addFunction x.path ix f)) : motive (ix.add x) := by
  unfold add
  -- a file without a namespace skips the second step
  have hns : motive (((ix.addFile x.path).namespaceFor x).elim (ix.addFile x.path)
      ((ix.addFile x.path).addNamespace x.path)) := by
    cases (ix.addFile x.path).namespaceFor x with
    | none => exact file
    | some ns => exact inNamespace _ ns file
  have hclasses := List.foldlRecOn x.classes (addClass x) (motive := motive) hns
    fun ix hix c _ => ofClass ix c hix
  exact List.foldlRecOn x.functions (addFunction x.path) (motive := motive) hclasses
    fun ix hix f _ => ofFunction ix f hix

/-! ## Which files are registered -/

theorem mem_files_addFile {ix : Index} {path p : String} :
    p ∈ (ix.addFile path).files ↔ p ∈ ix.files ∨ p = path :=
  mem_addNew

theorem files_addClass (x : Extraction) (ix : Index) (c : ClassDecl) :
    (addClass x ix c).files = ix.files := by
  obtain ⟨slots, qualified, members, heq⟩ := addClass_eq x ix c
  rw [heq]

/-- Registering what a file declares registers the file and no other. -/
theorem mem_files_add {ix : Index} {x : Extraction} {p : String} :
    p ∈ (ix.add x).files ↔ p ∈ ix.files ∨ p = x.path := by
  have hfiles : (ix.add x).files = (ix.addFile x.path).files :=
    add_induction (motive := fun ix' => ix'.files = (ix.addFile x.path).files) ix x rfl
      (fun _ _ hix => hix) (fun ix' c hix => (files_addClass x ix' c).trans hix)
      (fun _ _ hix => hix)
  rw [hfiles]
  exact mem_files_addFile

/-- Registration leaves the language and the repository of an index. -/
theorem language_repository_add (ix : Index) (x : Extraction) :
    (ix.add x).language = ix.language ∧ (ix.add x).repository = ix.repository := by
  refine add_induction
    (motive := fun ix' => ix'.language = ix.language ∧ ix'.repository = ix.repository) ix x
    ⟨rfl, rfl⟩ (fun _ _ hix => hix) ?_ (fun _ _ hix => hix)
  intro ix' c hix
  obtain ⟨slots, qualified, members, heq⟩ := addClass_eq x ix' c
  rw [heq]
  exact hix

/-! ## Registration keeps an index closed -/

namespace Closed

variable {ix : Index}

theorem start (language : Language) (repository : Repository) :
    (Index.start language repository).Closed where
  classes := by simp [Index.start]
  sites := by simp [Index.start]
  namespaces := by simp [Index.start]

/-- More registered files do no harm. -/
theorem addFile (h : ix.Closed) (path : String) : (ix.addFile path).Closed where
  classes c hc := mem_files_addFile.mpr (Or.inl (h.classes c hc))
  sites name sites hfind s hs := mem_files_addFile.mpr (Or.inl (h.sites name sites hfind s hs))
  namespaces name files hfind p hp :=
    mem_files_addFile.mpr (Or.inl (h.namespaces name files hfind p hp))

theorem addNamespace (h : ix.Closed) {path : String} (hpath : path ∈ ix.files) (ns : String) :
    (ix.addNamespace path ns).Closed where
  classes := h.classes
  sites := h.sites
  namespaces := Dict.forall_mem_update h.namespaces fun p hp => by
    -- the files of the namespace are those before and the new one
    rcases mem_addNew.mp hp with hp | rfl
    · exact Or.inl hp
    · exact Or.inr hpath

theorem addClass (h : ix.Closed) {x : Extraction} (hpath : x.path ∈ ix.files) (c : ClassDecl) :
    (addClass x ix c).Closed := by
  obtain ⟨slots, qualified, members, heq⟩ := addClass_eq x ix c
  rw [heq]
  refine ⟨?_, h.sites, h.namespaces⟩
  intro entry hentry
  rcases List.mem_append.mp hentry with hentry | hentry
  · exact h.classes entry hentry
  · rw [List.mem_singleton.mp hentry]
    exact hpath

theorem addFunction (h : ix.Closed) {path : String} (hpath : path ∈ ix.files)
    (f : FunctionDecl) : (addFunction path ix f).Closed where
  classes := h.classes
  namespaces := h.namespaces
  sites := Dict.forall_mem_update h.sites fun s hs => by
    rcases List.mem_append.mp hs with hs | hs
    · exact Or.inl hs
    · rw [List.mem_singleton.mp hs]
      exact Or.inr hpath

/-- **Registration keeps an index closed.** The file comes first, so everything registered after it
has a registered path. -/
theorem add (h : ix.Closed) (x : Extraction) : (ix.add x).Closed := by
  -- the steps need that the file itself is registered
  refine (add_induction (motive := fun ix' => ix'.Closed ∧ x.path ∈ ix'.files) ix x
    ⟨h.addFile x.path, mem_files_addFile.mpr (Or.inr rfl)⟩ ?_ ?_ ?_).1
  · exact fun _ ns hix => ⟨hix.1.addNamespace hix.2 ns, hix.2⟩
  · intro ix' c hix
    refine ⟨hix.1.addClass hix.2 c, ?_⟩
    rw [files_addClass]
    exact hix.2
  · exact fun _ f hix => ⟨hix.1.addFunction hix.2 f, hix.2⟩

/-! ## Look-ups in a closed index -/

theorem classesNamed (h : ix.Closed) {name : String} {c : ClassEntry}
    (hc : c ∈ ix.classesNamed name) : c.path ∈ ix.files := by
  -- a slot is a position in the list of classes
  obtain ⟨slot, -, hslot⟩ := List.mem_filterMap.mp hc
  exact h.classes c (List.mem_of_getElem? hslot)

theorem classQualified? (h : ix.Closed) {qualified : String} {c : ClassEntry}
    (hc : ix.classQualified? qualified = some c) : c.path ∈ ix.files := by
  obtain ⟨slot, -, hslot⟩ := Option.bind_eq_some_iff.mp hc
  exact h.classes c (List.mem_of_getElem? hslot)

theorem methodSites (h : ix.Closed) {name : String} {s : MethodSite}
    (hs : s ∈ ix.methodSites name) : s.path ∈ ix.files :=
  Dict.of_mem_getD_find? h.sites hs

theorem filesInNamespace (h : ix.Closed) {ns p : String}
    (hp : p ∈ ix.filesInNamespace ns) : p ∈ ix.files :=
  Dict.of_mem_getD_find? h.namespaces hp

/-- The parts of a registered class are registered. -/
theorem partsOf (h : ix.Closed) {c part : ClassEntry} (hc : c.path ∈ ix.files)
    (hpart : part ∈ ix.partsOf c) : part.path ∈ ix.files := by
  rcases List.mem_cons.mp hpart with rfl | hpart
  · exact hc
  · exact h.classesNamed (List.mem_filter.mp hpart).1

end Closed

end Index

end SourceAtlas
