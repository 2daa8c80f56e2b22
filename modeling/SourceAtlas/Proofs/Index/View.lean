import SourceAtlas.Proofs.Index.History

/-!
# The reference index: what it takes from the repository

An index keeps the repository that its files come from. It reads texts there once, before any file
is registered, and only those of module files: the `go.mod` files for Go, and the two configurations
at the root for scripts. After that the repository is carried along.

* `start_withRepository`: repositories with the same paths and the same texts of module files make
  indexes that differ in the repository only;
* `ofEntries_withRepository`: and so they do after any registrations;
* `goModules_ofEntries`, `scriptPaths_ofEntries`: what was read at the start stays.
-/

namespace SourceAtlas

/-- Whether a file of the repository tells how files of a language import each other. -/
def Language.IsModuleFile (l : Language) (path : String) : Prop :=
  l = .go ∧ RepoPath.baseName path = "go.mod"
    ∨ l = .typescript ∧ (path = "tsconfig.json" ∨ path = "jsconfig.json")

/-- Two repositories have the same paths, and module files of a language have the same texts. -/
structure Repository.SameModules (l : Language) (r r' : Repository) : Prop where
  known : r'.known = r.known
  texts : ∀ path, r.contains path = true → l.IsModuleFile path → r'.read? path = r.read? path

/-! ## Module files -/

section ModuleFiles

variable {r r' : Repository}

theorem Repository.paths_congr (h : r'.known = r.known) : r'.paths = r.paths := by
  unfold paths
  rw [h]

theorem Repository.contains_congr (h : r'.known = r.known) : r'.contains = r.contains := by
  funext path
  unfold contains
  rw [h]

/-- Repositories that know the same paths keep them alike. -/
theorem Repository.known_ext (h : ∀ path, r'.contains path = true ↔ r.contains path = true) :
    r'.known = r.known := by
  refine Dict.ext_find? fun path => ?_
  have hpath := h path
  unfold contains at hpath
  rw [Dict.contains_eq_isSome_find?, Dict.contains_eq_isSome_find?] at hpath
  -- the keys are all there is to compare, for nothing is stored under them
  cases hfind : r.known.find? path with
  | none => simpa [hfind] using hpath
  | some u =>
    rw [hfind] at hpath
    obtain ⟨u', hfind'⟩ := Option.isSome_iff_exists.mp (hpath.mpr rfl)
    exact hfind'

theorem GoModule.ofRepository_congr (h : r.SameModules .go r') :
    ofRepository r' = ofRepository r := by
  have hnamed : r'.named "go.mod" = r.named "go.mod" := by
    unfold Repository.named
    rw [Repository.paths_congr h.known]
  unfold ofRepository
  rw [hnamed]
  refine List.filterMap_congr fun path hpath => ?_
  -- each of these paths is known and is that of a module file
  obtain ⟨hknown, hname⟩ := List.mem_filter.mp hpath
  have hread := h.texts path (Dict.contains_iff_mem_keys.mpr hknown)
    (Or.inl ⟨rfl, beq_iff_eq.mp hname⟩)
  rw [hread]

theorem ScriptPaths.ofRepository?_congr (h : r.SameModules .typescript r') :
    ofRepository? r' = ofRepository? r := by
  unfold ofRepository?
  rw [Repository.contains_congr h.known]
  have hread : ∀ name ∈ ["tsconfig.json", "jsconfig.json"].filter r.contains,
      r'.read? name = r.read? name := by
    intro name hname
    obtain ⟨hlisted, hknown⟩ := List.mem_filter.mp hname
    refine h.texts name hknown (Or.inr ⟨rfl, ?_⟩)
    simpa using hlisted
  -- the first configuration that can be read counts, so the names are gone through in turn
  generalize ["tsconfig.json", "jsconfig.json"].filter r.contains = names at hread
  induction names with
  | nil => rfl
  | cons name names ih =>
    rw [List.findSome?_cons, List.findSome?_cons, hread name List.mem_cons_self,
      ih fun other hother => hread other (List.mem_cons_of_mem name hother)]

end ModuleFiles

namespace Index

/-! ## The same index over another repository -/

/-- The index with another repository. -/
def withRepository (ix : Index) (r : Repository) : Index :=
  { ix with repository := r }

theorem start_withRepository {l : Language} {r r' : Repository} (h : r.SameModules l r') :
    start l r' = (start l r).withRepository r' := by
  -- a language other than Go asks for no module
  have hgo : (if l = .go then GoModule.ofRepository r' else []) =
      if l = .go then GoModule.ofRepository r else [] := by
    split
    next hl =>
      subst hl
      exact GoModule.ofRepository_congr h
    next => rfl
  have hscript : (if l = .typescript then ScriptPaths.ofRepository? r' else none) =
      if l = .typescript then ScriptPaths.ofRepository? r else none := by
    split
    next hl =>
      subst hl
      exact ScriptPaths.ofRepository?_congr h
    next => rfl
  unfold start withRepository
  rw [hgo, hscript]

section Registration

variable (ix : Index) (r : Repository) (x : Extraction)

theorem foldl_addQualified_withRepository (slot : Nat) (names : List String) :
    names.foldl (fun ix q => ix.addQualified slot q) (ix.withRepository r) =
      (names.foldl (fun ix q => ix.addQualified slot q) ix).withRepository r := by
  induction names generalizing ix with
  | nil => rfl
  | cons q names ih => exact ih (ix.addQualified slot q)

theorem addClass_withRepository (c : ClassDecl) :
    addClass x (ix.withRepository r) c = (addClass x ix c).withRepository r := by
  -- the entry comes first, then the qualified names, then the members
  have hnames := foldl_addQualified_withRepository
    { ix with
      classes := ix.classes ++ [.ofDecl x.path c]
      slotsByName := ix.slotsByName.update (ix.key c.name) (·.getD [] ++ [ix.classes.length]) }
    r ix.classes.length (ix.qualifiedNames x c)
  have hlanguage : (ix.withRepository r).language = ix.language := rfl
  unfold addClass
  dsimp only
  rw [hlanguage]
  split
  next => exact congrArg (fun ix : Index => ix.addMembers c) hnames
  next => exact hnames

/-- Registering a file does not look at the repository. -/
theorem add_withRepository : (ix.withRepository r).add x = (ix.add x).withRepository r := by
  have hclasses : ∀ (cs : List ClassDecl) (ix : Index),
      cs.foldl (addClass x) (ix.withRepository r) =
        (cs.foldl (addClass x) ix).withRepository r := by
    intro cs
    induction cs with
    | nil => exact fun _ => rfl
    | cons c cs ih =>
      intro ix
      rw [List.foldl_cons, List.foldl_cons, addClass_withRepository, ih]
  have hfunctions : ∀ (fs : List FunctionDecl) (ix : Index),
      fs.foldl (addFunction x.path) (ix.withRepository r) =
        (fs.foldl (addFunction x.path) ix).withRepository r := by
    intro fs
    induction fs with
    | nil => exact fun _ => rfl
    | cons f fs ih => exact fun ix => ih (addFunction x.path ix f)
  -- the namespace is told by the declarations and the module files
  have hspace : ((ix.withRepository r).addFile x.path).namespaceFor x =
      (ix.addFile x.path).namespaceFor x := rfl
  unfold add
  dsimp only
  rw [hspace]
  cases (ix.addFile x.path).namespaceFor x with
  | none =>
    show List.foldl _ (List.foldl _ ((ix.addFile x.path).withRepository r) _) _ = _
    rw [hclasses, hfunctions]
    rfl
  | some ns =>
    show List.foldl _ (List.foldl _
      (((ix.addFile x.path).addNamespace x.path ns).withRepository r) _) _ = _
    rw [hclasses, hfunctions]
    rfl

end Registration

/-- **An index depends on the repository by its module files only.** -/
theorem ofEntries_withRepository {l : Language} {r r' : Repository} (h : r.SameModules l r')
    (entries : List Entry) :
    ofEntries l r' entries = (ofEntries l r entries).withRepository r' := by
  unfold ofEntries
  rw [start_withRepository h]
  generalize start l r = ix
  -- the index so far is general, and carries the repository through each step
  induction entries generalizing ix with
  | nil => rfl
  | cons entry entries ih =>
    have hstep : (ix.withRepository r').enter entry = (ix.enter entry).withRepository r' := by
      cases entry with
      | declared x => exact add_withRepository ix r' x
      | bare path => rfl
    rw [List.foldl_cons, List.foldl_cons, hstep, ih]

/-! ## What stays from the start -/

section Start

variable (l : Language) (r : Repository) (entries : List Entry)

theorem goModules_scriptPaths_add (ix : Index) (x : Extraction) :
    (ix.add x).goModules = ix.goModules ∧ (ix.add x).scriptPaths = ix.scriptPaths := by
  refine add_induction (motive := fun ix' => ix'.goModules = ix.goModules
    ∧ ix'.scriptPaths = ix.scriptPaths) ix x ⟨rfl, rfl⟩ (fun _ _ hix => hix) ?_ (fun _ _ hix => hix)
  intro ix' c hix
  obtain ⟨slots, qualified, members, heq⟩ := addClass_eq x ix' c
  rw [heq]
  exact hix

theorem goModules_ofEntries : (ofEntries l r entries).goModules = (start l r).goModules :=
  ofEntries_induction (motive := fun ix => ix.goModules = (start l r).goModules) rfl
    (fun _ _ hix => hix) (fun ix x hix => (goModules_scriptPaths_add ix x).1.trans hix) entries

theorem scriptPaths_ofEntries : (ofEntries l r entries).scriptPaths = (start l r).scriptPaths :=
  ofEntries_induction (motive := fun ix => ix.scriptPaths = (start l r).scriptPaths) rfl
    (fun _ _ hix => hix) (fun ix x hix => (goModules_scriptPaths_add ix x).2.trans hix) entries

end Start

end Index

end SourceAtlas
