import SourceAtlas.Proofs.Index.View
import SourceAtlas.Resolve.Call

/-!
# Resolution: what it takes from the repository

Calls are resolved by what the index has registered, and no step looks at the repository. Imports
look at the paths of the repository, and at no text.

* `resolveCall_withRepository`: a call leads to the same file whatever the repository is;
* `importTargets_congr`: imports that go by paths have the same files in repositories of the same
  paths, whatever is registered;
* `resolve_withRepository`: a file is resolved alike in repositories of the same paths.
-/

namespace SourceAtlas

/-- Whether the imports of a language lead to files by their paths, not by what files declare. -/
def Language.importsByPath : Language → Bool
  | .java | .csharp => false
  | .go | .python | .typescript | .apex => true

namespace Resolve

section Calls

variable (ix : Index) (r : Repository)

/-! ## The search through a hierarchy -/

-- The search recurses on the pending classes; each step asks the index for the methods and parents
-- of one class, and neither question reaches the repository.
theorem searchMethod_withRepository (name : String) (unseen : List ClassKey)
    (pending : List ClassEntry) :
    searchMethod (ix.withRepository r) name unseen pending =
      searchMethod ix name unseen pending := by
  have hown : ∀ c, ownMethod? (ix.withRepository r) c name = ownMethod? ix c name := fun _ => rfl
  have hparents : ∀ c, parentsOf (ix.withRepository r) c = parentsOf ix c := fun _ => rfl
  induction unseen, pending using searchMethod.induct ix name with
  | case1 unseen => rw [searchMethod, searchMethod]
  | case2 unseen c rest hmem path hfound =>
    rw [searchMethod, searchMethod, dif_pos hmem, dif_pos hmem, hown, hfound]
  | case3 unseen c rest hmem hnone ih =>
    rw [searchMethod, searchMethod, dif_pos hmem, dif_pos hmem, hown, hnone, hparents]
    exact ih
  | case4 unseen c rest hmem ih =>
    rw [searchMethod, searchMethod, dif_neg hmem, dif_neg hmem]
    exact ih

theorem methodInChain?_withRepository :
    methodInChain? (ix.withRepository r) = methodInChain? ix := by
  funext c name
  exact searchMethod_withRepository ix r name (ix.classes.map ClassEntry.searchKey) [c]

theorem memberOrClass_withRepository : memberOrClass (ix.withRepository r) = memberOrClass ix := by
  funext c name
  unfold memberOrClass
  rw [methodInChain?_withRepository]

/-! ## The steps of a call -/

variable (scope : Scope) (call : CallSite)

theorem throughBinding_withRepository (i : Import) (b : ImportBinding) (receiver name : String) :
    throughBinding (ix.withRepository r) i b receiver name =
      throughBinding ix i b receiver name := by
  unfold throughBinding
  rw [memberOrClass_withRepository]
  rfl

theorem qualified_withRepository :
    qualified (ix.withRepository r) scope call = qualified ix scope call := by
  -- of its two steps each asks for methods of classes, and for nothing else
  have hreceiver : ∀ receiver name,
      qualifiedReceiver (ix.withRepository r) scope receiver name =
        qualifiedReceiver ix scope receiver name := by
    intro receiver name
    unfold qualifiedReceiver
    rw [memberOrClass_withRepository]
    split
    · exact throughBinding_withRepository ix r _ _ receiver name
    · rfl
  have hunnamed : throughUnnamed? (ix.withRepository r) = throughUnnamed? ix := by
    funext name i
    unfold throughUnnamed?
    rw [methodInChain?_withRepository]
    rfl
  have himported : ∀ name,
      importedName (ix.withRepository r) scope name = importedName ix scope name := by
    intro name
    unfold importedName
    rw [hunnamed]
    rfl
  unfold qualified
  split
  · exact hreceiver _ call.name
  · exact himported call.name

theorem byReceiverType_withRepository :
    byReceiverType (ix.withRepository r) scope call = byReceiverType ix scope call := by
  have hon : onType (ix.withRepository r) = onType ix := by
    funext scope typeName name
    unfold onType
    rw [methodInChain?_withRepository]
    rfl
  unfold byReceiverType
  rw [hon, methodInChain?_withRepository]
  rfl

theorem byReceiverClass_withRepository :
    byReceiverClass (ix.withRepository r) scope call = byReceiverClass ix scope call := by
  unfold byReceiverClass
  rw [memberOrClass_withRepository]
  rfl

theorem unscoped?_withRepository :
    unscoped? (ix.withRepository r) scope call = unscoped? ix scope call := by
  unfold unscoped?
  rw [methodInChain?_withRepository]
  rfl

/-- **Calls do not look at the repository.** -/
theorem resolveCall_withRepository :
    resolveCall (ix.withRepository r) scope call = resolveCall ix scope call := by
  unfold resolveCall
  rw [qualified_withRepository, byReceiverType_withRepository, byReceiverClass_withRepository,
    unscoped?_withRepository]

end Calls

/-! ## Imports -/

section Imports

variable {ix ix' : Index}

/-- Imports that go by paths look at the known paths and at what was read from module files. -/
theorem importTargets_congr (hpath : ix.language.importsByPath = true)
    (hlanguage : ix'.language = ix.language)
    (hknown : ix'.repository.known = ix.repository.known)
    (hgo : ix'.goModules = ix.goModules) (hscript : ix'.scriptPaths = ix.scriptPaths)
    (importer : String) (i : Import) :
    importTargets ix' importer i = importTargets ix importer i := by
  have hcontains := Repository.contains_congr hknown
  have hpaths := Repository.paths_congr hknown
  unfold importTargets
  rw [hlanguage]
  cases hl : ix.language with
  | typescript =>
    -- whether a candidate is known is asked of the paths
    have hat : scriptAt? ix'.repository = scriptAt? ix.repository := by
      funext base
      unfold scriptAt?
      rw [hcontains]
    dsimp only
    unfold scriptTarget?
    rw [hat, hscript]
  | python =>
    have hat : pythonTargetsAt ix'.repository = pythonTargetsAt ix.repository := by
      funext i base
      unfold pythonTargetsAt
      rw [hcontains]
    dsimp only
    unfold pythonTargets
    rw [hat]
  | go =>
    have hin : goFilesIn ix'.repository = goFilesIn ix.repository := by
      funext m source
      unfold goFilesIn Repository.filesIn
      rw [hpaths]
    dsimp only
    unfold goTargets
    rw [hin, hgo]
  | apex => rfl
  | java =>
    rw [hl] at hpath
    cases hpath
  | csharp =>
    rw [hl] at hpath
    cases hpath

theorem resolveImport_congr (hpath : ix.language.importsByPath = true)
    (hlanguage : ix'.language = ix.language)
    (hknown : ix'.repository.known = ix.repository.known)
    (hgo : ix'.goModules = ix.goModules) (hscript : ix'.scriptPaths = ix.scriptPaths)
    (importer : String) : resolveImport ix' importer = resolveImport ix importer := by
  funext i
  unfold resolveImport
  rw [importTargets_congr hpath hlanguage hknown hgo hscript, hlanguage]

end Imports

/-! ## Whole files -/

section Files

variable {ix : Index} {r : Repository} (known : r.known = ix.repository.known)

include known

theorem resolveImport_withRepository (importer : String) :
    resolveImport (ix.withRepository r) importer = resolveImport ix importer := by
  cases hpath : ix.language.importsByPath with
  | true => exact @resolveImport_congr ix (ix.withRepository r) hpath rfl known rfl rfl importer
  | false =>
    -- Java and C# go by the registered classes and namespaces
    funext i
    have htargets :
        importTargets (ix.withRepository r) importer i = importTargets ix importer i := by
      have hlanguage : (ix.withRepository r).language = ix.language := rfl
      unfold importTargets
      rw [hlanguage]
      cases hl : ix.language with
      | java => rfl
      | csharp => rfl
      | typescript | python | go | apex => simp [hl, Language.importsByPath] at hpath
    unfold resolveImport
    rw [htargets]
    rfl

/-- **Files are resolved alike in repositories of the same paths.** -/
theorem resolve_withRepository (x : Extraction) :
    resolve (ix.withRepository r) x = resolve ix x := by
  have himports : resolveImport (ix.withRepository r) x.path = resolveImport ix x.path :=
    resolveImport_withRepository known x.path
  -- the calls are resolved with the imports of the file, which are the same
  have hcalls : resolveCall (ix.withRepository r) = resolveCall ix := by
    funext scope call
    exact resolveCall_withRepository ix r scope call
  unfold resolve
  rw [himports, hcalls]
  rfl

end Files

end Resolve

end SourceAtlas
