import SourceAtlas.Proofs.Build.CallIntegrity
import SourceAtlas.Proofs.Build.Pathwise
import SourceAtlas.Proofs.Resolve.View

/-!
# Builds: what they take from the repository

A repository has paths and texts. The outcome of a language depends on all the paths, but only on
few texts: those of the files that are extracted, and those of the module files of the language
(`outcome_congr`). A whole build reads texts at known paths only, where it counts lines and takes
stock of the manifests as well (`process_congr`).
-/

namespace SourceAtlas

/-- Two repositories look the same to a language with files at some paths. -/
structure Repository.SameFor (l : Language) (paths : List String) (r r' : Repository) : Prop
    extends Repository.SameModules l r r' where
  sources : ∀ path ∈ paths, r'.read? path = r.read? path

/-- Two repositories have the same paths, and the same texts at them. -/
structure Repository.SameContents (r r' : Repository) : Prop where
  known : r'.known = r.known
  texts : ∀ path, r.contains path = true → r'.read? path = r.read? path

theorem Repository.SameContents.sameFor {r r' : Repository} (h : r.SameContents r') {l : Language}
    {paths : List String} (hpaths : ∀ path ∈ paths, r.contains path = true) :
    r.SameFor l paths r' where
  known := h.known
  texts path hpath _ := h.texts path hpath
  sources path hpath := h.texts path (hpaths path hpath)

namespace Builder

/-! ## One language -/

section Outcome

variable {b : Builder} {r r' : Repository} {l : Language} {paths : List String}

theorem readFiles_congr (h : ∀ path ∈ paths, r'.read? path = r.read? path) :
    b.readFiles r' paths = b.readFiles r paths := by
  unfold readFiles
  refine List.filterMap_congr fun path hpath => ?_
  rw [h path hpath]

theorem repository_indexOf (l : Language) (r : Repository) (parsed : List ParsedFile) :
    (indexOf l r parsed).repository = r := by
  rw [indexOf_eq_ofEntries]
  exact Index.repository_ofEntries l r _

theorem indexOf_withRepository (h : r.SameModules l r') (parsed : List ParsedFile) :
    indexOf l r' parsed = (indexOf l r parsed).withRepository r' := by
  rw [indexOf_eq_ofEntries, indexOf_eq_ofEntries]
  exact Index.ofEntries_withRepository h _

theorem record_withRepository {ix : Index} (hknown : r'.known = ix.repository.known) :
    record (ix.withRepository r') = record ix := by
  funext x lines
  unfold record
  rw [Resolve.resolve_withRepository hknown]

/-- **The outcome of a language depends on few texts**: those of its own files and of its module
files. -/
theorem outcome_congr (h : r.SameFor l paths r') : b.outcome r' l paths = b.outcome r l paths := by
  have hunread : (paths.filter fun path => (r'.read? path).isNone) =
      paths.filter fun path => (r.read? path).isNone := by
    refine List.filter_congr fun path hpath => ?_
    rw [h.sources path hpath]
  have hrecord : ∀ parsed, record (indexOf l r' parsed) = record (indexOf l r parsed) := by
    intro parsed
    rw [indexOf_withRepository h.toSameModules]
    refine record_withRepository ?_
    rw [repository_indexOf]
    exact h.known
  unfold outcome parsedFiles
  rw [readFiles_congr h.sources, hunread, hrecord]

end Outcome

/-! ## The whole build -/

section Process

variable {b : Builder} {r r' : Repository} {s : Selection}

theorem inventory_congr (h : r.SameContents r') :
    Inventory.ofRepository r' = Inventory.ofRepository r := by
  have hmanifests : Inventory.manifests r' = Inventory.manifests r := by
    unfold Inventory.manifests
    rw [Repository.paths_congr h.known]
  -- a manifest is one of the known paths
  have hread : ∀ manifest ∈ Inventory.manifests r, r'.read? manifest.1 = r.read? manifest.1 := by
    intro manifest hmanifest
    obtain ⟨path, hpath, hkind⟩ := List.mem_filterMap.mp hmanifest
    obtain ⟨kind, -, rfl⟩ := Option.map_eq_some_iff.mp hkind
    exact h.texts path (Dict.contains_iff_mem_keys.mpr hpath)
  unfold Inventory.ofRepository
  rw [hmanifests]
  congr 1
  · refine List.map_congr_left fun manifest hmanifest => ?_
    dsimp only
    rw [hread manifest hmanifest]
  · refine List.flatMap_congr fun manifest hmanifest => ?_
    dsimp only
    unfold Inventory.dependenciesOf
    rw [hread manifest hmanifest]

/-- **A build depends on the texts of known paths only**, if what it extracts is known. -/
theorem process_congr (h : r.SameContents r')
    (haccepted : ∀ l path, (l, path) ∈ s.accepted → r.contains path = true) (name : String) :
    b.process name r' s = b.process name r s := by
  have hpaths : ∀ l, ∀ path ∈ Selection.pathsOf l s.accepted, r.contains path = true :=
    fun l path hpath => haccepted l path (Selection.mem_pathsOf.mp hpath)
  have houtcomes : b.outcomes r' s = b.outcomes r s := by
    unfold outcomes
    refine List.map_congr_left fun l _ => ?_
    unfold outcomeOf
    rw [outcome_congr (h.sameFor (hpaths l))]
  have hhashes : b.hashes r' s = b.hashes r s := by
    unfold hashes
    congr 1
    refine List.flatMap_congr fun l _ => ?_
    rw [readFiles_congr (h.sameFor (l := l) (hpaths l)).sources]
  -- lines are counted anew in the texts of the recorded files
  have hlines : ∀ file ∈ (b.outcomes r s).flatMap (·.files),
      Merge.linesOf r' file = Merge.linesOf r file := by
    intro file hfile
    obtain ⟨o, ho, hfile⟩ := List.mem_flatMap.mp hfile
    obtain ⟨l, -, rfl⟩ := List.mem_map.mp ho
    have hknown := hpaths l file.path (path_mem_of_mem_outcome b r l _ hfile)
    unfold Merge.linesOf
    rw [h.texts file.path hknown]
  unfold process outputOf Merge.document
  dsimp only
  rw [houtcomes, hhashes, inventory_congr h, total_congr hlines]

/-- Whether the pool breaks down depends on which of the known paths have a text. -/
theorem breaksDown_sameContents (h : r.SameContents r')
    (haccepted : ∀ l path, (l, path) ∈ s.accepted → r.contains path = true) :
    b.breaksDown r' s = b.breaksDown r s := by
  refine breaksDown_congr rfl fun l => List.countP_congr fun path hpath => ?_
  rw [h.texts path (haccepted l path (Selection.mem_pathsOf.mp hpath))]

end Process

end Builder

end SourceAtlas
