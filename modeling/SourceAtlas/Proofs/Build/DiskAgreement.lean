import SourceAtlas.Proofs.Build.OnDisk
import SourceAtlas.Proofs.Build.SourceOrder
import SourceAtlas.Proofs.Build.View

/-!
# Builds from a directory and from sources agree

There are two ways to a document: a directory is walked, or sources are given with their texts. Each
classifies files, compares sizes with the limit and keeps a set of known paths on its own. If the
walk yields the sources, the two come to the same (`run_agrees_ofSources`), be it that both break
down with the worker pool:

* **selection**: the same files are accepted and the same are too large (`selection_perm`);
* **repository**: the same paths are known, and the directory has the text of each (`sameContents`).
  It may have further files that were passed over, but a build does not read them (`process_congr`);
* **pool**: the same number of files is shared out, so the pool breaks down for both or for neither,
  which is told by counting the sources (`breaksDown_selected_iff`).
-/

namespace SourceAtlas

namespace Builder

/-! ## Sources in normal form -/

variable {sources : List (String × String)}
  (h : ∀ source ∈ sources, RepoPath.normal source.1 = source.1)

include h

theorem normalSources_eq_self : normalSources sources = sources := by
  refine Traversal.map_eq_self fun source hsource => ?_
  show (RepoPath.normal source.1, source.2) = source
  rw [h source hsource]

theorem storedTexts_eq_self : storedTexts sources = sources := by
  refine Traversal.map_eq_self fun source hsource => ?_
  show (RepoPath.normal (RepoPath.normal source.1), source.2) = source
  rw [h source hsource, h source hsource]

theorem contains_repositoryOf_self {path : String} :
    (repositoryOf sources []).contains path = true ↔ path ∈ sources.map Prod.fst := by
  rw [contains_repositoryOf, storedTexts_eq_self h]
  exact or_iff_right List.not_mem_nil

/-- Sources with different paths keep their texts. -/
theorem read?_repositoryOf_self (hnodup : (sources.map Prod.fst).Nodup) {source : String × String}
    (hsource : source ∈ sources) : (repositoryOf sources []).read? source.1 = some source.2 := by
  -- paths in normal form are where they are stored, so different ones do not meet
  have hagree : TextsAgree sources := by
    refine textsAgree_of_nodup ?_
    rw [storedTexts_eq_self h]
    exact hnodup
  have hread := read?_repositoryOf_of_mem hagree hsource []
  rwa [h source hsource, h source hsource] at hread

end Builder

/-- A file that is a text can be read. -/
theorem Repository.read?_ofDisk {d : Disk} {path text : String} {content : FileContent}
    (hfile : d.files.find? path = some content) (htext : content.text = some text)
    (paths : List String) : (Repository.ofDisk d paths).read? path = some text := by
  -- what is stored under the path comes from the one file there
  have hpair : ∀ v, (path, v) ∈ d.files.entries.filterMap (fun file =>
      file.2.text.map (file.1, ·)) ↔ content.text = some v := by
    intro v
    rw [List.mem_filterMap]
    constructor
    · rintro ⟨⟨path', content'⟩, hmem, hsome⟩
      obtain ⟨v', hv', heq⟩ := Option.map_eq_some_iff.mp hsome
      cases heq
      -- there is one file at the path
      rw [Dict.find?_eq_some_iff_mem.mpr hmem] at hfile
      cases hfile
      exact hv'
    · intro hv
      exact ⟨(path, content), Dict.find?_eq_some_iff_mem.mp hfile, by simp [hv]⟩
  refine Dict.find?_ofList_of_agree ((hpair text).mpr htext) fun v hv => ?_
  have := (hpair v).mp hv
  rw [htext] at this
  exact (Option.some.inj this).symm

/-- The walk of a directory can be made and comes upon these files, with these texts. -/
def Discovery.Yields (scan : ScanConfig) (d : Disk) (sources : List (String × String)) : Prop :=
  ∃ excludes, excludeRules scan = .ok excludes
    ∧ (walk d excludes).entries.Perm
      (sources.map fun source => (source.1, FileContent.ofText source.2))

namespace Discovery.Yields

variable {scan : ScanConfig} {d : Disk} {sources : List (String × String)}

section Walk

variable {excludes : List IgnoreRule} (hentries : (walk d excludes).entries.Perm
  (sources.map fun source => (source.1, FileContent.ofText source.2)))

include hentries

theorem keys_perm : (walk d excludes).keys.Perm (sources.map Prod.fst) := by
  have h := hentries.map Prod.fst
  rw [List.map_map] at h
  exact h

theorem nodup : (sources.map Prod.fst).Nodup :=
  (keys_perm hentries).nodup_iff.mp (Dict.keys_nodup _)

theorem find?_files {source : String × String} (hsource : source ∈ sources) :
    d.files.find? source.1 = some (FileContent.ofText source.2) := by
  -- the walk keeps some files of the directory and changes none
  have hwalked : (source.1, FileContent.ofText source.2) ∈ (walk d excludes).entries :=
    hentries.mem_iff.mpr (List.mem_map_of_mem hsource)
  exact Dict.find?_eq_some_iff_mem.mpr (List.mem_of_mem_filter hwalked)

/-! ## The selection -/

/-- The walk and the sources select the same files. -/
theorem selection_perm :
    let found := (walk d excludes).entries.foldl
      (fun s (path, content) => s.add scan path content.size) ({} : Selection)
    found.accepted.Perm (Builder.selectSources scan sources).accepted
      ∧ found.oversize.Perm (Builder.selectSources scan sources).oversize := by
  intro found
  have haccepted := Traversal.foldl_append_toList (fun s (e : String × FileContent) =>
    Selection.accepted_add scan s e.1 e.2.size) (walk d excludes).entries {}
  have hoversize := Traversal.foldl_append_toList (fun s (e : String × FileContent) =>
    Selection.oversize_add scan s e.1 e.2.size) (walk d excludes).entries {}
  -- both are folds of the same step, over files in another order
  constructor
  · show found.accepted.Perm _
    rw [haccepted, List.nil_append, Builder.accepted_selectSources]
    refine (hentries.filterMap _).trans ?_
    rw [List.filterMap_map]
    exact List.Perm.refl _
  · show found.oversize.Perm _
    rw [hoversize, List.nil_append, Builder.oversize_selectSources]
    refine (hentries.filterMap _).trans ?_
    rw [List.filterMap_map]
    exact List.Perm.refl _

/-! ## The repository -/

/-- The directory and the sources have the same paths, and the same texts at them. -/
theorem sameContents (hnormal : ∀ source ∈ sources, RepoPath.normal source.1 = source.1) :
    (Builder.repositoryOf sources []).SameContents
      (Repository.ofDisk d (walk d excludes).keys) := by
  constructor
  case known =>
    -- normal paths are known as they are
    have hkeys : (walk d excludes).keys.map RepoPath.normal = (walk d excludes).keys := by
      refine Traversal.map_eq_self fun path hpath => ?_
      obtain ⟨source, hsource, rfl⟩ := List.mem_map.mp ((keys_perm hentries).mem_iff.mp hpath)
      exact hnormal source hsource
    refine Repository.known_ext fun path => ?_
    rw [Repository.contains_ofDisk, hkeys, Builder.contains_repositoryOf_self hnormal]
    exact (keys_perm hentries).mem_iff
  case texts =>
    intro path hpath
    obtain ⟨source, hsource, rfl⟩ := List.mem_map.mp
      ((Builder.contains_repositoryOf_self hnormal).mp hpath)
    rw [Builder.read?_repositoryOf_self hnormal (nodup hentries) hsource]
    exact Repository.read?_ofDisk (find?_files hentries hsource) rfl _

end Walk

end Discovery.Yields

namespace Builder

/-- Selections of the same files lead to the same output, but for its time and the order of the
failures. -/
theorem process_sameUpToOrder (b : Builder) (name : String) (r : Repository) (now : Instant)
    {s s' : Selection} (haccepted : s.accepted.Perm s'.accepted)
    (hoversize : s.oversize.Perm s'.oversize) :
    (b.process name r s).SameUpToOrder ((b.atTime now).process name r s') where
  document := congrArg (Document.stamped · now)
    (document_process_congr b name r haccepted hoversize).symm
  hashes := (hashes_perm b r haccepted hoversize).symm
  failures := (failures_process_perm b name r haccepted hoversize).symm

/-! ## How much the pool is given -/

/-- The number of sources of a language that are scanned and within the limit. -/
def scannedCount (b : Builder) (sources : List (String × String)) (l : Language) : Nat :=
  sources.countP fun source =>
    b.config.scan.languageOf? source.1 = some l ∧ source.2.utf8ByteSize ≤ b.config.scan.maxFileSize

/--
Whether work is to be shared out among more workers than room can be reserved for, and there is a
language with enough files to share out.
-/
def Overloads (b : Builder) (sources : List (String × String)) : Prop :=
  Text.maxSigned < WorkPool.chunkHeader * b.pool.workers ∧ b.config.parallel.enabled = true
    ∧ ∃ l, 0 < b.scannedCount sources l ∧ b.config.parallel.minFiles ≤ b.scannedCount sources l

/-- Sources with different paths in normal form are all read, each for its language. -/
theorem readable_repositoryOf (b : Builder) {sources : List (String × String)}
    (hnormal : ∀ source ∈ sources, RepoPath.normal source.1 = source.1)
    (hnodup : (sources.map Prod.fst).Nodup) (l : Language) :
    readable (repositoryOf sources []) (b.selected sources) l = b.scannedCount sources l := by
  -- an accepted path is that of a source, which has its text
  have hread : ∀ path ∈ Selection.pathsOf l (b.selected sources).accepted,
      ((repositoryOf sources []).read? path).isSome = true := by
    intro path hpath
    obtain ⟨-, text, hsource, -⟩ := mem_accepted.mp (Selection.mem_pathsOf.mp hpath)
    rw [normalSources_eq_self hnormal] at hsource
    rw [read?_repositoryOf_self hnormal hnodup hsource]
    rfl
  -- the files that are accepted for the language, in the order of the sources
  have haccepted : ((b.selected sources).accepted.filter (·.1 == l)).map Prod.snd =
      (sources.filter fun source => b.config.scan.languageOf? source.1 = some l
        ∧ source.2.utf8ByteSize ≤ b.config.scan.maxFileSize).map Prod.fst := by
    unfold selected
    rw [normalSources_eq_self hnormal, accepted_selectSources, List.filter_filterMap,
      List.map_filterMap, ← List.filterMap_eq_map, ← List.filterMap_eq_filter,
      List.filterMap_filterMap]
    refine List.filterMap_congr fun source _ => ?_
    by_cases hsize : source.2.utf8ByteSize ≤ b.config.scan.maxFileSize
    · cases hl : b.config.scan.languageOf? source.1 with
      | none => simp [hl, Option.guard]
      | some l' => by_cases heq : l' = l <;> simp [hsize, hl, heq, Option.filter, Option.guard]
    · simp [hsize, Option.guard]
  -- no path is listed twice, so the sorted list is as long
  have hdistinct : (((b.selected sources).accepted.filter (·.1 == l)).map Prod.snd).Nodup := by
    rw [haccepted]
    exact hnodup.sublist (List.filter_sublist.map _)
  unfold readable scannedCount
  rw [List.countP_eq_length.mpr hread, (Selection.pathsOf_perm hdistinct).length_eq, haccepted,
    List.length_map, List.countP_eq_length_filter]

/-- The pool breaks down over sources exactly if they overload it. -/
theorem breaksDown_selected_iff (b : Builder) {sources : List (String × String)}
    (hnormal : ∀ source ∈ sources, RepoPath.normal source.1 = source.1)
    (hnodup : (sources.map Prod.fst).Nodup) :
    b.breaksDown (repositoryOf sources []) (b.selected sources) = true ↔ b.Overloads sources := by
  rw [breaksDown_eq_true_iff]
  simp only [readable_repositoryOf b hnormal hnodup, WorkPool.refuses_eq_true_iff]
  constructor
  · rintro ⟨l, hbytes, henabled, hpos, hmin⟩
    exact ⟨hbytes, henabled, l, hpos, hmin⟩
  · rintro ⟨hbytes, henabled, l, hpos, hmin⟩
    exact ⟨l, hbytes, henabled, hpos, hmin⟩

/-! ## The two builds -/

/--
**A build from a directory agrees with a build from sources.** Let the settings be valid, and let
the walk of a directory yield sources whose paths are in normal form. Compare, with whatever hashes
of an earlier run and at whatever times, the build from the directory with the build from the
sources without a skeleton. Unless the sources overload the pool, which takes more than
384307168202282325 workers, both find no file that is recognised, or both give the same document but
for its time, the same hashes, and the same failures up to their order. If they do overload it, both
break down.
-/
theorem run_agrees_ofSources (b : Builder) (root : String) (name : Option String) (now : Instant)
    {d : Disk} {sources : List (String × String)} (hvalid : b.config.validate = .ok ())
    (hyields : Discovery.Yields b.config.scan d sources)
    (hnormal : ∀ source ∈ sources, RepoPath.normal source.1 = source.1) :
    (¬b.Overloads sources →
        (b.run root name (some d) = .error (.noRecognizedFiles root)
          ∧ (b.atTime now).ofSources (projectName root name) sources [] =
            .error (.noRecognizedFiles (projectName root name)))
        ∨ ∃ out out', b.run root name (some d) = .ok out
          ∧ (b.atTime now).ofSources (projectName root name) sources [] = .ok out'
          ∧ out.SameUpToOrder out')
      ∧ (b.Overloads sources →
        b.run root name (some d) = .error (.breakdown .capacityOverflow)
          ∧ (b.atTime now).ofSources (projectName root name) sources [] =
            .error (.breakdown .capacityOverflow)) := by
  obtain ⟨excludes, hexcludes, hentries⟩ := hyields
  obtain ⟨found, hfound⟩ : ∃ found, found = (Discovery.walk d excludes).entries.foldl
      (fun s (path, content) => s.add b.config.scan path content.size) ({} : Selection) := ⟨_, rfl⟩
  have hdisk : Discovery.ofDisk b.config.scan d =
      .ok { known := (Discovery.walk d excludes).keys, selection := found } :=
    Discovery.ofDisk_eq_ok_iff.mpr ⟨excludes, hexcludes, hfound ▸ rfl⟩
  obtain ⟨haccepted, hoversize⟩ : found.accepted.Perm (b.selected sources).accepted
      ∧ found.oversize.Perm (b.selected sources).oversize := by
    unfold selected
    rw [normalSources_eq_self hnormal, hfound]
    exact Discovery.Yields.selection_perm hentries
  have hempty : found.isEmpty = (b.selected sources).isEmpty :=
    Selection.isEmpty_congr haccepted hoversize
  -- what was found is known, so the directory may as well be the sources
  have hcontents := Discovery.Yields.sameContents hentries hnormal
  have hknown : ∀ l path, (l, path) ∈ found.accepted →
      (repositoryOf sources []).contains path = true := by
    intro l path hpath
    have hwalked := Discovery.mem_known_of_mem_accepted hdisk hpath
    rw [contains_repositoryOf_self hnormal]
    exact (Discovery.Yields.keys_perm hentries).mem_iff.mp hwalked
  -- first from the directory to the sources, then from one order to the other
  have hbreaks : b.breaksDown (.ofDisk d (Discovery.walk d excludes).keys) found =
      b.breaksDown (repositoryOf sources []) (b.selected sources) :=
    (breaksDown_sameContents hcontents hknown).trans (breaksDown_perm b _ haccepted)
  have hoverloads := breaksDown_selected_iff b hnormal (Discovery.Yields.nodup hentries)
  constructor
  · intro hroom
    rw [← hoverloads, Bool.not_eq_true] at hroom
    cases hsome : (b.selected sources).isEmpty with
    | true =>
      exact Or.inl ⟨run_eq_error_of_isEmpty hvalid hdisk (hempty.trans hsome) root name,
        ofSources_eq_error_iff.mpr (Or.inr (Or.inl ⟨hvalid, hsome, rfl⟩))⟩
    | false =>
      refine Or.inr ⟨_, _,
        run_eq_ok_iff.mpr ⟨hvalid, _, hdisk, hempty.trans hsome, hbreaks.trans hroom, rfl⟩,
        ofSources_eq_ok_iff.mpr ⟨hvalid, hsome, hroom, rfl⟩, ?_⟩
      dsimp only
      rw [process_congr hcontents hknown]
      exact process_sameUpToOrder b _ _ now haccepted hoversize
  · intro hover
    have hover := hoverloads.mpr hover
    -- a pool that breaks down was given something
    have hsome := isEmpty_eq_false_of_breaksDown hover
    have hrun := run_eq_error_of_breaksDown hvalid hdisk (hempty.trans hsome) (hbreaks.trans hover)
    exact ⟨hrun root name,
      ofSources_eq_error_iff.mpr (Or.inr (Or.inr ⟨hvalid, hsome, hover, rfl⟩))⟩

/-- The directory has two more files, one of them hidden and the other one ignored; the file that is
too large is listed first among the sources. -/
theorem run_agrees_ofSources_ignored :
    let b := { oneCallBuilder with
      config.scan := { Config.default.scan with
        maxFileSize := 12, excludeDirs := [], excludePatterns := [] } }
    let sources := ("c.py", "def f(): g(0)") :: mutualCalls
    let d : Disk := ⟨Dict.ofList ((".gitignore", .ofText "old.py") :: ("old.py", .ofText "")
      :: sources.map fun source => (source.1, .ofText source.2))⟩
    b.config.validate = .ok () ∧ Discovery.Yields b.config.scan d sources
      ∧ (∀ source ∈ sources, RepoPath.normal source.1 = source.1)
      ∧ ¬b.Overloads sources
      ∧ ∃ out out', b.run "repo" none (some d) = .ok out
        ∧ (b.atTime .epoch).ofSources "repo" sources [] = .ok out'
        ∧ out.SameUpToOrder out'
        ∧ out'.failures.map (·.path) = ["c.py"] := by
  intro b sources d
  have hvalid : b.config.validate = .ok () := by decide +kernel
  have hyields : Discovery.Yields b.config.scan d sources := by
    refine ⟨[], rfl, ?_⟩
    -- the hidden file and the ignored one are passed over
    have hwalk : (Discovery.walk d []).entries =
        [("a.py", .ofText "def f(): g()"), ("b.py", .ofText "def g(): f()"),
          ("c.py", .ofText "def f(): g(0)")] := by
      decide +kernel
    rw [hwalk]
    exact (List.perm_append_singleton _ _ : List.Perm ([_, _] ++ [_]) _)
  have hnormal : ∀ source ∈ sources, RepoPath.normal source.1 = source.1 := by decide +kernel
  have hroom : ¬b.Overloads sources := fun h => absurd h.1 (by decide)
  have hok : (b.atTime .epoch).ofSources "repo" sources [] = .ok ((b.atTime .epoch).process "repo"
      (repositoryOf sources []) ((b.atTime .epoch).selected sources)) :=
    ofSources_eq_ok_iff.mpr ⟨hvalid, by decide +kernel, by decide +kernel, rfl⟩
  refine ⟨hvalid, hyields, hnormal, hroom, ?_⟩
  have hname : projectName "repo" none = "repo" := by decide +kernel
  have hagree := (run_agrees_ofSources b "repo" none .epoch hvalid hyields hnormal).1 hroom
  rw [hname, hok] at hagree
  rcases hagree with ⟨-, herror⟩ | ⟨out, out', hrun, hout', hsame⟩
  · cases herror
  · cases hout'
    exact ⟨out, _, hrun, hok, hsame, by decide +kernel⟩

/--
A single file and the greatest number of workers there is. The settings are valid and the file is
recognised, but neither build finds it missing and neither gives a document.
-/
theorem run_breaksDown_mostWorkers_oneFile :
    let b := { oneCallBuilder with
      config.parallel := { enabled := true, workers := some Text.maxUnsigned, minFiles := 1 }
      config.scan := { Config.default.scan with excludeDirs := [], excludePatterns := [] } }
    let sources := [("a.py", "def f(): g()")]
    let d : Disk := ⟨Dict.ofList [("a.py", .ofText "def f(): g()")]⟩
    b.config.validate = .ok () ∧ Discovery.Yields b.config.scan d sources
      ∧ (∀ source ∈ sources, RepoPath.normal source.1 = source.1)
      ∧ b.run "repo" none (some d) = .error (.breakdown .capacityOverflow)
      ∧ b.ofSources "repo" sources [] = .error (.breakdown .capacityOverflow) := by
  intro b sources d
  have hvalid : b.config.validate = .ok () := by decide +kernel
  have hwalk : (Discovery.walk d []).entries = [("a.py", .ofText "def f(): g()")] := by
    decide +kernel
  have hdisk : Discovery.ofDisk b.config.scan d = .ok
      { known := (Discovery.walk d []).keys
        selection := (Discovery.walk d []).entries.foldl
          (fun s (path, content) => s.add b.config.scan path content.size) {} } :=
    Discovery.ofDisk_eq_ok_iff.mpr ⟨[], rfl, rfl⟩
  refine ⟨hvalid, ⟨[], rfl, hwalk ▸ List.Perm.refl _⟩, by decide +kernel, ?_, ?_⟩
  · exact run_eq_error_of_breaksDown hvalid hdisk (by decide +kernel) (by decide +kernel) _ _
  · exact ofSources_eq_error_iff.mpr
      (Or.inr (Or.inr ⟨hvalid, by decide +kernel, by decide +kernel, rfl⟩))

end Builder

end SourceAtlas
