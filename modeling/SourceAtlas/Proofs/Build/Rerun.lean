import SourceAtlas.Proofs.Build.Incremental

/-!
# Builds: running again on the same sources

A build that is run again with the hashes it has just written should find nothing to do. It does so
exactly if the paths it wrote are their own normal forms (`ofSources_rerun_iff`). They need not be:
the source `/./a.ts` is written down as `./a.ts`, and the next run reads that key as `a.ts`
(`ofSources_rerun_dotSlash`).

* **`unchangedFiles_eq_length_iff`**: the counts say that nothing has changed exactly if the filter
  knows every path that was read;
* **`document_files_eq_nil`**: in that case no file is recorded.
-/

namespace SourceAtlas.Builder

section Process

variable (b : Builder) (name : String) (r : Repository) {s : Selection}

/-- The counts say that nothing has changed exactly if the filter knows every path that was read. -/
theorem unchangedFiles_eq_length_iff (hs : s.ByLanguage) :
    (∀ l, ((b.process name r s).summaryOf l).unchangedFiles =
      ((b.process name r s).pathsRead l).length) ↔
      ∀ path ∈ (b.hashes r s).keys, (b.process name r s).unchangedFor b.changes path = true := by
  simp only [unchangedFiles_process b name r hs, List.countP_eq_length]
  constructor
  · intro h path hpath
    obtain ⟨⟨l, haccepted⟩, -⟩ := (mem_keys_hashes b r s).mp hpath
    refine h l path (List.mem_filter.mpr ⟨hpath, ?_⟩)
    rw [hs l path haccepted, beq_self_eq_true]
  · intro h l path hpath
    exact h path (List.mem_of_mem_filter hpath)

/-- If the filter knows every path that was read, no file is recorded. -/
theorem document_files_eq_nil
    (h : ∀ path ∈ (b.hashes r s).keys, (b.process name r s).unchangedFor b.changes path = true) :
    (b.process name r s).document.files = [] := by
  rw [document_files_process, List.flatMap_eq_nil_iff]
  intro l _
  have hnone : (Selection.pathsOf l s.accepted).filter (b.changedAt r) = [] := by
    rw [List.filter_eq_nil_iff]
    intro path hpath hchanged
    have haccepted := Selection.mem_pathsOf.mp hpath
    -- a changed path was read, so the filter would have to know it
    rw [changedAt_eq, Bool.and_eq_true, Bool.not_eq_true'] at hchanged
    obtain ⟨hread, hunknown⟩ := hchanged
    have hknown := h path ((mem_keys_hashes b r s).mpr ⟨⟨l, haccepted⟩, hread⟩)
    rw [unchangedFor_process b name r haccepted, hunknown] at hknown
    cases hknown
  rw [outcomeOf_files, outcome_files_eq, hnone]
  rfl

end Process

/-! ## The keys that a run writes -/

section Keys

variable {b : Builder} {sources : List (String × String)}

theorem asciiLower_of_mem_hashes {r : Repository} {s : Selection} {e : String × String}
    (he : e ∈ (b.hashes r s).entries) : Text.asciiLower e.2 = e.2 := by
  obtain ⟨-, text, -, hhash⟩ :=
    (find?_hashes b r s e.1 e.2).mp (Dict.find?_eq_some_iff_mem.mpr he)
  rw [hhash, asciiLower_contentHash]

/-- The paths of the hashes are normal forms of paths of the sources. -/
theorem exists_normal_of_mem_keys {r : Repository} {path : String}
    (h : path ∈ (b.hashes r (b.selected sources)).keys) :
    ∃ source ∈ sources, RepoPath.normal source.1 = path := by
  obtain ⟨⟨l, haccepted⟩, -⟩ := (mem_keys_hashes b r _).mp h
  obtain ⟨-, text, hmem, -⟩ := mem_accepted.mp haccepted
  obtain ⟨source, hsource, heq⟩ := List.mem_map.mp hmem
  exact ⟨source, hsource, congrArg Prod.fst heq⟩

/-- A rerun knows every path that was read exactly if the paths are their own normal forms. -/
theorem unchangedFor_after_iff (b : Builder) (sources : List (String × String)) (name : String)
    (r : Repository) :
    (∀ path ∈ (b.hashes r (b.selected sources)).keys,
      (b.process name r (b.selected sources)).unchangedFor
        (.ofHashes (b.hashes r (b.selected sources)).entries) path = true) ↔
      ∀ path ∈ (b.hashes r (b.selected sources)).keys, RepoPath.normal path = path := by
  rw [← ChangeFilter.ofHashes_entries_unchanged_iff (fun e => asciiLower_of_mem_hashes)
    fun path hpath => ?_]
  · unfold Dict.keys
    rw [List.forall_mem_map]
    refine forall₂_congr fun e he => ?_
    unfold BuildOutput.unchangedFor
    rw [hashes_process, Dict.find?_eq_some_iff_mem.mpr he, Option.any_some, Bool.not_eq_true']
  · obtain ⟨source, -, rfl⟩ := exists_normal_of_mem_keys hpath
    exact RepoPath.backslash_not_mem_normal source.1

end Keys

/-! ## The whole build -/

/-- The second run of a build, with the hashes of the first. -/
theorem process_rerun_iff (b : Builder) (name : String) (sources : List (String × String))
    (r : Repository) {b' : Builder}
    (hb' : b' = b.after (b.hashes r (b.selected sources)).entries) :
    ((b'.process name r (b.selected sources)).document.files = []
        ∧ ∀ l, ((b'.process name r (b.selected sources)).summaryOf l).unchangedFiles =
          ((b.process name r (b.selected sources)).pathsRead l).length) ↔
      ∀ path ∈ (b.hashes r (b.selected sources)).keys, RepoPath.normal path = path := by
  have hs := b.selected_byLanguage sources
  have hsame : b'.hashes r (b.selected sources) = b.hashes r (b.selected sources) :=
    hashes_congr b' b r _
  have hcounts := unchangedFiles_eq_length_iff b' name r hs
  have hnone := document_files_eq_nil b' name r (s := b.selected sources)
  rw [hsame] at hcounts hnone
  -- the second run hashes the same texts, so it compares the hashes with themselves
  have hknown : ∀ path, (b'.process name r (b.selected sources)).unchangedFor b'.changes path =
      (b.process name r (b.selected sources)).unchangedFor
        (.ofHashes (b.hashes r (b.selected sources)).entries) path := by
    intro path
    unfold BuildOutput.unchangedFor
    rw [hashes_process, hashes_process, hsame, hb']
    rfl
  simp only [pathsRead_process_congr b name r _ b']
  rw [← unchangedFor_after_iff b sources name r]
  simp only [hknown] at hcounts hnone
  rw [hcounts]
  exact and_iff_right_of_imp hnone

/--
**Running again.** A build that has succeeded succeeds again on the same inputs with the hashes it
has written. The second run records no file and counts every path of the hashes as unchanged exactly
if those paths are their own normal forms.
-/
theorem ofSources_rerun_iff {b : Builder} {name : String} {sources : List (String × String)}
    {skeleton : List String} {out : BuildOutput}
    (h : b.ofSources name sources skeleton = .ok out) :
    ∃ again, (b.after out.hashes.entries).ofSources name sources skeleton = .ok again
      ∧ ((again.document.files = []
          ∧ ∀ l, (again.summaryOf l).unchangedFiles = (out.pathsRead l).length) ↔
        ∀ path ∈ out.hashes.keys, RepoPath.normal path = path) := by
  obtain ⟨hvalid, hsome, hroom, rfl⟩ := ofSources_eq_ok_iff.mp h
  exact ⟨_, ofSources_eq_ok_iff.mpr ⟨hvalid, hsome, hroom, rfl⟩,
    process_rerun_iff b name sources _ rfl⟩

/--
Backslashes, slashes and `./` in front of the usual kind come off at once, so the second run finds
nothing to do.
-/
theorem ofSources_rerun_iff_mutualCalls :
    let sources := [(".\\./a.py", "def f(): g()"), ("//b.py", "def g(): f()")]
    ∃ out again, oneCallBuilder.ofSources "sample" sources [] = .ok out
      ∧ (oneCallBuilder.after out.hashes.entries).ofSources "sample" sources [] = .ok again
      ∧ out.hashes.keys = ["a.py", "b.py"] ∧ again.document.files = []
      ∧ (again.summaryOf .python).unchangedFiles = 2 := by
  intro sources
  have hok : oneCallBuilder.ofSources "sample" sources [] = .ok (oneCallBuilder.process "sample"
      (repositoryOf sources []) (oneCallBuilder.selected sources)) :=
    ofSources_eq_ok_iff.mpr
      ⟨by decide +kernel, by decide +kernel, by decide +kernel, rfl⟩
  obtain ⟨again, hagain, hiff⟩ := ofSources_rerun_iff hok
  obtain ⟨hfiles, hcounts⟩ := hiff.mpr (by decide +kernel)
  refine ⟨_, again, hok, hagain, by decide +kernel, hfiles, ?_⟩
  rw [hcounts]
  decide +kernel

/--
**The second run does not always find its own hashes.** Of two sources the slashes in front hide a
`./`. The second one is written down as `./a.ts`, which the second run takes for `a.ts`: it records
the file once more, though no text has changed.
-/
theorem ofSources_rerun_dotSlash :
    let sources := [("/.//./a.ts", ""), ("/./a.ts", "")]
    ∃ out again, noTextBuilder.ofSources "repo" sources [] = .ok out
      ∧ (noTextBuilder.after out.hashes.entries).ofSources "repo" sources [] = .ok again
      ∧ out.pathsRead .typescript = ["./a.ts"]
      ∧ again.document.files.map (·.path) = ["./a.ts"]
      ∧ (again.summaryOf .typescript).unchangedFiles = 0 := by
  intro sources
  refine ⟨_, _, ofSources_eq_ok_iff.mpr
      ⟨by decide +kernel, by decide +kernel, by decide +kernel, rfl⟩,
    ofSources_eq_ok_iff.mpr
      ⟨by decide +kernel, by decide +kernel, by decide +kernel, rfl⟩, ?_⟩
  decide +kernel

end SourceAtlas.Builder
