import SourceAtlas.Proofs.Build.Pathwise
import SourceAtlas.Proofs.ChangeFilter

/-!
# Builds: an incremental build is a restriction of a full one

A build that knows the hashes of an earlier run leaves out the files that have not changed. It still
reads, extracts and indexes all of them, so what it does record is what a full build records
(`ofSources_after_isRestriction`): the same hashes, the same files with the same imports and calls
in the same order, less the unchanged ones, and the same failures, less those of unchanged files
that cannot be extracted.

* **`outcome_files_restrict`**, **`outcome_failures_restrict`**: the restriction for one language.
  The index is the same (`indexOf_parsedFiles_congr`), so both are statements about lists of paths;
* **`changedAt_after`**: a path is left out exactly if the earlier run left its hash.
-/

namespace SourceAtlas

/-- The builder that knows of no earlier run. -/
def Builder.afresh (b : Builder) : Builder :=
  { b with changes := .none }

/-- The builder that knows the paths and hashes of an earlier run. -/
def Builder.after (b : Builder) (prior : List (String × String)) : Builder :=
  { b with changes := .ofHashes prior }

namespace BuildOutput

/-- Whether a path was read and a list of paths and hashes holds its hash. -/
def heldBy (out : BuildOutput) (prior : List (String × String)) (path : String) : Bool :=
  (out.hashes.find? path).any (ChangeFilter.holds prior path)

/-- What is left of a build when the files that an earlier run knows are not recorded. -/
structure IsRestriction (prior : List (String × String)) (full inc : BuildOutput) : Prop where
  hashes : inc.hashes = full.hashes
  files : inc.document.files = full.document.files.filter fun file => !full.heldBy prior file.path
  failures : inc.failures = full.failures.filter fun f =>
    !(f.stage == .parse && full.heldBy prior f.path)
  unchangedFiles : ∀ l, (inc.summaryOf l).unchangedFiles =
    (full.pathsRead l).countP (full.heldBy prior)

end BuildOutput

namespace Builder

/-! ## One language -/

section Restrict

variable {b b' : Builder} {r : Repository} {l : Language} {paths : List String}
  {held : String → Bool}

/-- Recording fewer of the paths restricts the files of an outcome. -/
theorem outcome_files_restrict (hgrammar : b.grammar = b'.grammar)
    (hchanged : ∀ path ∈ paths, b'.changedAt r path = (!held path && b.changedAt r path)) :
    (b'.outcome r l paths).files =
      (b.outcome r l paths).files.filter fun file => !held file.path := by
  have hrecord : b'.recordAt? r l = b.recordAt? r l := by
    unfold recordAt?
    rw [hgrammar]
  rw [outcome_files_eq, outcome_files_eq, indexOf_parsedFiles_congr hgrammar, hrecord,
    filter_filterMap_of_path (fun _ _ => path_recordAt?) (!held ·), List.filter_filter,
    List.filter_congr hchanged]

/-- Recording fewer of the paths drops failures of extraction only. -/
theorem outcome_failures_restrict (hgrammar : b.grammar = b'.grammar)
    (hchanged : ∀ path ∈ paths, b'.changedAt r path = (!held path && b.changedAt r path)) :
    (b'.outcome r l paths).failures =
      (b.outcome r l paths).failures.filter fun f => !(f.stage == .parse && held f.path) := by
  have hfailure : b'.failureAt? r l = b.failureAt? r l := by
    unfold failureAt?
    rw [hgrammar]
  rw [outcome_failures_eq, outcome_failures_eq, List.filter_append, hfailure]
  congr 1
  · -- a path that cannot be read stays, whatever is held
    refine (List.filter_eq_self.mpr ?_).symm
    intro f hf
    obtain ⟨path, -, rfl⟩ := List.mem_map.mp hf
    rfl
  · have hstage : ∀ f ∈ (paths.filter (b.changedAt r)).filterMap (b.failureAt? r l),
        (!(f.stage == .parse && held f.path)) = !held f.path := by
      intro f hf
      obtain ⟨path, -, hfind⟩ := List.mem_filterMap.mp hf
      obtain ⟨e, rfl⟩ := eq_of_failureAt? hfind
      rfl
    rw [List.filter_congr hstage, filter_filterMap_of_path (fun _ _ => path_failureAt?) (!held ·),
      List.filter_filter, List.filter_congr hchanged]

end Restrict

/-! ## Which paths are left out -/

theorem changedAt_afresh (b : Builder) (r : Repository) (path : String) :
    b.afresh.changedAt r path = (r.read? path).isSome := by
  unfold changedAt
  cases r.read? path <;> rfl

theorem heldBy_process (b : Builder) (name : String) (r : Repository) {s : Selection}
    {l : Language} {path : String} (h : (l, path) ∈ s.accepted) (prior : List (String × String)) :
    (b.process name r s).heldBy prior path =
      (r.read? path).any fun text => ChangeFilter.holds prior path (contentHash text) := by
  unfold BuildOutput.heldBy
  rw [hashes_process, find?_hashes_of_mem b r s h, Option.any_map]

/-- Of the paths that can be read, those whose hash the earlier run left are not recorded. -/
theorem changedAt_after {prior : List (String × String)}
    (hprior : (prior.map fun e => RepoPath.normal e.1).Nodup) (b : Builder) (name : String)
    (r : Repository) {s : Selection} {l : Language} {path : String}
    (h : (l, path) ∈ s.accepted) :
    (b.after prior).changedAt r path =
      (!(b.afresh.process name r s).heldBy prior path && b.afresh.changedAt r path) := by
  rw [changedAt_afresh, heldBy_process b.afresh name r h]
  unfold changedAt
  cases r.read? path with
  | none => rfl
  | some text =>
    show (ChangeFilter.ofHashes prior).isChanged path (contentHash text) = _
    rw [ChangeFilter.isChanged_ofHashes hprior]
    simp

/-! ## The whole build -/

/-- Whether a build fails, and how, does not depend on an earlier run. -/
theorem ofSources_after_eq_error_iff (b : Builder) (name : String)
    (sources : List (String × String)) (skeleton : List String) (prior : List (String × String))
    (e : BuildError) :
    (b.after prior).ofSources name sources skeleton = .error e ↔
      b.afresh.ofSources name sources skeleton = .error e := by
  -- neither the settings nor the files that the pool goes over are those of the earlier run
  rw [ofSources_eq_error_iff, ofSources_eq_error_iff]
  exact Iff.rfl

theorem process_after_isRestriction {prior : List (String × String)}
    (hprior : (prior.map fun e => RepoPath.normal e.1).Nodup) (b : Builder) (name : String)
    (r : Repository) {s : Selection} (hs : s.ByLanguage) :
    BuildOutput.IsRestriction prior (b.afresh.process name r s)
      ((b.after prior).process name r s) where
  hashes := hashes_congr _ _ r s
  files := by
    rw [document_files_process, document_files_process, List.filter_flatMap]
    congr 1
    funext l
    exact outcome_files_restrict rfl fun path hpath =>
      changedAt_after hprior b name r (Selection.mem_pathsOf.mp hpath)
  failures := by
    rw [failures_process, failures_process, List.filter_flatMap]
    congr 1
    funext l
    rw [outcomeOf_failures, outcomeOf_failures, List.filter_append]
    congr 1
    · exact outcome_failures_restrict rfl fun path hpath =>
        changedAt_after hprior b name r (Selection.mem_pathsOf.mp hpath)
    · -- an oversize file stays, whatever is held
      refine (List.filter_eq_self.mpr ?_).symm
      intro f hf
      obtain ⟨path, -, rfl⟩ := List.mem_map.mp hf
      rfl
  unchangedFiles := by
    intro l
    rw [unchangedFiles_process (b.after prior) name r hs l,
      pathsRead_process_congr (b.after prior) name r s b.afresh]
    refine List.countP_congr fun path hpath => ?_
    obtain ⟨⟨l', haccepted⟩, -⟩ :=
      (mem_keys_hashes b.afresh r s).mp (List.mem_of_mem_filter hpath)
    rw [unchangedFor_process (b.after prior) name r haccepted,
      heldBy_process b.afresh name r haccepted]
    unfold unchangedAt
    show (Option.any (fun text => !(ChangeFilter.ofHashes prior).isChanged path (contentHash text))
      _) = true ↔ _
    simp only [ChangeFilter.isChanged_ofHashes hprior, Bool.not_not]

/-- **Incremental builds are restrictions of full builds.** With the hashes of an earlier run, whose
paths differ in normal form, a build fails as the full build fails, and otherwise gives the full
build without the files that the earlier run knows: the same hashes; the changed files as they stand
in the full document and in its order; all failures but those of unchanged files that could not be
extracted; and for each language the number of its unchanged files. -/
theorem ofSources_after_isRestriction (b : Builder) (name : String)
    (sources : List (String × String)) (skeleton : List String) {prior : List (String × String)}
    (hprior : (prior.map fun e => RepoPath.normal e.1).Nodup) :
    (∀ e, (b.after prior).ofSources name sources skeleton = .error e ↔
      b.afresh.ofSources name sources skeleton = .error e)
    ∧ ∀ full, b.afresh.ofSources name sources skeleton = .ok full →
      ∃ inc, (b.after prior).ofSources name sources skeleton = .ok inc
        ∧ BuildOutput.IsRestriction prior full inc := by
  refine ⟨ofSources_after_eq_error_iff b name sources skeleton prior, ?_⟩
  intro full hfull
  obtain ⟨hvalid, hsome, hroom, rfl⟩ := ofSources_eq_ok_iff.mp hfull
  refine ⟨_, ofSources_eq_ok_iff.mpr ⟨hvalid, hsome, hroom, rfl⟩, ?_⟩
  exact process_after_isRestriction hprior b name _ (b.selected_byLanguage sources)

/-- The earlier run wrote its path and its digits in other forms; `b.py` is left out all the same,
and the call to it stays resolved. -/
theorem ofSources_after_isRestriction_mutualCalls :
    let prior := [("./b.py", "C53ECBB7A1EA107ECC94ADB37AE56CB8B578EE9943570F09E9EF9AAAC9A6FB35")]
    ∃ full inc, oneCallBuilder.afresh.ofSources "sample" mutualCalls [] = .ok full
      ∧ (oneCallBuilder.after prior).ofSources "sample" mutualCalls [] = .ok inc
      ∧ BuildOutput.IsRestriction prior full inc
      ∧ full.document.files.map (·.path) = ["a.py", "b.py"]
      ∧ full.heldBy prior "a.py" = false ∧ full.heldBy prior "b.py" = true
      ∧ (inc.summaryOf .python).unchangedFiles = 1 := by
  intro prior
  have hfull : oneCallBuilder.afresh.ofSources "sample" mutualCalls [] = .ok
      (oneCallBuilder.afresh.process "sample" (repositoryOf mutualCalls [])
        (oneCallBuilder.selected mutualCalls)) :=
    ofSources_eq_ok_iff.mpr
      ⟨by decide +kernel, by decide +kernel, by decide +kernel, rfl⟩
  obtain ⟨inc, hinc, hrestriction⟩ := (ofSources_after_isRestriction oneCallBuilder "sample"
    mutualCalls [] (by decide : (prior.map fun e => RepoPath.normal e.1).Nodup)).2 _ hfull
  refine ⟨_, inc, hfull, hinc, hrestriction, ?_⟩
  rw [hrestriction.unchangedFiles]
  decide +kernel

end Builder

end SourceAtlas
