import SourceAtlas.Proofs.Build.Pathwise
import SourceAtlas.Proofs.ByteOrder

/-!
# Builds: no file is lost and none is counted twice

The sources of a build whose paths differ in normal form end up in three places: in the document, in
the failures, or among the unchanged files. `ofSources_accounts` says that every source of a scanned
language ends up in exactly one of them and once, that nothing else does, and that the counts of
each language add up to the number of its sources.

* **`outcome_paths_perm`**: for one language, the recorded, the failed and the unchanged paths
  together are its accepted paths. Each path is judged by itself, so this is a matter of splitting a
  list three times;
* **`accepted_append_oversize_perm`**: the accepted and the oversize paths of a language are the
  paths of its sources;
* **`flatMap_filter_perm`**: the languages share out the paths.

A source can also fail for want of a text. Texts are stored under the normal form of the path that
the source is known by, and where these two differ nothing need be stored under the path itself;
that is the one way in which a source cannot be read (`read?_repositoryOf_eq_none_iff`).
-/

namespace SourceAtlas

/-- The paths of the sources that are scanned, in normal form. -/
def Builder.scannedPaths (b : Builder) (sources : List (String × String)) : List String :=
  (sources.map fun source => RepoPath.normal source.1).filter fun path =>
    (b.config.scan.languageOf? path).isSome

/-- The paths that were read and whose hash a filter knows. -/
def BuildOutput.unchangedPaths (out : BuildOutput) (f : ChangeFilter) : List String :=
  out.hashes.keys.filter (out.unchangedFor f)

/-- The order of the files of a document: by language in the order of processing, and for one
language by the bytes of the path. -/
def FileRecord.Precedes (f g : FileRecord) : Prop :=
  ∃ l l', Language.ofPath? f.path = some l ∧ Language.ofPath? g.path = some l'
    ∧ (l.rank < l'.rank ∨ l = l' ∧ Text.bytes f.path < Text.bytes g.path)

/-- How a build accounts for its sources. -/
structure BuildOutput.Accounts (b : Builder) (sources : List (String × String))
    (out : BuildOutput) : Prop where
  /-- The recorded, the failed and the unchanged paths together are the scanned paths. -/
  partition : (out.document.files.map (·.path) ++ out.failures.map (·.path)
    ++ out.unchangedPaths b.changes).Perm (b.scannedPaths sources)
  /-- No path stands in two of the three places, and none twice in one. -/
  distinct : (out.document.files.map (·.path) ++ out.failures.map (·.path)
    ++ out.unchangedPaths b.changes).Nodup
  /-- A file fails for its size, for its contents, or for want of a text. -/
  stages : ∀ f ∈ out.failures, f.stage = .oversize ∨ f.stage = .parse ∨ f.stage = .read
  /-- A path has no text exactly if a source is known by it but none is stored under it. -/
  unread : ∀ path, (∃ f ∈ out.failures, f.path = path ∧ f.stage = .read) ↔
    (∃ l, b.config.scan.languageOf? path = some l)
      ∧ (∃ source ∈ sources, RepoPath.normal source.1 = path
        ∧ source.2.utf8ByteSize ≤ b.config.scan.maxFileSize)
      ∧ ∀ source ∈ sources, RepoPath.normal (RepoPath.normal source.1) ≠ path
  ordered : out.document.files.Pairwise FileRecord.Precedes
  /-- The unchanged files of a language are counted. -/
  unchanged : ∀ l, (out.summaryOf l).unchangedFiles =
    (out.unchangedPaths b.changes).countP fun path => Language.ofPath? path == some l
  /-- The counts of a language add up to the number of its sources. -/
  counts : ∀ l ∈ b.config.scan.languages,
    (out.summaryOf l).files + (out.summaryOf l).failedFiles + (out.summaryOf l).unchangedFiles =
      sources.countP fun source => Language.ofPath? (RepoPath.normal source.1) == some l

namespace Builder

/-! ## One language -/

section Language

variable (b : Builder) (r : Repository) (l : Language)

/-- The paths of the recorded files: of the changed paths those that can be extracted. -/
theorem map_path_outcome_files (paths : List String) :
    (b.outcome r l paths).files.map (·.path) =
      (paths.filter (b.changedAt r)).filter fun path =>
        (b.recordAt? r l (indexOf l r (b.parsedFiles r l paths)) path).isSome := by
  rw [outcome_files_eq, map_filterMap_of_path fun _ _ => path_recordAt?]

/-- The paths of the failures: those that cannot be read, then of the changed paths the others. -/
theorem map_path_outcome_failures (paths : List String) (ix : Index) :
    (b.outcome r l paths).failures.map (·.path) =
      (paths.filter fun path => !(r.read? path).isSome)
        ++ (paths.filter (b.changedAt r)).filter fun path =>
          !(b.recordAt? r l ix path).isSome := by
  rw [outcome_failures_eq, List.map_append, List.map_map,
    map_filterMap_of_path fun _ _ => path_failureAt?]
  congr 1
  · simp only [Option.not_isSome]
    exact List.map_id _
  -- a changed path that can be read is recorded or has failed, never both
  · refine List.filter_congr fun path hpath => ?_
    have hchanged := (List.mem_filter.mp hpath).2
    rw [changedAt_eq, Bool.and_eq_true] at hchanged
    obtain ⟨text, hread⟩ := Option.isSome_iff_exists.mp hchanged.1
    exact isSome_failureAt? hread ix

/-- A path that can be read has changed or has not. -/
theorem filter_changedAt_append_perm (paths : List String) :
    (paths.filter (b.changedAt r) ++ paths.filter (b.unchangedAt r)).Perm
      (paths.filter fun path => (r.read? path).isSome) := by
  have hchanged : (paths.filter fun path => (r.read? path).isSome).filter
      (fun path => !b.unchangedAt r path) = paths.filter (b.changedAt r) := by
    rw [List.filter_filter]
    refine List.filter_congr fun path _ => ?_
    rw [changedAt_eq, Bool.and_comm]
  -- to be unchanged a path must have been read, so nothing is lost by asking first
  have hunchanged : (paths.filter fun path => (r.read? path).isSome).filter
      (fun path => !!b.unchangedAt r path) = paths.filter (b.unchangedAt r) := by
    rw [List.filter_filter]
    refine List.filter_congr fun path _ => ?_
    rw [Bool.not_not, Bool.and_eq_left_iff_imp]
    exact isSome_read?_of_unchangedAt
  rw [← hchanged, ← hunchanged]
  exact List.filter_append_perm _ _

/-- The recorded, the failed and the unchanged paths of an outcome together are its paths. -/
theorem outcome_paths_perm (paths : List String) :
    ((b.outcome r l paths).files.map (·.path) ++ (b.outcome r l paths).failures.map (·.path)
      ++ paths.filter (b.unchangedAt r)).Perm paths := by
  rw [map_path_outcome_files,
    map_path_outcome_failures b r l paths (indexOf l r (b.parsedFiles r l paths))]
  generalize indexOf l r (b.parsedFiles r l paths) = ix
  rw [List.perm_iff_count]
  intro path
  -- a path is read or not, a path that is read has changed or not, a changed one is recorded or not
  have hread := (List.filter_append_perm (fun path => (r.read? path).isSome) paths).count_eq path
  have hchanged := (filter_changedAt_append_perm b r paths).count_eq path
  have hrecorded := (List.filter_append_perm (fun path => (b.recordAt? r l ix path).isSome)
    (paths.filter (b.changedAt r))).count_eq path
  simp only [List.count_append] at hread hchanged hrecorded ⊢
  omega

/-- The same with the oversize files. -/
theorem outcomeOf_paths_perm (s : Selection) :
    ((b.outcomeOf r s l).files.map (·.path) ++ (b.outcomeOf r s l).failures.map (·.path)
      ++ (Selection.pathsOf l s.accepted).filter (b.unchangedAt r)).Perm
      (Selection.pathsOf l s.accepted ++ (s.oversize.filter (·.1 == l)).map Prod.snd) := by
  have hoversize : (((s.oversize.filter (·.1 == l)).map Prod.snd).map
      (Failure.oversize b.config.scan.maxFileSize l)).map (·.path) =
        (s.oversize.filter (·.1 == l)).map Prod.snd := by
    rw [List.map_map]
    exact List.map_id _
  -- the oversize files are failures and change nothing else
  rw [outcomeOf_files, outcomeOf_failures, List.map_append, hoversize, List.perm_iff_count]
  intro path
  have hpaths := (outcome_paths_perm b r l (Selection.pathsOf l s.accepted)).count_eq path
  simp only [List.count_append] at hpaths ⊢
  omega

end Language

/-! ## The sources of a language -/

/-- The paths kept for a language are those of its sources that are kept. -/
theorem map_snd_filter_scanned {scan : ScanConfig} (keep : String → Prop) [DecidablePred keep]
    (l : Language) (sources : List (String × String)) :
    ((sources.filterMap fun (path, text) =>
      if keep text then (scan.languageOf? path).map (·, path) else none).filter (·.1 == l)).map
        Prod.snd =
      ((sources.filter fun source => scan.languageOf? source.1 == some l).filter fun source =>
        decide (keep source.2)).map Prod.fst := by
  induction sources with
  | nil => rfl
  | cons source sources ih =>
    obtain ⟨path, text⟩ := source
    -- a source that is not kept drops out on both sides
    by_cases hkeep : keep text
    · cases hl : scan.languageOf? path with
      | none => simp [hkeep, hl, ih]
      | some l' => by_cases heq : l' = l <;> simp [hkeep, hl, heq, ih]
    · cases hl : scan.languageOf? path == some l <;> simp [hkeep, hl, ih]

/-- The accepted and the oversize paths of a language are the paths of its sources. -/
theorem accepted_append_oversize_perm (scan : ScanConfig) {sources : List (String × String)}
    (hdistinct : (sources.map Prod.fst).Nodup) (l : Language) :
    (Selection.pathsOf l (selectSources scan sources).accepted
      ++ ((selectSources scan sources).oversize.filter (·.1 == l)).map Prod.snd).Perm
      ((sources.map Prod.fst).filter fun path => scan.languageOf? path == some l) := by
  let small (source : String × String) : Bool := source.2.utf8ByteSize ≤ scan.maxFileSize
  let scanned := sources.filter fun source => scan.languageOf? source.1 == some l
  have haccepted : ((selectSources scan sources).accepted.filter (·.1 == l)).map Prod.snd =
      (scanned.filter small).map Prod.fst := by
    rw [accepted_selectSources]
    exact map_snd_filter_scanned (·.utf8ByteSize ≤ scan.maxFileSize) l sources
  have hoversize : ((selectSources scan sources).oversize.filter (·.1 == l)).map Prod.snd =
      (scanned.filter fun source => !small source).map Prod.fst := by
    rw [oversize_selectSources, map_snd_filter_scanned (scan.maxFileSize < ·.utf8ByteSize)]
    congr 1
    refine List.filter_congr fun source _ => ?_
    rw [← decide_not]
    exact decide_eq_decide.mpr Nat.not_le.symm
  -- listing the accepted paths in order loses none, since no path is repeated
  have hpaths : (Selection.pathsOf l (selectSources scan sources).accepted).Perm
      ((scanned.filter small).map Prod.fst) := by
    have hsublist : ((scanned.filter small).map Prod.fst).Sublist (sources.map Prod.fst) :=
      (List.filter_sublist.trans List.filter_sublist).map Prod.fst
    rw [← haccepted] at hsublist ⊢
    exact Selection.pathsOf_perm (hsublist.nodup hdistinct)
  -- every scanned source is small or it is not
  have hsplit := (List.filter_append_perm small scanned).map Prod.fst
  rw [List.map_append] at hsplit
  rw [hoversize, List.filter_map]
  exact (hpaths.append_right _).trans hsplit

/-! ## The languages share out the paths -/

/-- The items of several languages, language by language, are the items of any of them. -/
theorem flatMap_filter_perm {languages : List Language} (hnodup : languages.Nodup)
    (find : String → Option Language) (xs : List String) :
    (languages.flatMap fun l => xs.filter fun x => find x == some l).Perm
      (xs.filter fun x => (find x).any languages.contains) := by
  -- one language takes its items away, and the others share what is left
  induction languages with
  | nil =>
    rw [List.flatMap_nil, List.filter_eq_nil_iff.mpr]
    intro x _
    cases find x <;> simp
  | cons l languages ih =>
    obtain ⟨hl, hnodup⟩ := List.nodup_cons.mp hnodup
    have hfirst : (xs.filter fun x => (find x).any (l :: languages).contains).filter
        (fun x => find x == some l) = xs.filter fun x => find x == some l := by
      rw [List.filter_filter]
      refine List.filter_congr fun x _ => ?_
      cases find x with
      | none => rfl
      | some l' => by_cases h : l' = l <;> simp [h]
    have hrest : (xs.filter fun x => (find x).any (l :: languages).contains).filter
        (fun x => !(find x == some l)) = xs.filter fun x => (find x).any languages.contains := by
      rw [List.filter_filter]
      refine List.filter_congr fun x _ => ?_
      cases find x with
      | none => rfl
      -- a later language is another one, since none is repeated
      | some l' => by_cases h : l' = l <;> simp [h, hl]
    have hsplit := List.filter_append_perm (fun x => find x == some l)
      (xs.filter fun x => (find x).any (l :: languages).contains)
    rw [hfirst, hrest] at hsplit
    rw [List.flatMap_cons]
    exact ((ih hnodup).append_left _).trans hsplit

section Process

variable (b : Builder) (name : String) (r : Repository) {s : Selection}

/-- The unchanged paths of a build, language by language. -/
theorem unchangedPaths_process_perm (hs : s.ByLanguage) :
    ((b.process name r s).unchangedPaths b.changes).Perm
      (s.languages.flatMap fun l =>
        (Selection.pathsOf l s.accepted).filter (b.unchangedAt r)) := by
  let out := b.process name r s
  -- a path with a hash was accepted for a language of the selection
  have hlanguage : (out.unchangedPaths b.changes).filter
      (fun path => (Language.ofPath? path).any s.languages.contains) =
        out.unchangedPaths b.changes := by
    refine List.filter_eq_self.mpr fun path hpath => ?_
    obtain ⟨⟨l, haccepted⟩, -⟩ := (mem_keys_hashes b r s).mp (List.mem_of_mem_filter hpath)
    rw [hs l path haccepted, Option.any_some, List.contains_iff_mem]
    exact Selection.mem_languages.mpr ⟨path, Or.inl haccepted⟩
  have hshared := flatMap_filter_perm s.languages_nodup Language.ofPath?
    (out.unchangedPaths b.changes)
  rw [hlanguage] at hshared
  refine hshared.symm.trans (List.Perm.flatMap_left _ fun l _ => ?_)
  -- the unchanged paths of one language among the hashes
  have hread := (pathsRead_process_perm b name r hs l).filter (out.unchangedFor b.changes)
  have hcomm : (out.unchangedPaths b.changes).filter (fun path => Language.ofPath? path == some l) =
      (out.pathsRead l).filter (out.unchangedFor b.changes) := by
    unfold BuildOutput.unchangedPaths BuildOutput.pathsRead
    rw [List.filter_comm]
  rw [hcomm]
  refine hread.trans (List.Perm.of_eq ?_)
  rw [List.filter_filter]
  refine List.filter_congr fun path hpath => ?_
  rw [unchangedFor_process b name r (Selection.mem_pathsOf.mp hpath), Bool.and_eq_left_iff_imp]
  exact isSome_read?_of_unchangedAt

/-- What a build records, what fails and what has not changed are together the accepted and the
oversize paths of all languages. -/
theorem process_paths_perm (hs : s.ByLanguage) :
    ((b.process name r s).document.files.map (·.path)
      ++ (b.process name r s).failures.map (·.path)
      ++ (b.process name r s).unchangedPaths b.changes).Perm
      (s.languages.flatMap fun l => Selection.pathsOf l s.accepted
        ++ (s.oversize.filter (·.1 == l)).map Prod.snd) := by
  rw [document_files_process, failures_process, List.map_flatMap, List.map_flatMap]
  have hkept := unchangedPaths_process_perm b name r hs
  -- the three lists are put together language by language
  refine ((List.flatMap_append_perm _ _ _).append hkept).trans ?_
  exact (List.flatMap_append_perm _ _ _).trans
    (List.Perm.flatMap_left _ fun l _ => outcomeOf_paths_perm b r l s)

/-- The counts of a language add up to the number of its accepted and oversize paths. -/
theorem summaryOf_process_total (l : Language) :
    ((b.process name r s).summaryOf l).files + ((b.process name r s).summaryOf l).failedFiles
      + ((b.process name r s).summaryOf l).unchangedFiles =
      (Selection.pathsOf l s.accepted ++ (s.oversize.filter (·.1 == l)).map Prod.snd).length := by
  rw [summaryOf_process, ← (outcomeOf_paths_perm b r l s).length_eq]
  have hunchanged : (b.outcomeOf r s l).unchanged =
      ((Selection.pathsOf l s.accepted).filter (b.unchangedAt r)).length := by
    rw [outcomeOf_unchanged, outcome_unchanged_eq, List.countP_eq_length_filter]
  unfold LanguageOutcome.summary
  rw [hunchanged, List.length_append, List.length_append, List.length_map, List.length_map]

/-! ## The order of the files -/

/-- The files of a document stand in the order of their languages and then of their bytes. -/
theorem document_files_pairwise (hs : s.ByLanguage) :
    (b.process name r s).document.files.Pairwise FileRecord.Precedes := by
  have hlanguage : ∀ l, ∀ file ∈ (b.outcomeOf r s l).files, Language.ofPath? file.path = some l :=
    fun l file hfile =>
      hs l file.path (Selection.mem_pathsOf.mp (path_mem_of_mem_outcome b r l _ hfile))
  rw [document_files_process, List.pairwise_flatMap]
  constructor
  · -- the files of one language stand in the order of its paths
    intro l _
    have hpaths : ((b.outcomeOf r s l).files.map (·.path)).Pairwise (· < ·) := by
      rw [outcomeOf_files, map_path_outcome_files]
      exact ((Selection.pathsOf_pairwise l s.accepted).filter _).filter _
    refine (List.pairwise_map.mp hpaths).imp_of_mem fun {f g} hf hg hlt => ?_
    exact ⟨l, l, hlanguage l f hf, hlanguage l g hg, Or.inr ⟨rfl, Text.lt_iff_bytes_lt.mp hlt⟩⟩
  -- languages are processed by rank, and those without files are left out
  · have hranks : s.languages.Pairwise fun l l' => l.rank < l'.rank :=
      (by decide : Language.all.Pairwise fun l l' => l.rank < l'.rank).filter _
    refine hranks.imp fun {l l'} hlt f hf g hg => ?_
    exact ⟨l, l', hlanguage l f hf, hlanguage l' g hg, Or.inl hlt⟩

/-! ## The failures -/

/-- A failure of a language: no text at hand, no declarations to be made out, or too large. -/
theorem mem_failures_outcomeOf {l : Language} {f : Failure} :
    f ∈ (b.outcomeOf r s l).failures ↔
      (∃ path, (l, path) ∈ s.accepted ∧ r.read? path = none ∧ f = Failure.unreadable l path)
      ∨ (∃ path, (l, path) ∈ s.accepted ∧ b.changedAt r path = true
        ∧ b.failureAt? r l path = some f)
      ∨ ∃ path, (l, path) ∈ s.oversize
        ∧ f = Failure.oversize b.config.scan.maxFileSize l path := by
  rw [outcomeOf_failures, outcome_failures_eq]
  simp only [List.mem_append, List.mem_map, List.mem_filterMap, List.mem_filter,
    Selection.mem_pathsOf, Option.isNone_iff_eq_none, or_assoc, beq_iff_eq]
  constructor
  · rintro (⟨path, ⟨haccepted, hread⟩, rfl⟩ | ⟨path, ⟨haccepted, hchanged⟩, hfind⟩
      | ⟨path, ⟨⟨l', path'⟩, ⟨hoversize, rfl⟩, rfl⟩, rfl⟩)
    · exact Or.inl ⟨path, haccepted, hread, rfl⟩
    · exact Or.inr (Or.inl ⟨path, haccepted, hchanged, hfind⟩)
    · exact Or.inr (Or.inr ⟨path', hoversize, rfl⟩)
  · rintro (⟨path, haccepted, hread, rfl⟩ | ⟨path, haccepted, hchanged, hfind⟩
      | ⟨path, hoversize, rfl⟩)
    · exact Or.inl ⟨path, ⟨haccepted, hread⟩, rfl⟩
    · exact Or.inr (Or.inl ⟨path, ⟨haccepted, hchanged⟩, hfind⟩)
    · exact Or.inr (Or.inr ⟨path, ⟨(l, path), ⟨hoversize, rfl⟩, rfl⟩, rfl⟩)

theorem stage_of_mem_failures {f : Failure} (hf : f ∈ (b.process name r s).failures) :
    f.stage = .oversize ∨ f.stage = .parse ∨ f.stage = .read := by
  rw [failures_process] at hf
  obtain ⟨l, -, hf⟩ := List.mem_flatMap.mp hf
  rcases (mem_failures_outcomeOf b r).mp hf with
    ⟨path, -, -, rfl⟩ | ⟨path, -, -, hfind⟩ | ⟨path, -, rfl⟩
  · exact Or.inr (Or.inr rfl)
  · obtain ⟨e, rfl⟩ := eq_of_failureAt? hfind
    exact Or.inr (Or.inl rfl)
  · exact Or.inl rfl

/-- A path cannot be read exactly if it is accepted and no text is at hand. -/
theorem exists_read_failure_iff {path : String} :
    (∃ f ∈ (b.process name r s).failures, f.path = path ∧ f.stage = .read) ↔
      (∃ l, (l, path) ∈ s.accepted) ∧ r.read? path = none := by
  rw [failures_process]
  constructor
  · rintro ⟨f, hf, rfl, hstage⟩
    obtain ⟨l, -, hf⟩ := List.mem_flatMap.mp hf
    rcases (mem_failures_outcomeOf b r).mp hf with
      ⟨path, haccepted, hread, rfl⟩ | ⟨path, -, -, hfind⟩ | ⟨path, -, rfl⟩
    · exact ⟨⟨l, haccepted⟩, hread⟩
    -- the other two failures are of other stages
    · obtain ⟨e, rfl⟩ := eq_of_failureAt? hfind
      cases hstage
    · cases hstage
  · rintro ⟨⟨l, haccepted⟩, hread⟩
    refine ⟨Failure.unreadable l path, List.mem_flatMap.mpr ⟨l, ?_, ?_⟩, rfl, rfl⟩
    · exact Selection.mem_languages.mpr ⟨path, Or.inl haccepted⟩
    · exact (mem_failures_outcomeOf b r).mpr (Or.inl ⟨path, haccepted, hread, rfl⟩)

end Process

/-- The repository has no text under a path exactly if no source is stored there: its path is
brought to normal form once more. -/
theorem read?_repositoryOf_eq_none_iff {sources : List (String × String)} {skeleton : List String}
    {path : String} : (repositoryOf sources skeleton).read? path = none ↔
      ∀ source ∈ sources, RepoPath.normal (RepoPath.normal source.1) ≠ path := by
  show (Dict.ofList _).find? path = none ↔ _
  rw [Option.eq_none_iff_forall_ne_some, ← not_exists, ← Dict.mem_keys_iff, Dict.mem_keys_ofList,
    normalSources, List.map_map, List.map_map]
  simp only [List.mem_map, not_exists, not_and]
  rfl

/-! ## The whole build -/

section Sources

variable (b : Builder) {sources : List (String × String)}

theorem map_fst_normalSources (sources : List (String × String)) :
    (normalSources sources).map Prod.fst = sources.map fun source => RepoPath.normal source.1 := by
  unfold normalSources
  rw [List.map_map]
  rfl

/-- A language with a source is among the languages of the selection. -/
theorem mem_languages_selected {path : String} {l : Language}
    (hpath : path ∈ sources.map fun source => RepoPath.normal source.1)
    (hl : b.config.scan.languageOf? path = some l) : l ∈ (b.selected sources).languages := by
  rw [← map_fst_normalSources] at hpath
  obtain ⟨⟨path, text⟩, hmem, rfl⟩ := List.mem_map.mp hpath
  refine Selection.mem_languages.mpr ⟨path, ?_⟩
  rcases Nat.lt_or_ge b.config.scan.maxFileSize text.utf8ByteSize with hlarge | hsmall
  · exact Or.inr (mem_oversize.mpr ⟨hl, text, hmem, hlarge⟩)
  · exact Or.inl (mem_accepted.mpr ⟨hl, text, hmem, hsmall⟩)

/-- A path is accepted if its language is scanned and a source within the limit is known by it. -/
theorem exists_mem_accepted_iff {path : String} :
    (∃ l, (l, path) ∈ (b.selected sources).accepted) ↔
      (∃ l, b.config.scan.languageOf? path = some l)
        ∧ ∃ source ∈ sources, RepoPath.normal source.1 = path
          ∧ source.2.utf8ByteSize ≤ b.config.scan.maxFileSize := by
  unfold selected
  simp only [mem_accepted, normalSources, List.mem_map, Prod.mk.injEq]
  constructor
  · rintro ⟨l, hl, text, ⟨source, hsource, hpath, rfl⟩, hsmall⟩
    exact ⟨⟨l, hl⟩, source, hsource, hpath, hsmall⟩
  · rintro ⟨⟨l, hl⟩, source, hsource, hpath, hsmall⟩
    exact ⟨l, hl, source.2, ⟨source, hsource, hpath, rfl⟩, hsmall⟩

/-- The accepted and the oversize paths of all languages are the scanned paths. -/
theorem selected_paths_perm
    (hdistinct : (sources.map fun source => RepoPath.normal source.1).Nodup) :
    ((b.selected sources).languages.flatMap fun l =>
      Selection.pathsOf l (b.selected sources).accepted
        ++ ((b.selected sources).oversize.filter (·.1 == l)).map Prod.snd).Perm
      (b.scannedPaths sources) := by
  have hlanguage := accepted_append_oversize_perm b.config.scan
    ((map_fst_normalSources sources).symm ▸ hdistinct)
  rw [map_fst_normalSources] at hlanguage
  refine (List.Perm.flatMap_left _ fun l _ => hlanguage l).trans ?_
  -- every scanned path has a language of the selection, so the sharing leaves none out
  refine (flatMap_filter_perm (b.selected sources).languages_nodup _ _).trans (List.Perm.of_eq ?_)
  unfold scannedPaths
  refine List.filter_congr fun path hpath => ?_
  cases hl : b.config.scan.languageOf? path with
  | none => rfl
  | some l => simpa using mem_languages_selected b hpath hl

/-- The counts of a scanned language add up to the number of its sources. -/
theorem summaryOf_process_total_eq_countP (name : String) (r : Repository)
    (hdistinct : (sources.map fun source => RepoPath.normal source.1).Nodup) {l : Language}
    (hl : l ∈ b.config.scan.languages) :
    let summary := (b.process name r (b.selected sources)).summaryOf l
    summary.files + summary.failedFiles + summary.unchangedFiles =
      sources.countP fun source => Language.ofPath? (RepoPath.normal source.1) == some l := by
  have hpaths := (accepted_append_oversize_perm b.config.scan
    ((map_fst_normalSources sources).symm ▸ hdistinct) l).length_eq
  rw [map_fst_normalSources, ← List.countP_eq_length_filter, List.countP_map] at hpaths
  refine (summaryOf_process_total b name r l).trans (hpaths.trans ?_)
  -- the language is scanned, so no source of it is passed over
  refine List.countP_congr fun source _ => ?_
  rw [Function.comp_apply, beq_iff_eq, beq_iff_eq, ScanConfig.languageOf?_eq_some_iff,
    and_iff_left hl]

end Sources

/--
**No file is lost and none is counted twice.** If the paths of the sources differ in normal form, a
build that succeeds accounts for each of them: every path of a scanned language is recorded, has
failed, or has not changed, exactly one of these and once; no other path occurs. The files are in
the order of their languages and of the bytes of their paths, and the counts of each language add
up. A file fails for its size, for its contents, or because its path, which is not its own normal
form, has no text stored under it.
-/
theorem ofSources_accounts {b : Builder} {name : String} {sources : List (String × String)}
    {skeleton : List String} {out : BuildOutput}
    (hdistinct : (sources.map fun source => RepoPath.normal source.1).Nodup)
    (h : b.ofSources name sources skeleton = .ok out) : out.Accounts b sources := by
  obtain ⟨-, -, -, rfl⟩ := ofSources_eq_ok_iff.mp h
  have hs := b.selected_byLanguage sources
  -- the one rearrangement that both the partition and the distinctness come from
  have hperm := (process_paths_perm b name (repositoryOf sources skeleton) hs).trans
    (selected_paths_perm b hdistinct)
  exact {
    partition := hperm
    distinct := hperm.nodup_iff.mpr (hdistinct.filter _)
    stages := fun f => stage_of_mem_failures b name _
    unread := fun path => by
      rw [exists_read_failure_iff, read?_repositoryOf_eq_none_iff, exists_mem_accepted_iff,
        and_assoc]
    ordered := document_files_pairwise b name _ hs
    unchanged := fun l => by
      rw [unchangedFiles_process b name _ hs l, BuildOutput.pathsRead, BuildOutput.unchangedPaths,
        List.countP_filter, List.countP_filter]
      simp only [Bool.and_comm]
    counts := fun l => summaryOf_process_total_eq_countP b name _ hdistinct }

/-- One file in each place: `a.py` is recorded, `b.py` has not changed, `c.py` is too large, and the
text of `/./d.py` is not stored under `./d.py`; `e.md` is not scanned. -/
theorem ofSources_accounts_everyPlace :
    let b := { oneCallBuilder with
      config.scan.maxFileSize := 12
      changes := .ofHashes [("b.py", contentHash "def g(): f()")] }
    let sources := [("/./d.py", "def f(): g()"), ("c.py", "def f(): g(0)"), ("e.md", ""),
      ("b.py", "def g(): f()"), ("a.py", "def f(): g()")]
    ∃ out, b.ofSources "sample" sources [] = .ok out ∧ out.Accounts b sources
      ∧ out.document.files.map (·.path) = ["a.py"]
      ∧ out.failures.map (fun f => (f.path, f.stage)) = [("./d.py", .read), ("c.py", .oversize)]
      ∧ out.unchangedPaths b.changes = ["b.py"] := by
  intro b sources
  have hok : b.ofSources "sample" sources [] =
      .ok (b.process "sample" (repositoryOf sources []) (b.selected sources)) :=
    ofSources_eq_ok_iff.mpr
      ⟨by decide +kernel, by decide +kernel, by decide +kernel, rfl⟩
  exact ⟨_, hok, ofSources_accounts (by decide +kernel) hok, by decide +kernel⟩

/-- **A source can fail for want of a text that was given.** The slash in front hides a `./`, so the
source is known by `./a.ts` and its text is stored under `a.ts`. -/
theorem ofSources_unread_dotSlash :
    ∃ out, noTextBuilder.ofSources "repo" [("/./a.ts", "")] [] = .ok out
      ∧ out.document.files = []
      ∧ out.failures = [{ path := "./a.ts", language := .typescript, stage := .read,
                          message := "not readable as UTF-8 text" }]
      ∧ out.unchangedPaths noTextBuilder.changes = [] :=
  ⟨_, ofSources_eq_ok_iff.mpr
      ⟨by decide +kernel, by decide +kernel, by decide +kernel, rfl⟩, by decide +kernel⟩

end Builder

end SourceAtlas
