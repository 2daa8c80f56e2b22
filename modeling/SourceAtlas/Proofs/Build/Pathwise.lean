import SourceAtlas.Proofs.Build.Stages
import SourceAtlas.Proofs.Extract.Imports
import SourceAtlas.Proofs.Merge

/-!
# Builds, path by path

The outcome of a language is computed in passes over lists: reading, extracting, indexing,
recording. Once the index is fixed, though, every path is judged by itself. This module says how,
and reads the counts of a document off the same judgement:

* **`outcome_files_eq`**: the files are the records of the changed paths, in their order;
* **`outcome_failures_eq`**: the failures are those of the unread paths, then those of the changed
  paths that cannot be extracted;
* **`indexOf_parsedFiles_congr`**: which paths have changed plays no part in the index;
* **`summaryOf_process`**: the counts of a language are those of its outcome;
* **`unchangedFiles_process`**: the unchanged files are the paths of the hashes that the filter
  knows.

The filter of changed files therefore enters an outcome in two places only, `changedAt` and
`unchangedAt`.
-/

namespace SourceAtlas

namespace Builder

section Path

variable (b : Builder) (r : Repository) (l : Language)

/-! ## One path -/

/-- Whether the file at a path can be read and has changed. -/
def changedAt (path : String) : Bool :=
  (r.read? path).any fun text => b.changes.isChanged path (contentHash text)

/-- Whether the file at a path can be read and has not changed. -/
def unchangedAt (path : String) : Bool :=
  (r.read? path).any fun text => !b.changes.isChanged path (contentHash text)

/-- The record of the file at a path, if it can be read and extracted. -/
def recordAt? (ix : Index) (path : String) : Option FileRecord :=
  (r.read? path).bind fun text =>
    match extract l path text (b.grammar path text) with
    | .ok x => some (record ix x (Text.countLines text))
    | .error _ => none

/-- The failure of the file at a path, if it can be read but not extracted. -/
def failureAt? (path : String) : Option Failure :=
  (r.read? path).bind fun text =>
    match extract l path text (b.grammar path text) with
    | .ok _ => none
    | .error e => some { path, language := l, stage := .parse, message := e.message }

variable {b r l}

/-- Of the paths that can be read, those have changed that are not unchanged. -/
theorem changedAt_eq (path : String) :
    b.changedAt r path = ((r.read? path).isSome && !b.unchangedAt r path) := by
  unfold changedAt unchangedAt
  cases r.read? path <;> simp

theorem isSome_read?_of_unchangedAt {path : String} (h : b.unchangedAt r path = true) :
    (r.read? path).isSome = true := by
  unfold unchangedAt at h
  cases hread : r.read? path with
  | none =>
    rw [hread] at h
    cases h
  | some text => rfl

theorem path_recordAt? {ix : Index} {path : String} {file : FileRecord}
    (h : b.recordAt? r l ix path = some file) : file.path = path := by
  obtain ⟨text, -, hfile⟩ := Option.bind_eq_some_iff.mp h
  -- a record has the path of its extraction, which is the path it was read from
  split at hfile
  next x hx =>
    cases hfile
    rw [record_path, extract_path hx]
  next => cases hfile

theorem eq_of_failureAt? {path : String} {f : Failure} (h : b.failureAt? r l path = some f) :
    ∃ e : ExtractError, f = { path, language := l, stage := .parse, message := e.message } := by
  obtain ⟨text, -, hf⟩ := Option.bind_eq_some_iff.mp h
  split at hf
  next => cases hf
  next e _ =>
    cases hf
    exact ⟨e, rfl⟩

theorem path_failureAt? {path : String} {f : Failure} (h : b.failureAt? r l path = some f) :
    f.path = path := by
  obtain ⟨e, rfl⟩ := eq_of_failureAt? h
  rfl

/-- A file that is read is either recorded or a failure. -/
theorem isSome_failureAt? {path text : String} (hread : r.read? path = some text) (ix : Index) :
    (b.failureAt? r l path).isSome = !(b.recordAt? r l ix path).isSome := by
  unfold failureAt? recordAt?
  rw [hread, Option.bind_some, Option.bind_some]
  -- both ask the same extraction
  split <;> rfl

end Path

/-! ## Items found under paths

Records and failures are found under a path and carry it, so a question about the items of a list is
one about its paths. -/

section Keyed

variable {α : Type} {pathOf : α → String} {find : String → Option α}

theorem map_filterMap_of_path (hpath : ∀ path a, find path = some a → pathOf a = path)
    (paths : List String) :
    (paths.filterMap find).map pathOf = paths.filter fun path => (find path).isSome := by
  induction paths with
  | nil => rfl
  | cons path paths ih =>
    cases hfind : find path with
    | none => simp [hfind, ih]
    | some a => simp [hfind, ih, hpath path a hfind]

theorem filter_filterMap_of_path (hpath : ∀ path a, find path = some a → pathOf a = path)
    (keep : String → Bool) (paths : List String) :
    (paths.filterMap find).filter (fun a => keep (pathOf a))
      = (paths.filter keep).filterMap find := by
  induction paths with
  | nil => rfl
  | cons path paths ih =>
    cases hfind : find path with
    | none => cases hkeep : keep path <;> simp [hfind, hkeep, ih]
    | some a =>
      -- the item carries the path, so keeping the one is keeping the other
      have ha := hpath path a hfind
      cases hkeep : keep path <;> simp [hfind, hkeep, ih, ha]

end Keyed

/-! ## The outcome of a language -/

section Outcome

variable (b : Builder) (r : Repository) (l : Language) (paths : List String)

/-- The files of an outcome are the records of the changed paths, in their order. -/
theorem outcome_files_eq :
    (b.outcome r l paths).files = (paths.filter (b.changedAt r)).filterMap
      (b.recordAt? r l (indexOf l r (b.parsedFiles r l paths))) := by
  rw [outcome_files]
  generalize indexOf l r (b.parsedFiles r l paths) = ix
  -- with the index fixed, all passes are one pass over the paths
  unfold toRecord parsedFiles readFiles
  rw [List.filterMap_map, List.filterMap_filterMap, List.map_filterMap, List.filterMap_filter]
  congr 1
  funext path
  unfold changedAt recordAt?
  cases r.read? path with
  | none => rfl
  | some text =>
    simp only [Option.map_some, Option.bind_some, Function.comp_apply, Option.any_some, parse,
      readFile]
    cases extract l path text (b.grammar path text) with
    | ok x => cases b.changes.isChanged path (contentHash text) <;> rfl
    | error e => simp only [Option.map_none, ite_self]

theorem path_mem_of_mem_outcome {file : FileRecord} (h : file ∈ (b.outcome r l paths).files) :
    file.path ∈ paths := by
  rw [outcome_files_eq] at h
  obtain ⟨path, hpath, hrecord⟩ := List.mem_filterMap.mp h
  rw [path_recordAt? hrecord]
  exact List.mem_of_mem_filter hpath

/-- The failures of an outcome are those of the unread paths, then those of the changed paths that
cannot be extracted. -/
theorem outcome_failures_eq :
    (b.outcome r l paths).failures =
      (paths.filter fun path => (r.read? path).isNone).map (Failure.unreadable l)
        ++ (paths.filter (b.changedAt r)).filterMap (b.failureAt? r l) := by
  rw [outcome_failures]
  congr 1
  -- the failures of the unread paths are the same on both sides
  unfold parsedFiles readFiles
  rw [List.filterMap_map, List.filterMap_filterMap, List.filterMap_filter]
  congr 1
  funext path
  unfold changedAt failureAt?
  cases r.read? path with
  | none => rfl
  | some text =>
    simp only [Option.map_some, Option.bind_some, Function.comp_apply, Option.any_some, parse,
      readFile, parseFailure?]
    cases extract l path text (b.grammar path text) with
    | ok x => simp only [ite_self]
    | error e => rfl

theorem outcome_unchanged_eq :
    (b.outcome r l paths).unchanged = paths.countP (b.unchangedAt r) := by
  show ((b.readFiles r paths).filter (!·.changed)).length = _
  rw [← List.countP_eq_length_filter]
  unfold readFiles
  rw [List.countP_filterMap]
  congr 1
  funext path
  unfold unchangedAt
  cases r.read? path <;> rfl

/-- Registering looks at the path and the declarations of a file only. -/
theorem register_congr {ix : Index} {f g : ParsedFile} (hpath : f.source.path = g.source.path)
    (hresult : f.result = g.result) : register ix f = register ix g := by
  unfold register
  rw [hpath, hresult]

/-- Which paths have changed plays no part in the index. -/
theorem indexOf_parsedFiles_congr {b b' : Builder} (h : b.grammar = b'.grammar) (r : Repository)
    (l : Language) (paths : List String) :
    indexOf l r (b.parsedFiles r l paths) = indexOf l r (b'.parsedFiles r l paths) := by
  unfold indexOf parsedFiles readFiles
  rw [List.foldl_map, List.foldl_map, List.foldl_filterMap, List.foldl_filterMap]
  congr 1
  -- one step of the two folds
  funext ix path
  cases r.read? path with
  | none => rfl
  | some text =>
    -- only the mark of a change differs, and it is not registered
    refine register_congr rfl ?_
    unfold parse
    rw [h]
    rfl

end Outcome

end Builder

/-! ## The counts of a document -/

/-- The counts of a language in a document; a language without an entry counts nothing. -/
def BuildOutput.summaryOf (out : BuildOutput) (l : Language) : LanguageSummary :=
  (out.document.project.languages.find? l.name).getD {}

/-- The paths of a language that were read and hashed. -/
def BuildOutput.pathsRead (out : BuildOutput) (l : Language) : List String :=
  out.hashes.keys.filter fun path => Language.ofPath? path == some l

/-- Whether a path was read and a filter knows its hash. -/
def BuildOutput.unchangedFor (out : BuildOutput) (f : ChangeFilter) (path : String) : Bool :=
  (out.hashes.find? path).any fun hash => !f.isChanged path hash

namespace Builder

/-! ## The whole build -/

section Process

variable (b : Builder) (name : String) (r : Repository) (s : Selection)

theorem outcomeOf_files (l : Language) :
    (b.outcomeOf r s l).files = (b.outcome r l (Selection.pathsOf l s.accepted)).files :=
  rfl

theorem outcomeOf_unchanged (l : Language) :
    (b.outcomeOf r s l).unchanged = (b.outcome r l (Selection.pathsOf l s.accepted)).unchanged :=
  rfl

theorem outcomeOf_failures (l : Language) :
    (b.outcomeOf r s l).failures =
      (b.outcome r l (Selection.pathsOf l s.accepted)).failures
        ++ ((s.oversize.filter (·.1 == l)).map Prod.snd).map
          (Failure.oversize b.config.scan.maxFileSize l) :=
  rfl

end Process

/-- The index of a language in a build. -/
def languageIndex (b : Builder) (r : Repository) (s : Selection) (l : Language) : Index :=
  indexOf l r (b.parsedFiles r l (Selection.pathsOf l s.accepted))

/-- A document has the records of the accepted files that can be read, have changed and can be
extracted. -/
theorem mem_files_process_iff {b : Builder} {name : String} {r : Repository} {s : Selection}
    {file : FileRecord} :
    file ∈ (b.process name r s).document.files ↔
      ∃ l text x, (l, file.path) ∈ s.accepted ∧ r.read? file.path = some text
        ∧ b.changes.isChanged file.path (contentHash text) = true
        ∧ extract l file.path text (b.grammar file.path text) = .ok x
        ∧ file = record (b.languageIndex r s l) x (Text.countLines text) := by
  rw [document_files_process]
  simp only [List.mem_flatMap, outcomeOf_files, outcome_files_eq, List.mem_filterMap,
    List.mem_filter, Selection.mem_pathsOf]
  constructor
  · rintro ⟨l, -, path, ⟨haccepted, hchanged⟩, hrecord⟩
    -- the path of the record is the path it was found under
    obtain rfl := path_recordAt? hrecord
    obtain ⟨text, hread, hfile⟩ := Option.bind_eq_some_iff.mp hrecord
    unfold changedAt at hchanged
    rw [hread] at hchanged
    split at hfile
    next x hx => exact ⟨l, text, x, haccepted, hread, hchanged, hx, (Option.some.inj hfile).symm⟩
    next => cases hfile
  · rintro ⟨l, text, x, haccepted, hread, hchanged, hx, hfile⟩
    refine ⟨l, Selection.mem_languages.mpr ⟨_, Or.inl haccepted⟩, file.path, ⟨haccepted, ?_⟩, ?_⟩
    · unfold changedAt
      rw [hread]
      exact hchanged
    · unfold recordAt?
      rw [hread, Option.bind_some, hx]
      exact congrArg some hfile.symm

/-! ### The counts -/

section Process

variable (b : Builder) (name : String) (r : Repository) (s : Selection)

/-- A language that does not occur comes to nothing. -/
theorem summary_outcomeOf_of_not_mem {l : Language} (hl : l ∉ s.languages) :
    (b.outcomeOf r s l).summary = {} := by
  -- any path of it would make the language occur
  have hpath : ∀ path, (l, path) ∉ s.accepted ∧ (l, path) ∉ s.oversize := fun path =>
    ⟨fun h => hl (Selection.mem_languages.mpr ⟨path, Or.inl h⟩),
      fun h => hl (Selection.mem_languages.mpr ⟨path, Or.inr h⟩)⟩
  have haccepted : Selection.pathsOf l s.accepted = [] :=
    List.eq_nil_iff_forall_not_mem.mpr fun path h => (hpath path).1 (Selection.mem_pathsOf.mp h)
  have hoversize : s.oversize.filter (·.1 == l) = [] := by
    rw [List.filter_eq_nil_iff]
    rintro ⟨l', path⟩ hmem heq
    rw [beq_iff_eq] at heq
    exact (hpath path).2 (heq ▸ hmem)
  have hfiles : (b.outcomeOf r s l).files = [] := by
    rw [outcomeOf_files, haccepted, outcome_files_eq]
    rfl
  have hfailures : (b.outcomeOf r s l).failures = [] := by
    rw [outcomeOf_failures, haccepted, hoversize, outcome_failures_eq]
    rfl
  have hunchanged : (b.outcomeOf r s l).unchanged = 0 := by
    rw [outcomeOf_unchanged, haccepted, outcome_unchanged_eq]
    rfl
  unfold LanguageOutcome.summary
  rw [hfiles, hfailures, hunchanged]
  rfl

/-- A document has the counts of the languages that occur, and no others. -/
theorem find?_languages_process (l : Language) :
    (b.process name r s).document.project.languages.find? l.name =
      if l ∈ s.languages then some (b.outcomeOf r s l).summary else none := by
  have hlanguages : (b.outcomes r s).map (·.language) = s.languages := by
    unfold outcomes
    rw [List.map_map]
    exact List.map_id _
  show (Merge.summaries (b.outcomes r s)).find? l.name = _
  split
  next hl =>
    -- a language has one outcome, so nothing is added to its counts
    have hmem : b.outcomeOf r s l ∈ b.outcomes r s := List.mem_map.mpr ⟨l, hl, rfl⟩
    have hnodup : ((b.outcomes r s).map (·.language)).Nodup := by
      rw [hlanguages]
      exact s.languages_nodup
    exact Merge.find?_summaries_of_mem hnodup hmem
  next hl => exact Merge.find?_summaries_of_not_mem (hlanguages ▸ hl)

/-- The counts of a language are those of its outcome. -/
theorem summaryOf_process (l : Language) :
    (b.process name r s).summaryOf l = (b.outcomeOf r s l).summary := by
  unfold BuildOutput.summaryOf
  rw [find?_languages_process]
  split
  next => rfl
  next hl => exact (summary_outcomeOf_of_not_mem b r s hl).symm

/-! ### The hashes -/

theorem find?_hashes_of_mem {l : Language} {path : String} (h : (l, path) ∈ s.accepted) :
    (b.hashes r s).find? path = (r.read? path).map contentHash := by
  -- an accepted path is hashed if it can be read, and only then
  refine Option.ext fun hash => ?_
  rw [find?_hashes, Option.map_eq_some_iff]
  constructor
  · rintro ⟨-, text, hread, rfl⟩
    exact ⟨text, hread, rfl⟩
  · rintro ⟨text, hread, rfl⟩
    exact ⟨⟨l, h⟩, text, hread, rfl⟩

theorem mem_keys_hashes {path : String} :
    path ∈ (b.hashes r s).keys ↔ (∃ l, (l, path) ∈ s.accepted) ∧ (r.read? path).isSome := by
  rw [Dict.mem_keys_iff, Option.isSome_iff_exists]
  simp only [find?_hashes]
  constructor
  · rintro ⟨hash, haccepted, text, hread, -⟩
    exact ⟨haccepted, text, hread⟩
  · rintro ⟨haccepted, text, hread⟩
    exact ⟨contentHash text, haccepted, text, hread, rfl⟩

/-- The paths that are read are the same for every builder. -/
theorem pathsRead_process_congr (b' : Builder) (l : Language) :
    (b.process name r s).pathsRead l = (b'.process name r s).pathsRead l := by
  unfold BuildOutput.pathsRead
  rw [hashes_process, hashes_process, hashes_congr b b']

variable {s}

/-- The paths of a language among the hashes are its accepted paths that can be read. -/
theorem pathsRead_process_perm (hs : s.ByLanguage) (l : Language) :
    ((b.process name r s).pathsRead l).Perm
      ((Selection.pathsOf l s.accepted).filter fun path => (r.read? path).isSome) := by
  refine (List.perm_ext_iff_of_nodup ((Dict.keys_nodup _).filter _)
    ((Selection.pathsOf_nodup l _).filter _)).mpr fun path => ?_
  rw [List.mem_filter, List.mem_filter, hashes_process, mem_keys_hashes, Selection.mem_pathsOf,
    beq_iff_eq]
  constructor
  · rintro ⟨⟨⟨l', haccepted⟩, hread⟩, hl⟩
    -- a path belongs to one language
    have : l' = l := Option.some.inj ((hs l' path haccepted).symm.trans hl)
    exact ⟨this ▸ haccepted, hread⟩
  · rintro ⟨haccepted, hread⟩
    exact ⟨⟨⟨l, haccepted⟩, hread⟩, hs l path haccepted⟩

/-- A build and its output agree on which accepted paths have not changed. -/
theorem unchangedFor_process {l : Language} {path : String} (h : (l, path) ∈ s.accepted) :
    (b.process name r s).unchangedFor b.changes path = b.unchangedAt r path := by
  unfold BuildOutput.unchangedFor unchangedAt
  rw [hashes_process, find?_hashes_of_mem b r s h, Option.any_map]

/-- The unchanged files of a language are its paths among the hashes that the filter knows. -/
theorem unchangedFiles_process (hs : s.ByLanguage) (l : Language) :
    ((b.process name r s).summaryOf l).unchangedFiles =
      ((b.process name r s).pathsRead l).countP
        ((b.process name r s).unchangedFor b.changes) := by
  have hcount : ((b.process name r s).summaryOf l).unchangedFiles =
      (Selection.pathsOf l s.accepted).countP (b.unchangedAt r) := by
    rw [summaryOf_process, ← outcome_unchanged_eq b r l, ← outcomeOf_unchanged]
    rfl
  rw [hcount, (pathsRead_process_perm b name r hs l).countP_eq, List.countP_filter]
  -- an unchanged path was read, so asking for its text changes no count
  refine List.countP_congr fun path hpath => ?_
  rw [unchangedFor_process b name r (Selection.mem_pathsOf.mp hpath), Bool.and_eq_true]
  exact (and_iff_left_of_imp isSome_read?_of_unchangedAt).symm

end Process

end Builder

end SourceAtlas
