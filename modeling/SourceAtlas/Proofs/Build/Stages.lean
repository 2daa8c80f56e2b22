import SourceAtlas.Build
import SourceAtlas.Proofs.Dict
import SourceAtlas.Proofs.Traversal
import SourceAtlas.Proofs.WorkPool

/-!
# The stages of a build

A build selects files among its sources, reads and hashes them, extracts and indexes them language
by language, and joins the outcomes. Here each stage gets the one statement by which the theorems
about builds see it:

* **selection**: `mem_accepted` and `mem_oversize` say which sources are kept, `mem_pathsOf` and
  `pathsOf_pairwise` how the paths of a language are listed;
* **reading**: `mem_readFiles` and `map_path_readFiles`;
* **hashes**: `find?_hashes` says that every accepted path that can be read has the hash of its
  text;
* **outcomes**: `processLanguage_eq` takes the worker pool out of the way. It either breaks down,
  which depends on the number of files alone, or leaves the outcome of the language as it is without
  a pool;
* **the whole**: `ofSources_eq_ok_iff`, after which a build is `process` on a selection, and
  `ofSources_eq_error_iff` for the ways in which it fails.
-/

namespace SourceAtlas

/-! ## Selection -/

/-- The language that a path is scanned for. -/
def ScanConfig.languageOf? (scan : ScanConfig) (path : String) : Option Language :=
  (Language.ofPath? path).filter scan.languages.contains

theorem ScanConfig.languageOf?_eq_some_iff {scan : ScanConfig} {path : String} {l : Language} :
    scan.languageOf? path = some l ↔ Language.ofPath? path = some l ∧ l ∈ scan.languages := by
  unfold languageOf?
  rw [Option.filter_eq_some_iff, List.contains_iff_mem]

namespace Selection

theorem mem_pathsOf {l : Language} {files : List (Language × String)} {path : String} :
    path ∈ pathsOf l files ↔ (l, path) ∈ files := by
  unfold pathsOf
  rw [Dict.mem_keys_ofList]
  simp [List.mem_map, List.mem_filter]

/-- The paths of a language are listed in strictly increasing order, so each once. -/
theorem pathsOf_pairwise (l : Language) (files : List (Language × String)) :
    (pathsOf l files).Pairwise (· < ·) :=
  Dict.keys_pairwise _

theorem pathsOf_nodup (l : Language) (files : List (Language × String)) :
    (pathsOf l files).Nodup :=
  Dict.keys_nodup _

/-- Listing the paths of a language in order loses nothing if none is repeated. -/
theorem pathsOf_perm {l : Language} {files : List (Language × String)}
    (h : ((files.filter (·.1 == l)).map Prod.snd).Nodup) :
    (pathsOf l files).Perm ((files.filter (·.1 == l)).map Prod.snd) := by
  -- the paths go into the dictionary as keys, with nothing stored under them
  have hfst : ((files.filter (·.1 == l)).map fun e => (e.2, ())).map Prod.fst =
      (files.filter (·.1 == l)).map Prod.snd := by
    rw [List.map_map]
    rfl
  have hperm := Dict.keys_ofList_perm (hfst.symm ▸ h)
  rw [hfst] at hperm
  exact hperm

theorem mem_languages {s : Selection} {l : Language} :
    l ∈ s.languages ↔ ∃ path, (l, path) ∈ s.accepted ∨ (l, path) ∈ s.oversize := by
  unfold languages
  have hall : l ∈ Language.all := by cases l <;> decide
  simp only [List.mem_filter, hall, true_and, List.any_eq_true, List.mem_append, beq_iff_eq]
  constructor
  · rintro ⟨⟨l', path⟩, hmem, rfl⟩
    exact ⟨path, hmem⟩
  · rintro ⟨path, hmem⟩
    exact ⟨(l, path), hmem, rfl⟩

theorem languages_nodup (s : Selection) : s.languages.Nodup :=
  (by decide : Language.all.Nodup).filter _

/-- Every accepted path is listed under the language that owns it. -/
def ByLanguage (s : Selection) : Prop :=
  ∀ l path, (l, path) ∈ s.accepted → Language.ofPath? path = some l

/-- What one file adds to the accepted files of a selection. -/
theorem accepted_add (scan : ScanConfig) (s : Selection) (path : String) (size : Nat) :
    (s.add scan path size).accepted = s.accepted ++
      (if size ≤ scan.maxFileSize then (scan.languageOf? path).map (·, path) else none).toList := by
  unfold add ScanConfig.languageOf?
  cases Language.ofPath? path with
  | none => simp
  | some l =>
    -- a file is passed over for its language before its size is looked at
    by_cases hl : l ∈ scan.languages
    · by_cases hsize : size ≤ scan.maxFileSize
      · simp [hl, hsize, Nat.not_lt.mpr hsize, Option.filter]
      · simp [hl, hsize, Nat.not_le.mp hsize]
    · simp [hl, Option.filter]

/-- What one file adds to the oversize files of a selection. -/
theorem oversize_add (scan : ScanConfig) (s : Selection) (path : String) (size : Nat) :
    (s.add scan path size).oversize = s.oversize ++
      (if scan.maxFileSize < size then (scan.languageOf? path).map (·, path) else none).toList := by
  unfold add ScanConfig.languageOf?
  cases Language.ofPath? path with
  | none => simp
  | some l =>
    by_cases hl : l ∈ scan.languages
    · by_cases hsize : scan.maxFileSize < size
      · simp [hl, hsize, Option.filter]
      · simp [hl, hsize]
    · simp [hl, Option.filter]

end Selection

namespace Builder

/-- The accepted files are the sources of scanned languages within the limit, in their order. -/
theorem accepted_selectSources (scan : ScanConfig) (sources : List (String × String)) :
    (selectSources scan sources).accepted = sources.filterMap fun (path, text) =>
      if text.utf8ByteSize ≤ scan.maxFileSize then (scan.languageOf? path).map (·, path)
      else none :=
  Traversal.foldl_append_toList (fun s (source : String × String) =>
    Selection.accepted_add scan s source.1 source.2.utf8ByteSize) sources {}

/-- The oversize files are the sources of scanned languages above the limit, in their order. -/
theorem oversize_selectSources (scan : ScanConfig) (sources : List (String × String)) :
    (selectSources scan sources).oversize = sources.filterMap fun (path, text) =>
      if scan.maxFileSize < text.utf8ByteSize then (scan.languageOf? path).map (·, path)
      else none :=
  Traversal.foldl_append_toList (fun s (source : String × String) =>
    Selection.oversize_add scan s source.1 source.2.utf8ByteSize) sources {}

/-- The files kept for their text among some sources. -/
theorem mem_filterMap_scanned {scan : ScanConfig} {sources : List (String × String)}
    (keep : String → Prop) [DecidablePred keep] {l : Language} {path : String} :
    ((l, path) ∈ sources.filterMap fun (path, text) =>
      if keep text then (scan.languageOf? path).map (·, path) else none) ↔
      scan.languageOf? path = some l ∧ ∃ text, (path, text) ∈ sources ∧ keep text := by
  rw [List.mem_filterMap]
  constructor
  · rintro ⟨⟨path', text⟩, hmem, hsome⟩
    dsimp only at hsome
    -- the entry of a source tells its path and language, and that it was kept
    split at hsome
    next hkeep =>
      obtain ⟨l', hl, heq⟩ := Option.map_eq_some_iff.mp hsome
      cases heq
      exact ⟨hl, text, hmem, hkeep⟩
    next => cases hsome
  · rintro ⟨hl, text, hmem, hkeep⟩
    exact ⟨(path, text), hmem, by simp [hkeep, hl]⟩

theorem mem_accepted {scan : ScanConfig} {sources : List (String × String)} {l : Language}
    {path : String} : (l, path) ∈ (selectSources scan sources).accepted ↔
      scan.languageOf? path = some l
        ∧ ∃ text, (path, text) ∈ sources ∧ text.utf8ByteSize ≤ scan.maxFileSize := by
  rw [accepted_selectSources]
  exact mem_filterMap_scanned (·.utf8ByteSize ≤ scan.maxFileSize)

theorem mem_oversize {scan : ScanConfig} {sources : List (String × String)} {l : Language}
    {path : String} : (l, path) ∈ (selectSources scan sources).oversize ↔
      scan.languageOf? path = some l
        ∧ ∃ text, (path, text) ∈ sources ∧ scan.maxFileSize < text.utf8ByteSize := by
  rw [oversize_selectSources]
  exact mem_filterMap_scanned (scan.maxFileSize < ·.utf8ByteSize)

/-! ## Reading -/

section Reading

variable (b : Builder) (r : Repository)

/-- The files that were read, by their paths and texts. -/
theorem mem_readFiles {paths : List String} {f : ReadFile} :
    f ∈ b.readFiles r paths ↔
      ∃ path ∈ paths, ∃ text, r.read? path = some text ∧ f = b.readFile path text := by
  unfold readFiles
  simp only [List.mem_filterMap, Option.map_eq_some_iff]
  constructor
  · rintro ⟨path, hmem, text, hread, rfl⟩
    exact ⟨path, hmem, text, hread, rfl⟩
  · rintro ⟨path, hmem, text, hread, rfl⟩
    exact ⟨path, hmem, text, hread, rfl⟩

/-- The paths of the files that were read, in order: those with a text. -/
theorem map_path_readFiles (paths : List String) :
    (b.readFiles r paths).map (·.path) = paths.filter fun path => (r.read? path).isSome := by
  induction paths with
  | nil => rfl
  | cons path paths ih =>
    unfold readFiles at ih ⊢
    cases hread : r.read? path with
    | none => simp [hread, ih]
    | some text => simp [hread, ih, readFile]

/-- As many files are read as there are paths with a text, whoever reads them. -/
theorem length_readFiles (paths : List String) :
    (b.readFiles r paths).length = paths.countP fun path => (r.read? path).isSome := by
  rw [List.countP_eq_length_filter, ← map_path_readFiles b r, List.length_map]

end Reading

/-! ## Hashes -/

/-- Every accepted path with a text has the hash of that text, and no other path has one. -/
theorem find?_hashes (b : Builder) (r : Repository) (s : Selection) (path hash : String) :
    (b.hashes r s).find? path = some hash ↔
      (∃ l, (l, path) ∈ s.accepted)
        ∧ ∃ text, r.read? path = some text ∧ hash = contentHash text := by
  -- the pairs that the hashes are made from
  have hpair : ∀ p h, (p, h) ∈ (s.languages.flatMap fun l =>
      (b.readFiles r (Selection.pathsOf l s.accepted)).map fun f => (f.path, f.hash)) ↔
      (∃ l, (l, p) ∈ s.accepted) ∧ ∃ text, r.read? p = some text ∧ h = contentHash text := by
    intro p h
    simp only [List.mem_flatMap, List.mem_map, mem_readFiles, Selection.mem_pathsOf]
    constructor
    · rintro ⟨l, -, f, ⟨path, hacc, text, hread, rfl⟩, heq⟩
      cases heq
      exact ⟨⟨l, hacc⟩, text, hread, rfl⟩
    · rintro ⟨⟨l, hacc⟩, text, hread, rfl⟩
      -- an accepted path makes its language one of those that are read
      exact ⟨l, Selection.mem_languages.mpr ⟨p, Or.inl hacc⟩, b.readFile p text,
        ⟨p, hacc, text, hread, rfl⟩, rfl⟩
  unfold hashes
  constructor
  · intro hfind
    exact (hpair path hash).mp (Dict.mem_of_find?_ofList hfind)
  · intro h
    refine Dict.find?_ofList_of_agree ((hpair path hash).mpr h) ?_
    -- a path read for several languages has one text
    intro v hv
    obtain ⟨-, text, hread, rfl⟩ := h
    obtain ⟨-, text', hread', rfl⟩ := (hpair path v).mp hv
    rw [hread] at hread'
    cases hread'
    rfl

/-- The hashes are those of the texts, whoever builds. -/
theorem hashes_congr (b b' : Builder) (r : Repository) (s : Selection) :
    b.hashes r s = b'.hashes r s := by
  unfold hashes readFiles
  -- the filter of changes, where builders differ, is not part of the pair
  simp only [List.map_filterMap, Option.map_map]
  rfl

/-! ## Outcomes -/

section Outcome

variable (b : Builder) (r : Repository) (l : Language) (paths : List String)

/-- The files of a language with what they declare. -/
def parsedFiles : List ParsedFile :=
  (b.readFiles r paths).map (b.parse l)

/-- What the files of a language at some paths come to, the worker pool aside. -/
def outcome : LanguageOutcome :=
  { language := l
    files := (toRecord (b.parsedFiles r l paths)).map fun (x, lines) =>
      record (indexOf l r (b.parsedFiles r l paths)) x lines
    failures := (paths.filter fun path => (r.read? path).isNone).map (Failure.unreadable l)
      ++ (b.parsedFiles r l paths).filterMap (parseFailure? l)
    unchanged := ((b.readFiles r paths).filter (!·.changed)).length }

theorem outcome_files :
    (b.outcome r l paths).files =
      (toRecord (b.parsedFiles r l paths)).map fun (x, lines) =>
        record (indexOf l r (b.parsedFiles r l paths)) x lines :=
  rfl

theorem outcome_failures :
    (b.outcome r l paths).failures =
      (paths.filter fun path => (r.read? path).isNone).map (Failure.unreadable l)
        ++ (b.parsedFiles r l paths).filterMap (parseFailure? l) :=
  rfl

theorem length_toRecord_le (parsed : List ParsedFile) : (toRecord parsed).length ≤ parsed.length :=
  List.length_filterMap_le _ _

/--
Processing a language breaks down with the pool, and gives its outcome otherwise. The pool goes over
the files that were read and then over those to be recorded, which are no more, so only the first
pass can break down.
-/
theorem processLanguage_eq :
    b.processLanguage r l paths =
      if b.pool.refuses (paths.countP fun path => (r.read? path).isSome) then
        .error .capacityOverflow
      else .ok (b.outcome r l paths) := by
  unfold processLanguage
  dsimp only
  rw [WorkPool.map_eq, length_readFiles]
  split
  next => rfl
  next hrefuses =>
    -- the second pass is over no more files than the first
    have hrecord : ¬b.pool.refuses (toRecord (b.parsedFiles r l paths)).length = true := by
      refine fun h => hrefuses (WorkPool.refuses_mono ?_ h)
      refine Nat.le_trans (length_toRecord_le _) (Nat.le_of_eq ?_)
      unfold parsedFiles
      rw [List.length_map, length_readFiles]
    show (b.pool.map _ (toRecord (b.parsedFiles r l paths)) >>= _) = _
    rw [WorkPool.map_eq, if_neg hrecord]
    rfl

theorem record_path (ix : Index) (x : Extraction) (lines : Nat) :
    (record ix x lines).path = x.path :=
  rfl

end Outcome

/-! ## The whole build -/

/-- The selection that a build from sources makes. -/
def selected (b : Builder) (sources : List (String × String)) : Selection :=
  selectSources b.config.scan (normalSources sources)

/-- A selection lists every accepted path under the language that owns it. -/
theorem selected_byLanguage (b : Builder) (sources : List (String × String)) :
    (b.selected sources).ByLanguage := fun _ _ h =>
  (ScanConfig.languageOf?_eq_some_iff.mp (mem_accepted.mp h).1).1

/-- The repository that a build from sources works on. -/
def repositoryOf (sources : List (String × String)) (skeleton : List String) : Repository :=
  Repository.ofSources (normalSources sources) skeleton

/-- What the files of a language come to, the oversize ones included. -/
def outcomeOf (b : Builder) (r : Repository) (s : Selection) (l : Language) : LanguageOutcome :=
  b.withOversize s (b.outcome r l (Selection.pathsOf l s.accepted))

/-- What the languages of a selection come to. -/
def outcomes (b : Builder) (r : Repository) (s : Selection) : List LanguageOutcome :=
  s.languages.map (b.outcomeOf r s)

/-- The document for a selection of the files of a repository, with failures and hashes. -/
def process (b : Builder) (name : String) (r : Repository) (s : Selection) : BuildOutput :=
  b.outputOf name r s (b.outcomes r s)

/-- The number of accepted files of a language that can be read. -/
def readable (r : Repository) (s : Selection) (l : Language) : Nat :=
  (Selection.pathsOf l s.accepted).countP fun path => (r.read? path).isSome

/-- Whether the pool breaks down over the files of some language. -/
def breaksDown (b : Builder) (r : Repository) (s : Selection) : Bool :=
  s.languages.any fun l => b.pool.refuses (readable r s l)

/-- Only a language with files can be too much for the pool, so all languages may be asked. -/
theorem breaksDown_eq_true_iff {b : Builder} {r : Repository} {s : Selection} :
    b.breaksDown r s = true ↔ ∃ l, b.pool.refuses (readable r s l) = true := by
  unfold breaksDown
  rw [List.any_eq_true]
  refine exists_congr fun l => and_iff_right_of_imp fun h => ?_
  -- a pool that refuses was given a file, which is one of the language
  obtain ⟨-, -, hpos, -⟩ := WorkPool.refuses_eq_true_iff.mp h
  obtain ⟨path, hpath, -⟩ := List.countP_pos_iff.mp hpos
  exact Selection.mem_languages.mpr ⟨path, Or.inl (Selection.mem_pathsOf.mp hpath)⟩

/-- Where the pool breaks down, something was selected. -/
theorem isEmpty_eq_false_of_breaksDown {b : Builder} {r : Repository} {s : Selection}
    (h : b.breaksDown r s = true) : s.isEmpty = false := by
  obtain ⟨l, hl, -⟩ := List.any_eq_true.mp h
  obtain ⟨path, hpath⟩ := Selection.mem_languages.mp hl
  unfold Selection.isEmpty
  rw [Bool.and_eq_false_iff, List.isEmpty_eq_false_iff_exists_mem,
    List.isEmpty_eq_false_iff_exists_mem]
  exact hpath.imp (fun h => ⟨_, h⟩) fun h => ⟨_, h⟩

/-- Builders with the same pool break down over the same files. -/
theorem breaksDown_congr {b b' : Builder} {r r' : Repository} {s s' : Selection}
    (hpool : b'.pool = b.pool) (hreadable : ∀ l, readable r' s' l = readable r s l) :
    b'.breaksDown r' s' = b.breaksDown r s := by
  rw [Bool.eq_iff_iff, breaksDown_eq_true_iff, breaksDown_eq_true_iff]
  simp only [hpool, hreadable]

theorem processLanguages_eq (b : Builder) (r : Repository) (s : Selection) :
    b.processLanguages r s =
      if b.breaksDown r s then .error .capacityOverflow else .ok (b.outcomes r s) := by
  refine Traversal.mapM_except_eq (fun l => ?_) s.languages
  rw [processLanguage_eq]
  unfold readable
  split <;> rfl

/-- A build of a selection breaks down with the pool, and is `process` otherwise. -/
theorem processSelection_eq (b : Builder) (name : String) (r : Repository) (s : Selection) :
    b.processSelection name r s =
      if b.breaksDown r s then .error (.breakdown .capacityOverflow)
      else .ok (b.process name r s) := by
  unfold processSelection
  rw [processLanguages_eq]
  cases b.breaksDown r s <;> rfl

theorem processSelection_eq_ok_iff {b : Builder} {name : String} {r : Repository} {s : Selection}
    {out : BuildOutput} :
    b.processSelection name r s = .ok out ↔
      b.breaksDown r s = false ∧ out = b.process name r s := by
  rw [processSelection_eq]
  cases b.breaksDown r s with
  | true => simp
  | false => simp [eq_comm]

theorem processSelection_eq_error_iff {b : Builder} {name : String} {r : Repository}
    {s : Selection} {e : BuildError} :
    b.processSelection name r s = .error e ↔
      b.breaksDown r s = true ∧ e = .breakdown .capacityOverflow := by
  rw [processSelection_eq]
  cases b.breaksDown r s with
  | true => simp [eq_comm]
  | false => simp

/-- A build from sources succeeds if the settings are valid, some source is recognised, and the pool
does not break down; it is then `process` on the selection. -/
theorem ofSources_eq_ok_iff {b : Builder} {name : String} {sources : List (String × String)}
    {skeleton : List String} {out : BuildOutput} :
    b.ofSources name sources skeleton = .ok out ↔
      b.config.validate = .ok () ∧ (b.selected sources).isEmpty = false
        ∧ b.breaksDown (repositoryOf sources skeleton) (b.selected sources) = false
        ∧ out = b.process name (repositoryOf sources skeleton) (b.selected sources) := by
  unfold ofSources selected repositoryOf
  -- the checks are made in this order, each before the next is looked at
  cases b.config.validate with
  | error e => simp
  | ok u =>
    simp only [true_and]
    split
    next hempty => simp [hempty]
    next hempty =>
      rw [Bool.not_eq_true] at hempty
      simp only [hempty, true_and]
      exact processSelection_eq_ok_iff

/-- A build from sources fails if the settings are invalid, or else if no source is recognised, or
else if the pool breaks down. -/
theorem ofSources_eq_error_iff {b : Builder} {name : String} {sources : List (String × String)}
    {skeleton : List String} {e : BuildError} :
    b.ofSources name sources skeleton = .error e ↔
      (∃ invalid, b.config.validate = .error invalid ∧ e = .config invalid)
        ∨ b.config.validate = .ok () ∧ (b.selected sources).isEmpty = true
          ∧ e = .noRecognizedFiles name
        ∨ b.config.validate = .ok () ∧ (b.selected sources).isEmpty = false
          ∧ b.breaksDown (repositoryOf sources skeleton) (b.selected sources) = true
          ∧ e = .breakdown .capacityOverflow := by
  unfold ofSources selected repositoryOf
  -- in the same order, so one failure hides those after it
  cases b.config.validate with
  | error invalid =>
    simp only [Except.error.injEq, exists_eq_left', reduceCtorEq, false_and, or_false]
    exact eq_comm
  | ok u =>
    simp only [true_and, reduceCtorEq, false_and, exists_false, false_or]
    split
    next hempty =>
      simp only [hempty, Except.error.injEq, reduceCtorEq, true_and, false_and, or_false]
      exact eq_comm
    next hempty =>
      rw [Bool.not_eq_true] at hempty
      simp only [hempty, reduceCtorEq, true_and, false_and, false_or]
      exact processSelection_eq_error_iff

theorem document_files_process (b : Builder) (name : String) (r : Repository) (s : Selection) :
    (b.process name r s).document.files =
      s.languages.flatMap fun l => (b.outcomeOf r s l).files := by
  show (b.outcomes r s).flatMap (·.files) = _
  unfold outcomes
  rw [List.flatMap_map]

theorem failures_process (b : Builder) (name : String) (r : Repository) (s : Selection) :
    (b.process name r s).failures = s.languages.flatMap fun l => (b.outcomeOf r s l).failures := by
  show (b.outcomes r s).flatMap (·.failures) = _
  unfold outcomes
  rw [List.flatMap_map]

theorem hashes_process (b : Builder) (name : String) (r : Repository) (s : Selection) :
    (b.process name r s).hashes = b.hashes r s :=
  rfl

/-!
## Small builds

Two files that call each other, and files without text, for statements that are to be seen at work.
-/

open Tree (rule) in
/-- The tree of a Python text of the shape `def f(): g()`. -/
def oneCallTree : Tree :=
  rule "module" none 0 12
    [rule "function_definition" none 0 12
      [rule "identifier" (some "name") 4 5 [],
       rule "parameters" (some "parameters") 5 7 [],
       rule "block" (some "body") 9 12
        [rule "expression_statement" none 9 12
          [rule "call" none 9 12
            [rule "identifier" (some "function") 9 10 [],
             rule "argument_list" (some "arguments") 10 12 []]]]]]

/-- A builder for texts of that shape. -/
def oneCallBuilder : Builder :=
  { config := .default, grammar := fun _ _ => oneCallTree, now := .epoch }

/-- Two files, each with a function that calls the one of the other file. -/
def mutualCalls : List (String × String) :=
  [("a.py", "def f(): g()"), ("b.py", "def g(): f()")]

/-- A builder for TypeScript files without text. -/
def noTextBuilder : Builder :=
  { config := .default
    grammar := fun _ _ =>
      .rule "program" none 0 0 []
    now := .epoch }

end Builder

end SourceAtlas
