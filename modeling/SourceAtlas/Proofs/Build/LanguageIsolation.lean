import SourceAtlas.Proofs.Build.SourceOrder
import SourceAtlas.Proofs.Build.View
import SourceAtlas.Proofs.Language

/-!
# Builds: languages do not interfere

All languages of a build share one repository and one table of hashes. Still, what a build says of a
language does not depend on the texts of the others (`ofSources_isolated`). A text of another
language could come in at three places, and does at none:

* **selection**: a file that is too large drops out, but not for the language
  (`accepted_filter_congr`, `oversize_filter_congr`);
* **the files of the language**: texts are stored under normal forms of paths, and no path of
  another language has a normal form that belongs to the language (`not_foreign_of_ofPath?`);
* **module files**: a path that is stored as `go.mod` or `tsconfig.json` has no language
  (`not_foreign_of_isModuleFile`).
-/

namespace SourceAtlas

/-! ## Paths of other languages -/

namespace Language

/-- Whether a path belongs to another language, as it is written or in normal form. -/
def Foreign (l : Language) (path : String) : Prop :=
  ∃ other, other ≠ l ∧ (ofPath? path = some other ∨ ofPath? (RepoPath.normal path) = some other)

variable {l : Language} {path : String}

/-- A path that belongs to another language does not come to belong to the language. -/
theorem Foreign.ofPath?_normal_ne (h : l.Foreign path) :
    ofPath? (RepoPath.normal path) ≠ some l := by
  obtain ⟨other, hne, hwritten | hnormal⟩ := h
  -- the normal form may lose the other language, but does not change it into this one
  · rcases ofPath?_normal_of_some hwritten with hnone | hother
    · rw [hnone]
      exact Option.some_ne_none l |>.symm
    · rw [hother]
      exact fun heq => hne (Option.some.inj heq)
  · rw [hnormal]
    exact fun heq => hne (Option.some.inj heq)

theorem not_foreign_of_ofPath?
    (h : ofPath? (RepoPath.normal (RepoPath.normal path)) = some l) : ¬ l.Foreign path := by
  -- a normal form has no backslashes, so a second one keeps the language
  rw [ofPath?_normal_of_slashes (RepoPath.backslash_not_mem_normal path)] at h
  exact fun hforeign => hforeign.ofPath?_normal_ne h

/-- The name of a module file ends in an extension of no language. -/
theorem IsModuleFile.suffix (h : l.IsModuleFile path) :
    ∃ ext ∈ [['m', 'o', 'd'], ['j', 's', 'o', 'n']], '.' :: ext <:+ path.toList := by
  obtain ⟨-, hname⟩ | ⟨-, rfl | rfl⟩ := h
  · refine ⟨['m', 'o', 'd'], List.mem_cons_self, ?_⟩
    have hsuffix := RepoPath.baseName_suffix path
    rw [hname] at hsuffix
    exact List.IsSuffix.trans ⟨['g', 'o'], rfl⟩ hsuffix
  · exact ⟨['j', 's', 'o', 'n'], by simp, ⟨"tsconfig".toList, by decide⟩⟩
  · exact ⟨['j', 's', 'o', 'n'], by simp, ⟨"jsconfig".toList, by decide⟩⟩

theorem not_foreign_of_isModuleFile
    (h : l.IsModuleFile (RepoPath.normal (RepoPath.normal path))) : ¬ l.Foreign path := by
  obtain ⟨ext, hext, hsuffix⟩ := h.suffix
  -- neither ending belongs to a language
  have hplain : ext ≠ [] ∧ '/' ∉ ext ∧ '.' ∉ ext ∧ ofExtension? (String.ofList ext) = none := by
    rcases List.mem_cons.mp hext with rfl | hext
    · decide +kernel
    · obtain rfl := List.mem_singleton.mp hext
      decide +kernel
  obtain ⟨hne, hslash, hdot, hnone⟩ := hplain
  have hending : '/' ∉ '.' :: ext := by simp [hslash]
  -- the ending goes back through both normal forms
  have hnormal := RepoPath.suffix_of_suffix_normal hending hsuffix
  have hwritten := RepoPath.suffix_of_suffix_normal hending hnormal
  rintro ⟨other, -, h | h⟩
  · rw [ofPath?_of_suffix hwritten hne hslash hdot hnone] at h
    cases h
  · rw [ofPath?_of_suffix hnormal hne hslash hdot hnone] at h
    cases h

end Language

namespace Builder

/-! ## Sources that agree for a language -/

/--
Two lists of sources have the same paths in the same order, and the same texts at all that do not
belong to another language.
-/
def AgreeFor (l : Language) : List (String × String) → List (String × String) → Prop :=
  List.Forall₂ fun source source' =>
    source'.1 = source.1 ∧ (l.Foreign source.1 ∨ source'.2 = source.2)

/-- No file of another language is scanned for the language. -/
theorem filter_languageOf?_eq_none {l : Language} {scan : ScanConfig} {path : String}
    (h : l.Foreign path) :
    ((scan.languageOf? (RepoPath.normal path)).map (·, RepoPath.normal path)).filter
      (·.1 == l) = none := by
  cases hlanguage : scan.languageOf? (RepoPath.normal path) with
  | none => rfl
  | some other =>
    -- whatever language it is scanned for is its own, and that is another one
    have hother := (ScanConfig.languageOf?_eq_some_iff.mp hlanguage).1
    have hne : other ≠ l := fun heq => h.ofPath?_normal_ne (heq ▸ hother)
    simp [hne]

namespace AgreeFor

variable {l : Language} {sources sources' : List (String × String)}
  (h : AgreeFor l sources sources')

include h

theorem map_fst_eq : sources'.map Prod.fst = sources.map Prod.fst := by
  induction h with
  | nil => rfl
  | cons hhead _ ih => rw [List.map_cons, List.map_cons, hhead.1, ih]

/-- What is made of each source for the language is the same. -/
theorem filter_filterMap_eq {α : Type} {f : String × String → Option α} {keep : α → Bool}
    (hforeign : ∀ source, l.Foreign source.1 → (f source).filter keep = none) :
    (sources'.filterMap f).filter keep = (sources.filterMap f).filter keep := by
  rw [List.filter_filterMap, List.filter_filterMap]
  induction h with
  | nil => rfl
  | @cons source source' _ _ hhead _ ih =>
    -- a source counts for nothing, or is the same in both lists
    have hsame : (f source').filter keep = (f source).filter keep := by
      obtain ⟨hpath, hforeignPath | htext⟩ := hhead
      · rw [hforeign source hforeignPath, hforeign source' (hpath ▸ hforeignPath)]
      · rw [Prod.ext hpath htext]
    rw [List.filterMap_cons, List.filterMap_cons, hsame, ih]

/-- The text stored under a path is the same, if none of another language is stored there. -/
theorem read?_eq {path : String} (skeleton : List String)
    (hpath : ∀ written, RepoPath.normal (RepoPath.normal written) = path → ¬ l.Foreign written) :
    (repositoryOf sources' skeleton).read? path = (repositoryOf sources skeleton).read? path := by
  unfold Repository.read?
  rw [texts_repositoryOf, texts_repositoryOf, Dict.find?_ofList, Dict.find?_ofList]
  unfold storedTexts
  -- the sources are stored in their order, and the last one under the path counts
  induction h with
  | nil => rfl
  | @cons source source' _ _ hhead _ ih =>
    obtain ⟨hwritten, hforeign | htext⟩ := hhead
    · -- the first source is stored elsewhere
      have hne : ¬ path = RepoPath.normal (RepoPath.normal source.1) :=
        fun heq => hpath source.1 heq.symm hforeign
      rw [List.map_cons, List.map_cons, List.reverse_cons, List.reverse_cons, List.lookup_append,
        List.lookup_append, ih, Dict.lookup_entry, Dict.lookup_entry, hwritten, if_neg hne,
        if_neg hne]
    · rw [List.map_cons, List.map_cons, List.reverse_cons, List.reverse_cons, List.lookup_append,
        List.lookup_append, ih, hwritten, htext]

theorem known_eq (skeleton : List String) :
    (repositoryOf sources' skeleton).known = (repositoryOf sources skeleton).known := by
  have hstored : ∀ sources : List (String × String), (storedTexts sources).map Prod.fst =
      (sources.map Prod.fst).map fun path => RepoPath.normal (RepoPath.normal path) := by
    intro sources
    unfold storedTexts
    rw [List.map_map, List.map_map]
    rfl
  rw [known_repositoryOf, known_repositoryOf, hstored, hstored, h.map_fst_eq]

/-! ### The selection -/

variable (b : Builder)

/-- What is scanned for the language among sources of some size is the same, in the same order. -/
theorem scanned_filter_congr (scan : ScanConfig) (keep : String → Prop) [DecidablePred keep] :
    (sources'.filterMap fun source => if keep source.2 then
      (scan.languageOf? (RepoPath.normal source.1)).map (·, RepoPath.normal source.1)
      else none).filter (·.1 == l) =
    (sources.filterMap fun source => if keep source.2 then
      (scan.languageOf? (RepoPath.normal source.1)).map (·, RepoPath.normal source.1)
      else none).filter (·.1 == l) := by
  refine h.filter_filterMap_eq fun source hforeign => ?_
  split
  · exact filter_languageOf?_eq_none hforeign
  · rfl

theorem accepted_filter_congr :
    (b.selected sources').accepted.filter (·.1 == l) =
      (b.selected sources).accepted.filter (·.1 == l) := by
  unfold selected normalSources
  rw [accepted_selectSources, accepted_selectSources, List.filterMap_map, List.filterMap_map]
  exact h.scanned_filter_congr b.config.scan (·.utf8ByteSize ≤ b.config.scan.maxFileSize)

theorem oversize_filter_congr :
    (b.selected sources').oversize.filter (·.1 == l) =
      (b.selected sources).oversize.filter (·.1 == l) := by
  unfold selected normalSources
  rw [oversize_selectSources, oversize_selectSources, List.filterMap_map, List.filterMap_map]
  exact h.scanned_filter_congr b.config.scan (b.config.scan.maxFileSize < ·.utf8ByteSize)

theorem mem_accepted_iff {path : String} :
    (l, path) ∈ (b.selected sources').accepted ↔ (l, path) ∈ (b.selected sources).accepted := by
  have hfilter : ∀ files : List (Language × String),
      (l, path) ∈ files ↔ (l, path) ∈ files.filter (·.1 == l) := by
    intro files
    simp
  rw [hfilter, h.accepted_filter_congr b, ← hfilter]

theorem pathsOf_congr : Selection.pathsOf l (b.selected sources').accepted =
    Selection.pathsOf l (b.selected sources).accepted := by
  unfold Selection.pathsOf
  rw [h.accepted_filter_congr b]

theorem mem_languages_iff :
    l ∈ (b.selected sources').languages ↔ l ∈ (b.selected sources).languages := by
  have hfilter : ∀ s : Selection, l ∈ s.languages ↔
      ∃ path, (l, path) ∈ s.accepted.filter (·.1 == l)
        ∨ (l, path) ∈ s.oversize.filter (·.1 == l) := by
    intro s
    simp [Selection.mem_languages]
  rw [hfilter, hfilter, h.accepted_filter_congr b, h.oversize_filter_congr b]

/-! ### The outcome -/

variable (skeleton : List String)

/-- The repositories look the same to the language. -/
theorem sameFor : (repositoryOf sources skeleton).SameFor l
    (Selection.pathsOf l (b.selected sources).accepted) (repositoryOf sources' skeleton) where
  known := h.known_eq skeleton
  texts path _ hmodule := h.read?_eq skeleton fun _ heq =>
    Language.not_foreign_of_isModuleFile (heq ▸ hmodule)
  sources path hpath := by
    have hl := b.selected_byLanguage sources l path (Selection.mem_pathsOf.mp hpath)
    exact h.read?_eq skeleton fun _ heq => Language.not_foreign_of_ofPath? (heq ▸ hl)

theorem outcomeOf_congr :
    b.outcomeOf (repositoryOf sources' skeleton) (b.selected sources') l =
      b.outcomeOf (repositoryOf sources skeleton) (b.selected sources) l := by
  have hoversize : ∀ o : LanguageOutcome, o.language = l →
      b.withOversize (b.selected sources') o = b.withOversize (b.selected sources) o := by
    rintro o rfl
    unfold withOversize
    rw [h.oversize_filter_congr b]
  unfold outcomeOf
  rw [h.pathsOf_congr b, outcome_congr (h.sameFor b skeleton)]
  exact hoversize _ rfl

end AgreeFor

/-! ## What a build says of a language -/

/-- Of items listed language by language, those of one language are kept. -/
theorem filter_flatMap_of_language {α : Type} {l : Language} {items : Language → List α}
    {keep : α → Bool} (hkeep : ∀ other, ∀ a ∈ items other, keep a = (other == l))
    {languages : List Language} (hnodup : languages.Nodup) :
    (languages.flatMap items).filter keep = if l ∈ languages then items l else [] := by
  have hitems : ∀ other, (items other).filter keep = if other = l then items other else [] := by
    intro other
    split
    next heq => exact List.filter_eq_self.mpr fun a ha => by simp [hkeep other a ha, heq]
    next hne => exact List.filter_eq_nil_iff.mpr fun a ha => by simp [hkeep other a ha, hne]
  induction languages with
  | nil => rfl
  | cons other languages ih =>
    obtain ⟨hnot, hrest⟩ := List.nodup_cons.mp hnodup
    rw [List.flatMap_cons, List.filter_append, hitems, ih hrest]
    -- the language stands in the list once, and then it is not among the rest
    by_cases heq : other = l
    · subst heq
      simp [hnot]
    · simp [heq, Ne.symm heq]

section Process

variable (b : Builder) (name : String) (r : Repository) {s : Selection} (l : Language)

theorem files_process_filter (hs : s.ByLanguage) :
    ((b.process name r s).document.files.filter fun file =>
      Language.ofPath? file.path == some l) =
      if l ∈ s.languages then (b.outcomeOf r s l).files else [] := by
  rw [document_files_process]
  refine filter_flatMap_of_language (fun other file hfile => ?_) s.languages_nodup
  have hpath := Selection.mem_pathsOf.mp (path_mem_of_mem_outcome b r other _ hfile)
  rw [hs other _ hpath]
  rfl

theorem language_of_mem_failures {f : Failure} (hf : f ∈ (b.outcomeOf r s l).failures) :
    f.language = l := by
  rw [outcomeOf_failures, outcome_failures_eq, List.mem_append, List.mem_append] at hf
  rcases hf with (hunread | hparse) | hoversize
  · obtain ⟨path, -, rfl⟩ := List.mem_map.mp hunread
    rfl
  · obtain ⟨path, -, hfailure⟩ := List.mem_filterMap.mp hparse
    obtain ⟨e, rfl⟩ := eq_of_failureAt? hfailure
    rfl
  · obtain ⟨path, -, rfl⟩ := List.mem_map.mp hoversize
    rfl

theorem failures_process_filter :
    (b.process name r s).failures.filter (·.language == l) =
      if l ∈ s.languages then (b.outcomeOf r s l).failures else [] := by
  rw [failures_process]
  refine filter_flatMap_of_language (fun other f hf => ?_) s.languages_nodup
  rw [language_of_mem_failures b r other hf]

end Process

end Builder

/-- What two builds say of a language is the same. -/
structure BuildOutput.SameFor (l : Language) (out out' : BuildOutput) : Prop where
  files : (out'.document.files.filter fun file => Language.ofPath? file.path == some l) =
    out.document.files.filter fun file => Language.ofPath? file.path == some l
  failures : out'.failures.filter (·.language == l) = out.failures.filter (·.language == l)
  hashes : ∀ path, Language.ofPath? path = some l → out'.hashes.find? path = out.hashes.find? path
  summary : out'.document.project.languages.find? l.name =
    out.document.project.languages.find? l.name

namespace Builder

/-- The accepted files of a language are hashed by their texts. -/
theorem find?_hashes_of_language (b : Builder) (r : Repository) {s : Selection} (hs : s.ByLanguage)
    {l : Language} {path hash : String} (hl : Language.ofPath? path = some l) :
    (b.hashes r s).find? path = some hash ↔
      (l, path) ∈ s.accepted ∧ ∃ text, r.read? path = some text ∧ hash = contentHash text := by
  rw [find?_hashes]
  refine and_congr_left fun _ => ⟨?_, fun h => ⟨l, h⟩⟩
  rintro ⟨other, hother⟩
  have heq := hs other path hother
  rw [hl] at heq
  cases heq
  exact hother

/--
**Languages do not interfere.** Let two lists of sources have the same paths in the same order, and
the same texts at all paths that do not belong to a language other than `l`, be it as they are
written or in normal form. Then, whatever the settings, the skeleton and the hashes of an earlier
run, if both builds succeed they have the same files of `l` with all that is in them, the same
failures of `l`, the same hashes at the paths of `l`, and the same counts of `l`.
-/
theorem ofSources_isolated {b : Builder} {name : String} {l : Language}
    {sources sources' : List (String × String)} {skeleton : List String} {out out' : BuildOutput}
    (h : AgreeFor l sources sources') (hout : b.ofSources name sources skeleton = .ok out)
    (hout' : b.ofSources name sources' skeleton = .ok out') : out.SameFor l out' := by
  obtain ⟨-, -, -, rfl⟩ := ofSources_eq_ok_iff.mp hout
  obtain ⟨-, -, -, rfl⟩ := ofSources_eq_ok_iff.mp hout'
  have hs := b.selected_byLanguage sources
  have hs' := b.selected_byLanguage sources'
  constructor
  case files =>
    rw [files_process_filter b name _ l hs', files_process_filter b name _ l hs,
      h.outcomeOf_congr b skeleton, if_congr (h.mem_languages_iff b) rfl rfl]
  case failures =>
    rw [failures_process_filter b name _ l, failures_process_filter b name _ l,
      h.outcomeOf_congr b skeleton, if_congr (h.mem_languages_iff b) rfl rfl]
  case hashes =>
    intro path hl
    have hread := h.read?_eq skeleton fun _ heq => Language.not_foreign_of_ofPath? (heq ▸ hl)
    refine Option.ext fun hash => ?_
    rw [hashes_process, hashes_process, find?_hashes_of_language b _ hs' hl,
      find?_hashes_of_language b _ hs hl, h.mem_accepted_iff b, hread]
  case summary =>
    rw [find?_languages_process, find?_languages_process, h.outcomeOf_congr b skeleton,
      if_congr (h.mem_languages_iff b) rfl rfl]

/--
A script grows above the limit and fails; the two files that call each other stay as they are.
-/
theorem ofSources_isolated_mutualCalls :
    let b := { oneCallBuilder with config.scan.maxFileSize := 12 }
    let sources := ("c.ts", "") :: mutualCalls
    let sources' := ("c.ts", "let x = 1000;") :: mutualCalls
    AgreeFor .python sources sources'
      ∧ ∃ out out', b.ofSources "sample" sources ["d.py"] = .ok out
        ∧ b.ofSources "sample" sources' ["d.py"] = .ok out' ∧ out.SameFor .python out'
        ∧ out.document.files.map (·.path) = ["a.py", "b.py", "c.ts"]
        ∧ out'.document.files.map (·.path) = ["a.py", "b.py"]
        ∧ out'.failures.map (·.path) = ["c.ts"] := by
  intro b sources sources'
  -- a script is foreign to Python, so it may grow
  have hscript : Language.python.Foreign "c.ts" :=
    ⟨.typescript, by decide, Or.inl (by decide +kernel)⟩
  have hagree : AgreeFor .python sources sources' :=
    .cons ⟨rfl, Or.inl hscript⟩ (.cons ⟨rfl, Or.inr rfl⟩ (.cons ⟨rfl, Or.inr rfl⟩ .nil))
  have hout : b.ofSources "sample" sources ["d.py"] = .ok (b.process "sample"
      (repositoryOf sources ["d.py"]) (b.selected sources)) :=
    ofSources_eq_ok_iff.mpr
      ⟨by decide +kernel, by decide +kernel, by decide +kernel, rfl⟩
  have hout' : b.ofSources "sample" sources' ["d.py"] = .ok (b.process "sample"
      (repositoryOf sources' ["d.py"]) (b.selected sources')) :=
    ofSources_eq_ok_iff.mpr
      ⟨by decide +kernel, by decide +kernel, by decide +kernel, rfl⟩
  exact ⟨hagree, _, _, hout, hout', ofSources_isolated hagree hout hout', by decide +kernel⟩

end Builder

end SourceAtlas
