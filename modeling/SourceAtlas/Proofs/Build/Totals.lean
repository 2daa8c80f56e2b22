import SourceAtlas.Proofs.Build.Pathwise

/-!
# Documents: the totals are those of the files

A document counts its files along three ways. Each outcome has a summary, which is added to the
entry of its language; the totals are taken over the files of all outcomes; and the lines are
counted anew from the texts at hand. Here the three ways are shown to agree:

* **`Merge.countsOutcomes_document`**: the totals are the numbers of files, classes, functions and
  calls in the document, every language has the counts of its own outcomes, however many these are,
  and the counts of the languages add up to the totals;
* **`Merge.project_document_perm`**: the order of the outcomes does not show in the project data;
* **`Builder.totalLines_ofSources`**: in a build from sources the lines counted anew are the lines
  recorded with the files.

A number of a summary is treated by what makes it a count (`LanguageSummary.IsCount`), so what is
shown of one holds of files, classes and functions alike.
-/

namespace SourceAtlas

/-! ## Sums over lists -/

section Sums

variable {α β : Type}

/-- A sum over lists one after another is the sum of their sums. -/
theorem total_flatMap (f : β → Nat) (g : α → List β) (xs : List α) :
    total f (xs.flatMap g) = total (fun x => total f (g x)) xs := by
  induction xs with
  | nil => rfl
  | cons x xs ih => rw [List.flatMap_cons, total_append, total_cons, ih]

/-- The items of some lists are as many as the lists are long together. -/
theorem length_flatMap_eq_total (g : α → List β) (xs : List α) :
    (xs.flatMap g).length = total (fun x => (g x).length) xs := by
  induction xs with
  | nil => rfl
  | cons x xs ih => rw [List.flatMap_cons, List.length_append, total_cons, ih]

/-- A sum does not depend on the order. -/
theorem total_perm {f : α → Nat} {xs ys : List α} (h : xs.Perm ys) : total f xs = total f ys := by
  induction h with
  | nil => rfl
  | cons x _ ih => rw [total_cons, total_cons, ih]
  | swap x y rest =>
    simp only [total_cons]
    omega
  | trans _ _ ih₁ ih₂ => exact ih₁.trans ih₂

end Sums

/-! ## Sums over dictionaries

An entry that takes the place of another changes a sum by the difference of the two. The sums are
natural numbers, so what was there before stands on the other side. -/

namespace Dict

variable {α : Type}

/-- A key below all others is not found. -/
theorem lookup_eq_none_of_lt {key : String} {entries : List (String × α)}
    (h : ∀ e ∈ entries, key < e.1) : entries.lookup key = none := by
  rw [List.lookup_eq_none_iff]
  intro e he
  have hne : key ≠ e.1 := fun heq => String.lt_irrefl e.1 (heq ▸ h e he)
  simpa using hne

/-- An entry comes in, and the one that it replaces goes out. -/
theorem total_insertEntry (f : α → Nat) (key : String) (value : α) {entries : List (String × α)}
    (h : KeysIncrease entries) :
    total f ((insertEntry key value entries).map Prod.snd) + ((entries.lookup key).map f).getD 0 =
      total f (entries.map Prod.snd) + f value := by
  induction entries with
  | nil => simp [insertEntry]
  | cons e rest ih =>
    obtain ⟨k, v⟩ := e
    obtain ⟨hhead, hrest⟩ := List.pairwise_cons.mp h
    simp only [insertEntry]
    split
    next hlt =>
      -- the key comes before all entries, so none of them is replaced
      have hnone : ((k, v) :: rest).lookup key = none := by
        refine lookup_eq_none_of_lt fun e he => ?_
        rcases List.mem_cons.mp he with rfl | hmem
        · exact hlt
        · exact String.lt_trans hlt (hhead e hmem)
      rw [hnone]
      simp only [List.map_cons, total_cons, Option.map_none, Option.getD_none]
      omega
    next hlt =>
      split
      next hgt =>
        -- the key belongs further on
        have hne : key ≠ k := fun heq => String.lt_irrefl k (heq ▸ hgt)
        have hih := ih hrest
        rw [lookup_entry, if_neg hne, List.map_cons, List.map_cons, total_cons, total_cons]
        omega
      next hgt =>
        -- the entry of the key is replaced
        have heq : key = k := eq_of_not_lt hlt hgt
        rw [lookup_entry, if_pos heq]
        simp only [List.map_cons, total_cons, Option.map_some, Option.getD_some]
        omega

theorem total_values_update (f : α → Nat) (d : Dict α) (key : String) (g : Option α → α) :
    total f (d.update key g).values + ((d.find? key).map f).getD 0 =
      total f d.values + f (g (d.find? key)) :=
  total_insertEntry f key (g (d.find? key)) d.increasing

end Dict

/-! ## Summaries -/

/-- Whether a number of a summary is a count: nothing has none, and counts of groups add up. -/
structure LanguageSummary.IsCount (c : LanguageSummary → Nat) : Prop where
  empty : c {} = 0
  add : ∀ s t, c (s.add t) = c s + c t

theorem LanguageSummary.isCount_files : IsCount (·.files) :=
  ⟨rfl, fun _ _ => rfl⟩

theorem LanguageSummary.isCount_classes : IsCount (·.classes) :=
  ⟨rfl, fun _ _ => rfl⟩

theorem LanguageSummary.isCount_functions : IsCount (·.functions) :=
  ⟨rfl, fun _ _ => rfl⟩

theorem LanguageSummary.add_right_comm (s t u : LanguageSummary) :
    (s.add t).add u = (s.add u).add t := by
  simp only [LanguageSummary.add, Nat.add_right_comm]

namespace Merge

section Count

variable {c : LanguageSummary → Nat} (hc : LanguageSummary.IsCount c)

include hc

/-- One outcome adds its count to the sum over the languages, whether or not its language has an
entry already. -/
theorem total_addSummary (d : Dict LanguageSummary) (o : LanguageOutcome) :
    total c (addSummary d o).values = total c d.values + c o.summary := by
  have hupdate := Dict.total_values_update c d o.language.name fun s => (s.getD {}).add o.summary
  -- a language without an entry counts as one with nothing
  have hbefore :
      ((d.find? o.language.name).map c).getD 0 = c ((d.find? o.language.name).getD {}) := by
    cases d.find? o.language.name with
    | none => exact hc.empty.symm
    | some s => rfl
  rw [hc.add, hbefore] at hupdate
  unfold addSummary
  omega

/-- The sum over the languages, with the table general from which the outcomes are added. -/
theorem total_foldl_addSummary (outcomes : List LanguageOutcome) (d : Dict LanguageSummary) :
    total c (outcomes.foldl addSummary d).values =
      total c d.values + total (fun o => c o.summary) outcomes := by
  induction outcomes generalizing d with
  | nil => rfl
  | cons o rest ih =>
    rw [List.foldl_cons, ih, total_addSummary hc, total_cons, Nat.add_assoc]

/-- The sum over the languages is the sum over the outcomes. -/
theorem total_summaries (outcomes : List LanguageOutcome) :
    total c (summaries outcomes).values = total (fun o => c o.summary) outcomes := by
  have hfold := total_foldl_addSummary hc outcomes Dict.empty
  rw [show total c (Dict.empty : Dict LanguageSummary).values = 0 from rfl, Nat.zero_add] at hfold
  exact hfold

/-- One outcome adds to the entry of its own language. -/
theorem count_find?_addSummary (d : Dict LanguageSummary) (o : LanguageOutcome) (l : Language) :
    c (((addSummary d o).find? l.name).getD {}) =
      c ((d.find? l.name).getD {}) + if o.language = l then c o.summary else 0 := by
  rw [find?_addSummary]
  by_cases hl : l = o.language
  · rw [if_pos hl, if_pos hl.symm, Option.getD_some, hc.add]
  · rw [if_neg hl, if_neg fun heq => hl heq.symm, Nat.add_zero]

/-- The entry of a language counts what its outcomes count together. The induction is on the
outcomes; those of other languages are passed over. -/
theorem count_find?_foldl_addSummary (outcomes : List LanguageOutcome) (d : Dict LanguageSummary)
    (l : Language) : c (((outcomes.foldl addSummary d).find? l.name).getD {}) =
      c ((d.find? l.name).getD {}) +
        total (fun o => c o.summary) (outcomes.filter (·.language == l)) := by
  induction outcomes generalizing d with
  | nil => rfl
  | cons o rest ih =>
    rw [List.foldl_cons, ih, count_find?_addSummary hc]
    by_cases hl : o.language = l
    · rw [if_pos hl, List.filter_cons_of_pos (by simpa using hl), total_cons, Nat.add_assoc]
    · rw [if_neg hl, List.filter_cons_of_neg (by simpa using hl), Nat.add_zero]

/-- Every language has the counts of its outcomes. -/
theorem count_find?_summaries (outcomes : List LanguageOutcome) (l : Language) :
    c (((summaries outcomes).find? l.name).getD {}) =
      total (fun o => c o.summary) (outcomes.filter (·.language == l)) := by
  have hfold := count_find?_foldl_addSummary hc outcomes Dict.empty l
  rw [Dict.find?_empty, Option.getD_none, hc.empty, Nat.zero_add] at hfold
  exact hfold

end Count

/-- Two outcomes can be added in either order, also two of one language. -/
theorem addSummary_comm (d : Dict LanguageSummary) (o o' : LanguageOutcome) :
    addSummary (addSummary d o) o' = addSummary (addSummary d o') o := by
  refine Dict.ext_find? fun key => ?_
  unfold addSummary
  simp only [Dict.find?_update]
  -- of one language: both are added to the same entry, and sums commute
  by_cases hname : o.language.name = o'.language.name
  · rw [hname]
    by_cases hkey : key = o'.language.name
    · simp only [hkey, if_true, Option.getD_some, LanguageSummary.add_right_comm]
    · simp only [hkey, if_false]
  · by_cases hkey : key = o.language.name
    · simp only [hkey, hname, if_true, if_false]
    · simp only [hkey, if_false, Ne.symm hname]

/-- The summaries do not depend on the order of the outcomes. -/
theorem summaries_perm {outcomes outcomes' : List LanguageOutcome} (h : outcomes.Perm outcomes') :
    summaries outcomes = summaries outcomes' :=
  h.foldl_eq' (fun o _ o' _ d => addSummary_comm d o o') Dict.empty

end Merge

/-! ## The counts of files -/

/-- Whether a summary has the counts of some files. -/
structure LanguageSummary.Counts (s : LanguageSummary) (counted : List FileRecord) : Prop where
  files : s.files = counted.length
  classes : s.classes = (counted.flatMap (·.classes)).length
  functions : s.functions = (counted.flatMap (·.functions)).length

/-- Whether the data of a document agree with its files and with the outcomes it is made from. -/
structure Document.CountsOutcomes (d : Document) (outcomes : List LanguageOutcome) : Prop where
  files : d.files = outcomes.flatMap (·.files)
  totalFiles : d.project.totalFiles = d.files.length
  totalClasses : d.project.totalClasses = (d.files.flatMap (·.classes)).length
  totalFunctions : d.project.totalFunctions = (d.files.flatMap (·.functions)).length
  totalCalls : d.project.totalCalls = (d.files.flatMap (·.calls)).length
  resolvedCalls : d.project.resolvedCalls = (d.files.flatMap (·.calls)).countP (·.path.isSome)
  resolvedCalls_le : d.project.resolvedCalls ≤ d.project.totalCalls
  /-- Every language has the counts of its own outcomes. -/
  language : ∀ l : Language, ((d.project.languages.find? l.name).getD {}).Counts
    ((outcomes.filter (·.language == l)).flatMap (·.files))
  sumFiles : total (·.files) d.project.languages.values = d.project.totalFiles
  sumClasses : total (·.classes) d.project.languages.values = d.project.totalClasses
  sumFunctions : total (·.functions) d.project.languages.values = d.project.totalFunctions

namespace Merge

/-- What is counted file by file in the summaries of outcomes is counted over all their files. -/
theorem total_files_summary (outcomes : List LanguageOutcome) :
    total (fun o => o.summary.files) outcomes = (outcomes.flatMap (·.files)).length :=
  (length_flatMap_eq_total _ _).symm

/-- Classes are counted in the files. -/
theorem total_classes_summary (outcomes : List LanguageOutcome) :
    total (fun o => o.summary.classes) outcomes =
      ((outcomes.flatMap (·.files)).flatMap (·.classes)).length := by
  rw [length_flatMap_eq_total, total_flatMap]
  rfl

/-- So are functions. -/
theorem total_functions_summary (outcomes : List LanguageOutcome) :
    total (fun o => o.summary.functions) outcomes =
      ((outcomes.flatMap (·.files)).flatMap (·.functions)).length := by
  rw [length_flatMap_eq_total, total_flatMap]
  rfl

/-- The entry of a language has the counts of the files of its outcomes. -/
theorem counts_find?_summaries (outcomes : List LanguageOutcome) (l : Language) :
    (((summaries outcomes).find? l.name).getD {}).Counts
      ((outcomes.filter (·.language == l)).flatMap (·.files)) where
  files := by
    rw [count_find?_summaries LanguageSummary.isCount_files, total_files_summary]
  classes := by
    rw [count_find?_summaries LanguageSummary.isCount_classes, total_classes_summary]
  functions := by
    rw [count_find?_summaries LanguageSummary.isCount_functions, total_functions_summary]

/-- The resolved calls are those with a path. -/
theorem total_resolvedCallCount (files : List FileRecord) :
    total (·.resolvedCallCount) files = (files.flatMap (·.calls)).countP (·.path.isSome) := by
  rw [List.countP_eq_length_filter, List.filter_flatMap, length_flatMap_eq_total]
  rfl

section Document

variable (name : String) (now : Instant) (configFiles : List ConfigFile) (r : Repository)

/-- **The data of a document agree with its files.** -/
theorem countsOutcomes_document (outcomes : List LanguageOutcome) :
    (document name now configFiles outcomes r).CountsOutcomes outcomes where
  files := rfl
  totalFiles := rfl
  totalClasses := (length_flatMap_eq_total _ _).symm
  totalFunctions := (length_flatMap_eq_total _ _).symm
  totalCalls := (length_flatMap_eq_total _ _).symm
  resolvedCalls := total_resolvedCallCount _
  resolvedCalls_le := by
    show total (·.resolvedCallCount) (outcomes.flatMap (·.files)) ≤
      total (·.calls.length) (outcomes.flatMap (·.files))
    rw [total_resolvedCallCount, ← length_flatMap_eq_total]
    exact List.countP_le_length
  language := counts_find?_summaries outcomes
  sumFiles := by
    show total (·.files) (summaries outcomes).values = (outcomes.flatMap (·.files)).length
    rw [total_summaries LanguageSummary.isCount_files, total_files_summary]
  sumClasses := by
    show total (·.classes) (summaries outcomes).values =
      total (·.classes.length) (outcomes.flatMap (·.files))
    rw [total_summaries LanguageSummary.isCount_classes, total_classes_summary,
      length_flatMap_eq_total]
  sumFunctions := by
    show total (·.functions) (summaries outcomes).values =
      total (·.functions.length) (outcomes.flatMap (·.files))
    rw [total_summaries LanguageSummary.isCount_functions, total_functions_summary,
      length_flatMap_eq_total]

/-- **The order of the outcomes does not show in the project data.** -/
theorem project_document_perm {outcomes outcomes' : List LanguageOutcome}
    (h : outcomes.Perm outcomes') : (document name now configFiles outcomes' r).project =
      (document name now configFiles outcomes r).project := by
  have hfiles : (outcomes.flatMap (·.files)).Perm (outcomes'.flatMap (·.files)) := h.flatMap_right _
  unfold document
  simp only [hfiles.length_eq, total_perm hfiles, summaries_perm h]

end Document

end Merge

/-! ## Lines -/

namespace Builder

/-- The lines of a record are those of the text that it is made from. -/
theorem lines_recordAt? {b : Builder} {r : Repository} {l : Language} {ix : Index} {path : String}
    {file : FileRecord} (h : b.recordAt? r l ix path = some file) :
    ∃ text, r.read? path = some text ∧ file.lines = Text.countLines text := by
  obtain ⟨text, hread, hfile⟩ := Option.bind_eq_some_iff.mp h
  refine ⟨text, hread, ?_⟩
  split at hfile
  · cases hfile
    rfl
  · cases hfile

/-- A file that was recorded is read again with the same text. -/
theorem linesOf_of_mem_outcome {b : Builder} {r : Repository} {l : Language} {paths : List String}
    {file : FileRecord} (h : file ∈ (b.outcome r l paths).files) :
    Merge.linesOf r file = file.lines := by
  rw [outcome_files_eq] at h
  obtain ⟨path, -, hrecord⟩ := List.mem_filterMap.mp h
  obtain ⟨text, hread, hlines⟩ := lines_recordAt? hrecord
  unfold Merge.linesOf
  rw [path_recordAt? hrecord, hread, hlines]
  rfl

/-- **The lines of a document built from sources are those of its files.** -/
theorem totalLines_ofSources {b : Builder} {name : String} {sources : List (String × String)}
    {skeleton : List String} {out : BuildOutput} (h : b.ofSources name sources skeleton = .ok out) :
    out.document.project.totalLines = total (·.lines) out.document.files := by
  obtain ⟨-, -, -, rfl⟩ := ofSources_eq_ok_iff.mp h
  refine total_congr fun file hfile => ?_
  obtain ⟨o, ho, hmem⟩ := List.mem_flatMap.mp hfile
  obtain ⟨l, -, rfl⟩ := List.mem_map.mp ho
  exact linesOf_of_mem_outcome hmem

end Builder

namespace Merge

/--
The totals of a document agree with its files. Whatever the outcomes, a language occurring several
times included, the document has their files one after another, its totals are the numbers of what
is in these files, and the counts of the languages add up to the totals. Another order of the
outcomes changes the order of the files and nothing else. In a document built from sources, the
lines in total are the lines of the files.
-/
theorem document_agrees_with_files :
    (∀ name now configFiles outcomes r,
      (document name now configFiles outcomes r).CountsOutcomes outcomes ∧
        ∀ outcomes', outcomes.Perm outcomes' →
          (document name now configFiles outcomes' r).project =
              (document name now configFiles outcomes r).project ∧
            (document name now configFiles outcomes' r).files.Perm
              (document name now configFiles outcomes r).files) ∧
      ∀ (b : Builder) name sources skeleton out, b.ofSources name sources skeleton = .ok out →
        out.document.project.totalLines = total (·.lines) out.document.files := by
  refine ⟨fun name now configFiles outcomes r => ⟨?_, fun outcomes' hperm => ⟨?_, ?_⟩⟩, ?_⟩
  · exact countsOutcomes_document name now configFiles r outcomes
  · exact project_document_perm name now configFiles r hperm
  · exact (hperm.flatMap_right _).symm
  · exact fun b name sources skeleton out => Builder.totalLines_ofSources

/-- A language with two outcomes and a file that stands in both, the outcomes in either order; and a
build of two files. -/
theorem document_agrees_with_files_repeatedLanguage :
    let main : FunctionDecl :=
      { name := "main", kind := .free, visibility := .pub
        calls := [{ name := "f" }, { name := "g", path := some "a.py" }] }
    let file : FileRecord :=
      { path := "a.py", language := "python", lines := 3, functions := [main] }
    let outcomes : List LanguageOutcome :=
      [{ language := .python, files := [file] }, { language := .go, unchanged := 2 },
       { language := .python, files := [file, file] }]
    let d := document "sample" .epoch [] outcomes (.ofSources [("a.py", "")] [])
    let d' := document "sample" .epoch [] outcomes.reverse (.ofSources [("a.py", "")] [])
    d.CountsOutcomes outcomes ∧ d.project.totalCalls = 6 ∧ d.project.resolvedCalls = 3
      ∧ d.project.languages.keys = ["go", "python"] ∧ d.project.totalLines = 0
      ∧ d'.project = d.project ∧ d'.files.Perm d.files
      ∧ ∃ out, Builder.oneCallBuilder.ofSources "sample" Builder.mutualCalls [] = .ok out
        ∧ out.document.project.totalLines = 2
        ∧ out.document.project.totalLines = total (·.lines) out.document.files := by
  intro main file outcomes d d'
  -- the outcomes in reverse order
  have hperm : outcomes.Perm outcomes.reverse := (List.reverse_perm outcomes).symm
  obtain ⟨hcounts, horder⟩ := document_agrees_with_files.1 "sample" .epoch [] outcomes
    (.ofSources [("a.py", "")] [])
  obtain ⟨hproject, hfiles⟩ := horder outcomes.reverse hperm
  have hout : Builder.oneCallBuilder.ofSources "sample" Builder.mutualCalls [] =
      .ok (Builder.oneCallBuilder.process "sample" (Builder.repositoryOf Builder.mutualCalls [])
        (Builder.oneCallBuilder.selected Builder.mutualCalls)) :=
    Builder.ofSources_eq_ok_iff.mpr
      ⟨by decide +kernel, by decide +kernel, by decide +kernel, rfl⟩
  exact ⟨hcounts, by decide +kernel, by decide +kernel, by decide +kernel, by decide +kernel,
    hproject, hfiles, _, hout, by decide +kernel, document_agrees_with_files.2 _ _ _ _ _ hout⟩

end Merge

end SourceAtlas
