import SourceAtlas.Proofs.Index.History
import SourceAtlas.Proofs.Resolve.ImportTargets

/-!
# Resolving imports: records that agree with themselves

An import that has been resolved carries a kind, a list of targets and a path. This module says how
they hang together, whatever files were registered and wherever the import stands
(`importRecord_resolveImport`). It comes down to the list of targets, for each module system by
itself:

* a target of a script, a Python or a Go import was found among the paths of the repository, one of
  a Java or C# import among the registered files (`isTarget_of_mem_importTargets`);
* no target is listed twice (`importTargets_nodup`).
-/

namespace SourceAtlas.Resolve

/--
Whether a path can be the target of an import: a known path of the repository, or a registered file
where a language finds its imports by what files declare.
-/
def IsTarget (ix : Index) (path : String) : Prop :=
  match ix.language with
  | .typescript | .python | .go => ix.repository.contains path = true
  | .java | .csharp => path ∈ ix.files
  | .apex => False

/-- The sources that start from the importing file, or for scripts from the root. -/
def IsRelativeSource (l : Language) (source : String) : Prop :=
  l = .typescript ∧ (source.toList.head? = some '.' ∨ source.toList.head? = some '/')
    ∨ l = .python ∧ source.toList.head? = some '.'

variable {ix : Index}

/-! ## Lists of candidates -/

/-- The first list that is not empty is one of the lists, unless all are empty. -/
theorem getD_find?_eq_nil_or_mem {α : Type} (lists : List (List α)) :
    (lists.find? (!·.isEmpty)).getD [] = [] ∨ (lists.find? (!·.isEmpty)).getD [] ∈ lists := by
  cases hfind : lists.find? (!·.isEmpty) with
  | none => exact Or.inl rfl
  | some found => exact Or.inr (List.mem_of_find?_eq_some hfind)

theorem nodup_toList {α : Type} (o : Option α) : o.toList.Nodup := by
  cases o with
  | none => exact List.nodup_nil
  | some a => exact List.nodup_singleton a

/-! ## Scripts -/

/-- A script is looked for among the known paths. -/
theorem scriptAt?_known {r : Repository} {base t : String} (h : scriptAt? r base = some t) :
    r.contains t = true :=
  List.find?_some h

theorem scriptTarget?_known {importer source t : String}
    (h : scriptTarget? ix importer source = some t) :
    ix.repository.contains t = true := by
  unfold scriptTarget? at h
  -- by a relative source, or by the paths that a configuration maps it to
  split at h
  · obtain ⟨base, -, hbase⟩ := Option.bind_eq_some_iff.mp h
    exact scriptAt?_known hbase
  · obtain ⟨paths, -, hpaths⟩ := Option.bind_eq_some_iff.mp h
    obtain ⟨base, -, hbase⟩ := List.exists_of_findSome?_eq_some hpaths
    exact scriptAt?_known hbase

/-! ## Python -/

section Python

variable {r : Repository} {i : Import} {base : String}

/-- So are modules and packages. -/
theorem pythonTargetsAt_known {t : String} (h : t ∈ pythonTargetsAt r i base) :
    r.contains t = true := by
  unfold pythonTargetsAt at h
  rcases mem_foldl_addNew.mp h with hown | hbelow
  · -- the module or the package itself
    split at hown
    next hmodule =>
      rw [List.mem_singleton.mp hown]
      exact (Bool.and_eq_true_iff.mp hmodule).2
    next =>
      split at hown
      next hpackage =>
        rw [List.mem_singleton.mp hown]
        exact hpackage
      next => cases hown
  · -- modules below a package, one for each name that is imported
    exact (List.mem_filter.mp hbelow).2

/-- A module that is named twice is listed once. -/
theorem pythonTargetsAt_nodup : (pythonTargetsAt r i base).Nodup := by
  unfold pythonTargetsAt
  refine nodup_foldl_addNew ?_ _
  split
  · exact List.nodup_singleton _
  · split
    · exact List.nodup_singleton _
    · exact List.nodup_nil

end Python

/-- The targets of a Python import are those for one of its bases, if there are any. -/
theorem pythonTargets_cases (ix : Index) (importer : String) (i : Import) :
    pythonTargets ix importer i = [] ∨
      ∃ base, pythonTargets ix importer i = pythonTargetsAt ix.repository i base := by
  refine (getD_find?_eq_nil_or_mem _).imp_right fun h => ?_
  obtain ⟨base, -, heq⟩ := List.mem_map.mp h
  exact ⟨base, heq.symm⟩

/-! ## Go -/

theorem mem_paths_iff {r : Repository} {path : String} :
    path ∈ r.paths ↔ r.contains path = true :=
  Dict.contains_iff_mem_keys.symm

/-- The files of a package in one module. -/
theorem goFilesIn_sublist (r : Repository) (m : GoModule) (source : String) :
    (goFilesIn r m source).Sublist r.paths := by
  unfold goFilesIn
  split
  · exact List.filter_sublist.trans List.filter_sublist
  · exact List.nil_sublist _

/-- The targets of a Go import are known paths in their order. -/
theorem goTargets_sublist (ix : Index) (source : String) :
    (goTargets ix source).Sublist ix.repository.paths := by
  unfold goTargets
  rcases getD_find?_eq_nil_or_mem (ix.goModules.map (goFilesIn ix.repository · source)) with
    hnil | hmem
  · rw [hnil]
    exact List.nil_sublist _
  · obtain ⟨m, -, heq⟩ := List.mem_map.mp hmem
    rw [← heq]
    exact goFilesIn_sublist _ m source

/-! ## Java and C# -/

theorem classFile_nodup (ix : Index) (qualified : String) : (classFile ix qualified).Nodup :=
  nodup_toList _

/-- A class has one file, and a namespace lists each of its files once. -/
theorem javaTargets_nodup (h : ix.NamespacesDistinct) (i : Import) : (javaTargets ix i).Nodup := by
  unfold javaTargets
  split
  · split
    · exact classFile_nodup ix _
    · exact h.filesInNamespace _
  · split
    · split
      · exact classFile_nodup ix _
      · exact List.nodup_nil
    next => exact classFile_nodup ix _

/-- The same for C#. -/
theorem csharpTargets_nodup (h : ix.NamespacesDistinct) (i : Import) :
    (csharpTargets ix i).Nodup := by
  have hclass :
      (if i.isStatic || !i.bindings.isEmpty then classFile ix i.source else []).Nodup := by
    split
    · exact classFile_nodup ix _
    · exact List.nodup_nil
  unfold csharpTargets
  -- a class comes first, and only without one the namespace counts
  by_cases hfound : (!(if i.isStatic || !i.bindings.isEmpty then classFile ix i.source
      else []).isEmpty) = true
  · rw [if_pos hfound]
    exact hclass
  · rw [if_neg hfound]
    split
    · exact List.nodup_nil
    · exact h.filesInNamespace _

/-! ## All languages -/

/-- The targets of an import are known paths or registered files, as its language has it. -/
theorem isTarget_of_mem_importTargets (h : ix.Closed) {importer t : String} {i : Import}
    (ht : t ∈ importTargets ix importer i) : IsTarget ix t := by
  unfold importTargets at ht
  unfold IsTarget
  cases hlang : ix.language with
  | typescript =>
    rw [hlang] at ht
    exact scriptTarget?_known (Option.mem_toList.mp ht)
  | python =>
    rw [hlang] at ht
    dsimp only at ht ⊢
    rcases pythonTargets_cases ix importer i with hnil | ⟨base, heq⟩
    · rw [hnil] at ht
      cases ht
    · rw [heq] at ht
      exact pythonTargetsAt_known ht
  | go =>
    rw [hlang] at ht
    exact mem_paths_iff.mp ((goTargets_sublist ix i.source).subset ht)
  | java =>
    rw [hlang] at ht
    exact javaTargets_registered h ht
  | csharp =>
    rw [hlang] at ht
    exact csharpTargets_registered h ht
  | apex =>
    rw [hlang] at ht
    cases ht

/-- No target is listed twice. -/
theorem importTargets_nodup (h : ix.NamespacesDistinct) (importer : String) (i : Import) :
    (importTargets ix importer i).Nodup := by
  unfold importTargets
  cases ix.language with
  | typescript => exact nodup_toList _
  | python =>
    dsimp only
    rcases pythonTargets_cases ix importer i with hnil | ⟨base, heq⟩
    · rw [hnil]
      exact List.nodup_nil
    · rw [heq]
      exact pythonTargetsAt_nodup
  | go => exact (goTargets_sublist ix i.source).nodup (Dict.keys_nodup _)
  | java => exact javaTargets_nodup h i
  | csharp => exact csharpTargets_nodup h i
  | apex => exact List.nodup_nil

/-! ## The record of an import -/

/-- A text starts with a character. -/
theorem startsWith_singleton (source : String) (c : Char) :
    Text.startsWith source (String.singleton c) = true ↔ source.toList.head? = some c := by
  unfold Text.startsWith
  rw [String.toList_singleton]
  cases source.toList with
  | nil => simp
  | cons d cs =>
    rw [List.isPrefixOf_cons_cons, List.isPrefixOf_nil_left, Bool.and_true, beq_iff_eq,
      List.head?_cons, Option.some.injEq]
    exact eq_comm

/-- Relative sources are told by their first character. -/
theorem isRelative_iff (l : Language) (source : String) :
    isRelative l source = true ↔ IsRelativeSource l source := by
  have hdot := startsWith_singleton source '.'
  have hslash := startsWith_singleton source '/'
  unfold isRelative IsRelativeSource isRelativeScript
  cases l with
  | typescript =>
    rw [Bool.or_eq_true]
    simp only [true_and, reduceCtorEq, false_and, or_false]
    exact or_congr hdot hslash
  | python =>
    simp only [true_and, reduceCtorEq, false_and, false_or]
    exact hdot
  | go | java | csharp | apex => simp

/-- How the kind, the targets and the path of a resolved import hang together. -/
structure ImportRecord (ix : Index) (i : Import) : Prop where
  kind_iff : i.kind = .inRepository ↔ i.targets ≠ []
  /-- The path is the first target where there is one. -/
  path_iff : i.targets ≠ [] ↔ ∃ t, i.targets.head? = some t ∧ i.path = some t
  nodup : i.targets.Nodup
  targets : ∀ t ∈ i.targets, IsTarget ix t
  /-- Without a target there is no path, and the source tells the kind. -/
  without : i.targets = [] → i.path = none
    ∧ (i.kind = .unresolved ↔ IsRelativeSource ix.language i.source)
    ∧ (i.kind = .external ↔ ¬ IsRelativeSource ix.language i.source)

/-- The record of every import that is resolved. -/
theorem importRecord_resolveImport (hclosed : ix.Closed) (hdistinct : ix.NamespacesDistinct)
    (importer : String) (i : Import) : ImportRecord ix (resolveImport ix importer i) := by
  have htargets : ∀ t ∈ importTargets ix importer i, IsTarget ix t := fun t =>
    isTarget_of_mem_importTargets hclosed
  have hnodup := importTargets_nodup hdistinct importer i
  have hrelative := isRelative_iff ix.language i.source
  unfold resolveImport
  cases h : importTargets ix importer i with
  | nil =>
    exact {
      -- without a target the kind is told by the source, and is never in the repository
      kind_iff := by
        dsimp only [Import.without]
        split <;> simp
      path_iff := by simp [Import.without]
      nodup := List.nodup_nil
      targets := fun t ht => by cases ht
      without := fun _ => by
        refine ⟨rfl, ?_⟩
        dsimp only [Import.without]
        rw [← hrelative]
        split
        next hrel => simp [hrel]
        next hrel => simp [hrel] }
  | cons t ts =>
    rw [h] at htargets hnodup
    exact {
      kind_iff := by simp [Import.resolved]
      path_iff := by simp [Import.resolved]
      nodup := hnodup
      targets := htargets
      without := fun hnil => by cases hnil }

end SourceAtlas.Resolve
