import SourceAtlas.Proofs.RepoPath.Segments
import SourceAtlas.Proofs.Repository
import SourceAtlas.Proofs.Resolve.ImportRecords

/-!
# Scripts: what a relative specifier is resolved to

A relative specifier leads to a base, and the base names the first known file of a list: the files
that carry its name, then the index files of the directory at the base. The index files are given
here by following their names from the directory, and resolution is compared with that list:

* **`scriptCandidates_eq`**: resolution puts `/` and the name behind the base. Below the root this
  is the same file (`indexFiles_eq`).
* At the root the base is empty, and the path starts with a slash. No known path does
  (`Repository.IsView.contains_slash`), so an index file at the root is never found
  (`resolveImport_root_index`).

What is found from any file is then told by the base (`resolveImport_relative`).
-/

namespace SourceAtlas.Resolve

open RepoPath (ofParts IsSegment)

/--
The files that carry the name of a base, in order: the base itself, the sources that it is compiled
from, and the base with an extension.
-/
def namedFiles (base : String) : List String :=
  let writtenAs (compiled source : String) : List String :=
    ((Text.stripSuffix? base compiled).map (· ++ source)).toList
  base :: writtenAs ".js" ".ts" ++ writtenAs ".js" ".tsx" ++ writtenAs ".jsx" ".tsx"
    ++ writtenAs ".mjs" ".mts"
    ++ [".ts", ".tsx", ".js", ".jsx", ".mjs", ".cjs"].map (base ++ ·)

def indexNames : List String :=
  ["index.ts", "index.tsx", "index.js", "index.jsx", "index.mjs", "index.cjs"]

/-- The index files directly in a directory, in order. -/
def indexFiles (dir : String) : List String :=
  indexNames.filterMap (RepoPath.join? dir)

/--
Whether an import is in the repository just if one of some files is known, and leads to the first
of them.
-/
structure FindsFirst (r : Repository) (candidates : List String) (i : Import) : Prop where
  kind_iff : i.kind = .inRepository ↔ ∃ path ∈ candidates, r.contains path = true
  path : ∀ path, candidates.find? r.contains = some path → i.path = some path
  unresolved : (∀ path ∈ candidates, r.contains path = false) → i.kind = .unresolved ∧ i.path = none

/-! ## Candidates -/

theorem scriptCandidates_eq (base : String) :
    scriptCandidates base = namedFiles base ++ indexNames.map fun name => base ++ "/" ++ name := by
  unfold scriptCandidates namedFiles compiledExtensions scriptExtensions indexNames
  dsimp only
  rw [List.filterMap_eq_flatMap_toList]
  simp [String.append_assoc]

/-- The index files of a directory: their names behind it, and the mere names at the root. -/
theorem indexFiles_eq {parts : List (List Char)} (h : ∀ part ∈ parts, IsSegment part) :
    indexFiles (ofParts parts) = indexNames.map fun name =>
      if ofParts parts = "" then name else ofParts parts ++ "/" ++ name := by
  unfold indexFiles
  -- each of the names is a plain segment, so following it is putting it behind
  have hplain : ∀ name ∈ indexNames, RepoPath.IsPlain name.toList := by decide +kernel
  rw [← List.filterMap_eq_map, List.filterMap_congr]
  intro name hname
  exact RepoPath.join?_name h (hplain name hname)

/-- What a base names. The index files of the root do not count. -/
theorem scriptAt?_eq {r : Repository} (hview : r.IsView) {dir reference base : String}
    (hbase : RepoPath.join? dir reference = some base) :
    scriptAt? r base =
      (namedFiles base ++ if base = "" then [] else indexFiles base).find? r.contains := by
  obtain ⟨parts, hparts, rfl⟩ := RepoPath.exists_parts_of_join? hbase
  unfold scriptAt?
  rw [scriptCandidates_eq]
  split
  next hroot =>
    -- at the root these paths start with a slash
    have hnone :
        (indexNames.map fun name => ofParts parts ++ "/" ++ name).find? r.contains = none := by
      refine List.find?_eq_none.mpr fun path hpath => ?_
      obtain ⟨name, -, rfl⟩ := List.mem_map.mp hpath
      rw [hroot, String.empty_append, hview.contains_slash]
      exact Bool.false_ne_true
    rw [List.find?_append, hnone, Option.or_none, List.append_nil]
  next hbelow =>
    rw [indexFiles_eq hparts]
    simp only [if_neg hbelow]

/-! ## Imports -/

/-- A relative import whose target is the first known file of a list. -/
theorem findsFirst_of_scriptTarget? {ix : Index} (hl : ix.language = .typescript)
    {importer : String} {i : Import} (hrelative : isRelativeScript i.source = true) {r : Repository}
    {candidates : List String}
    (h : scriptTarget? ix importer i.source = candidates.find? r.contains) :
    FindsFirst r candidates (resolveImport ix importer i) := by
  have htargets : importTargets ix importer i = (candidates.find? r.contains).toList := by
    rw [importTargets, hl, ← h]
  unfold resolveImport
  rw [htargets]
  cases hfind : candidates.find? r.contains with
  | none =>
    have hnone : ∀ path ∈ candidates, r.contains path = false := fun path hpath =>
      Bool.eq_false_iff.mpr (List.find?_eq_none.mp hfind path hpath)
    -- a relative specifier without a target is unresolved, not external
    have hkind : isRelative ix.language i.source = true := by rw [hl]; exact hrelative
    exact {
      kind_iff := by
        simp only [Option.toList_none, hkind, if_true, Import.without, reduceCtorEq, false_iff]
        rintro ⟨path, hpath, hknown⟩
        rw [hnone path hpath] at hknown
        cases hknown
      path := fun path hpath => by
        rw [hfind] at hpath
        cases hpath
      unresolved := fun _ => by
        simp only [Option.toList_none, hkind, if_true, Import.without, and_self] }
  | some found =>
    have hknown := List.find?_some hfind
    have hmem := List.mem_of_find?_eq_some hfind
    exact {
      kind_iff := iff_of_true rfl ⟨found, hmem, hknown⟩
      path := fun path hpath => hfind.symm.trans hpath
      unresolved := fun hnone => by
        rw [hnone found hmem] at hknown
        cases hknown }

/--
**What a relative specifier is resolved to.** Above the root it is unresolved. Below the root it is
resolved to the first known file of those that carry the name of its base and of the index files in
the directory there. At the root itself only the first sort counts.
-/
theorem resolveImport_relative {r : Repository} (hview : r.IsView) (entries : List Index.Entry)
    (importer : String) {i : Import}
    (hsource : i.source.toList.head? = some '.' ∨ i.source.toList.head? = some '/') :
    let found := resolveImport (.ofEntries .typescript r entries) importer i
    (scriptBase? importer i.source = none → found.kind = .unresolved)
      ∧ ∀ base, scriptBase? importer i.source = some base →
        (base ≠ "" → FindsFirst r (namedFiles base ++ indexFiles base) found)
          ∧ (base = "" → FindsFirst r (namedFiles base) found) := by
  have hl := Index.language_ofEntries .typescript r entries
  have hr := Index.repository_ofEntries .typescript r entries
  have hrelative : isRelativeScript i.source = true :=
    (isRelative_iff .typescript i.source).mpr (Or.inl ⟨rfl, hsource⟩)
  have htarget : scriptTarget? (.ofEntries .typescript r entries) importer i.source =
      (scriptBase? importer i.source).bind (scriptAt? r) := by
    rw [scriptTarget?, if_pos hrelative, hr]
  -- each case names the list in which the first known file is looked for
  refine ⟨fun hnone => ?_, fun base hbase => ⟨fun hbelow => ?_, fun hroot => ?_⟩⟩
  · rw [hnone, Option.bind_none] at htarget
    have hfinds : FindsFirst r [] _ := findsFirst_of_scriptTarget? hl hrelative htarget
    exact (hfinds.unresolved fun _ hpath => nomatch hpath).1
  · rw [hbase, Option.bind_some, scriptAt?_eq hview hbase, if_neg hbelow] at htarget
    exact findsFirst_of_scriptTarget? hl hrelative htarget
  · rw [hbase, Option.bind_some, scriptAt?_eq hview hbase, if_pos hroot, List.append_nil] at htarget
    exact findsFirst_of_scriptTarget? hl hrelative htarget

/-- A directory with an index file, below a root that has one too. -/
def indexedRepository : Repository :=
  .ofSources [] ["index.ts", "main.ts", "lib/index.tsx", "lib/index.js", "lib/util.ts"]

theorem resolveImport_relative_directory :
    let i : Import := { source := "./lib/../lib" }
    let found := resolveImport (.ofEntries .typescript indexedRepository []) "main.ts" i
    indexedRepository.IsView ∧ i.source.toList.head? = some '.'
      ∧ scriptBase? "main.ts" i.source = some "lib"
      ∧ FindsFirst indexedRepository (namedFiles "lib" ++ indexFiles "lib") found
      ∧ (namedFiles "lib" ++ indexFiles "lib").find? indexedRepository.contains =
        some "lib/index.tsx" := by
  intro i found
  have hview : indexedRepository.IsView := .ofSources _ _
  have hsource : i.source.toList.head? = some '.' := by decide +kernel
  have hbase : scriptBase? "main.ts" i.source = some "lib" := by decide +kernel
  have hrelative := resolveImport_relative hview [] "main.ts" (Or.inl hsource)
  exact ⟨hview, hsource, hbase, (hrelative.2 "lib" hbase).1 (by decide +kernel), by decide +kernel⟩

/-- The index file at the root is not found by a specifier that leads to the root. -/
theorem resolveImport_root_index :
    let found := resolveImport (.ofEntries .typescript indexedRepository []) "main.ts"
      { source := "./" }
    scriptBase? "main.ts" "./" = some "" ∧ "index.ts" ∈ indexFiles ""
      ∧ indexedRepository.contains "index.ts" = true ∧ found.kind = .unresolved
      ∧ ¬ FindsFirst indexedRepository (namedFiles "" ++ indexFiles "") found := by
  intro found
  have hmem : "index.ts" ∈ indexFiles "" := by decide +kernel
  have hknown : indexedRepository.contains "index.ts" = true := by decide +kernel
  have hkind : found.kind = .unresolved := by decide +kernel
  refine ⟨by decide +kernel, hmem, hknown, hkind, fun hfinds => ?_⟩
  -- the file is on the list and known, so it would have to be found
  have hin := hfinds.kind_iff.mpr ⟨"index.ts", List.mem_append_right _ hmem, hknown⟩
  rw [hkind] at hin
  cases hin

end SourceAtlas.Resolve
