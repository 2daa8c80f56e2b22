import SourceAtlas.Proofs.Build.SourceOrder
import SourceAtlas.Proofs.Build.View

/-!
# Builds of a part: the imports of a file

A caller that is interested in a few files builds from these and names the others in the skeleton.
Classes and functions of the others are then not indexed, so calls may be resolved otherwise.
Imports that go by paths are not: they are looked up among the known paths, which are the same
(`sameModules_part`), with what the module files say, which is the same if they are in the part.

`ofSources_part_imports` says so for paths whose normal form is its own. The texts of a repository
are stored under the normal form of the path that a source is known by, so for other paths a source
of the part can have the text of another source in the full build
(`ofSources_part_imports_dotSlash`).
-/

namespace SourceAtlas.Builder

/-! ## The imports of a record -/

/-- The imports of a record are decided by how the index resolves those of the file. -/
theorem record_imports_congr {ix ix' : Index} {x : Extraction}
    (h : Resolve.resolveImport ix' x.path = Resolve.resolveImport ix x.path) (lines lines' : Nat) :
    (record ix' x lines').imports = (record ix x lines).imports
      ∧ (record ix' x lines').importFiles = (record ix x lines).importFiles
      ∧ (record ix' x lines').externalImports = (record ix x lines).externalImports := by
  have himports : (Resolve.resolve ix' x).imports = (Resolve.resolve ix x).imports :=
    congrArg (x.imports.map ·) h
  exact ⟨himports, congrArg (FileRecord.importTargets x.path) himports,
    congrArg FileRecord.externalSources himports⟩

/-! ## A part of the sources -/

/-- A part of sources whose paths differ in normal form, where every normal form is its own. -/
structure IsPart (part sources : List (String × String)) : Prop where
  subset : part ⊆ sources
  distinct : (sources.map fun source => RepoPath.normal source.1).Nodup
  normal : ∀ source ∈ sources,
    RepoPath.normal (RepoPath.normal source.1) = RepoPath.normal source.1

namespace IsPart

variable {part sources : List (String × String)} (h : IsPart part sources)

include h

theorem map_fst_storedTexts {given : List (String × String)} (hgiven : given ⊆ sources) :
    (storedTexts given).map Prod.fst = given.map fun source => RepoPath.normal source.1 := by
  unfold storedTexts
  rw [List.map_map]
  -- a normal form that is its own is where the text is stored
  exact List.map_congr_left fun source hsource => h.normal source (hgiven hsource)

theorem textsAgree : TextsAgree sources := by
  refine textsAgree_of_nodup ?_
  rw [h.map_fst_storedTexts (List.Subset.refl _)]
  exact h.distinct

theorem textsAgree_part : TextsAgree part := fun source hsource other hother hkey =>
  h.textsAgree source (h.subset hsource) other (h.subset hother) hkey

/-- The skeleton makes up for the sources that are not in the part. -/
theorem known_part : (repositoryOf part (sources.map Prod.fst)).known =
    (repositoryOf sources []).known := by
  refine Repository.known_ext fun path => ?_
  rw [contains_repositoryOf, contains_repositoryOf, h.map_fst_storedTexts h.subset,
    h.map_fst_storedTexts (List.Subset.refl _), List.map_map]
  constructor
  -- the skeleton names every source, in the part or not
  · rintro (hskeleton | hpart)
    · exact Or.inr hskeleton
    · exact Or.inr ((List.map_subset _ h.subset) hpart)
  · rintro (hnone | hsource)
    · cases hnone
    · exact Or.inl hsource

theorem sameModules_part {l : Language}
    (hmodules : ∀ source ∈ sources, l.IsModuleFile (RepoPath.normal source.1) → source ∈ part) :
    (repositoryOf sources []).SameModules l (repositoryOf part (sources.map Prod.fst)) where
  known := h.known_part
  texts := by
    intro path hpath hmodule
    rw [contains_repositoryOf, h.map_fst_storedTexts (List.Subset.refl _)] at hpath
    obtain ⟨source, hsource, rfl⟩ := List.mem_map.mp (hpath.resolve_left List.not_mem_nil)
    have hfull := read?_repositoryOf_of_mem h.textsAgree hsource []
    -- the module file is in the part, with the same text
    have hpart := read?_repositoryOf_of_mem h.textsAgree_part (hmodules source hsource hmodule)
      (sources.map Prod.fst)
    rw [h.normal source hsource] at hfull hpart
    rw [hfull, hpart]

/-- What can be read in the part has the same text among all sources. -/
theorem read?_of_read?_part {path text : String}
    (hread : (repositoryOf part (sources.map Prod.fst)).read? path = some text) :
    (repositoryOf sources []).read? path = some text := by
  unfold Repository.read? at hread
  rw [texts_repositoryOf] at hread
  obtain ⟨source, hsource, heq⟩ := List.mem_map.mp (Dict.mem_of_find?_ofList hread)
  obtain ⟨rfl, rfl⟩ := Prod.mk.inj heq
  exact read?_repositoryOf_of_mem h.textsAgree (h.subset hsource) []

theorem accepted_subset (b : Builder) :
    (b.selected part).accepted ⊆ (b.selected sources).accepted := by
  rintro ⟨l, path⟩ haccepted
  obtain ⟨hl, text, hmem, hsize⟩ := mem_accepted.mp haccepted
  exact mem_accepted.mpr ⟨hl, text, (List.map_subset _ h.subset) hmem, hsize⟩

/-- Imports that go by paths are resolved alike. -/
theorem resolveImport_part (b : Builder) {l : Language} (hpath : l.importsByPath = true)
    (hmodules : ∀ source ∈ sources, l.IsModuleFile (RepoPath.normal source.1) → source ∈ part)
    (importer : String) :
    Resolve.resolveImport
        (b.languageIndex (repositoryOf sources []) (b.selected sources) l) importer =
      Resolve.resolveImport (b.languageIndex (repositoryOf part (sources.map Prod.fst))
        (b.selected part) l) importer := by
  have hstart := Index.start_withRepository (h.sameModules_part hmodules)
  unfold languageIndex
  rw [indexOf_eq_ofEntries, indexOf_eq_ofEntries]
  -- what is registered differs, but it does not count for these languages
  refine Resolve.resolveImport_congr ?_ ?_ ?_ ?_ ?_ importer
  · rw [Index.language_ofEntries]
    exact hpath
  · rw [Index.language_ofEntries, Index.language_ofEntries]
  · rw [Index.repository_ofEntries, Index.repository_ofEntries]
    exact h.known_part.symm
  · rw [Index.goModules_ofEntries, Index.goModules_ofEntries, hstart]
    rfl
  · rw [Index.scriptPaths_ofEntries, Index.scriptPaths_ofEntries, hstart]
    rfl

end IsPart

/--
**A build of a part agrees with the full build on imports.** Let a part be taken of sources whose
paths differ in normal form, and let every normal form be its own. Build from the part with the
paths of all sources for a skeleton, and from all sources. Then every file of the first document is
in the second, and if its language imports by paths (Python, scripts and Go do) and the module files
of the language are in the part, it has there the same imports, the same imported files and the same
external imports.
-/
theorem ofSources_part_imports {b : Builder} {name name' : String}
    {part sources : List (String × String)} {out full : BuildOutput} (h : IsPart part sources)
    (hout : b.ofSources name part (sources.map Prod.fst) = .ok out)
    (hfull : b.ofSources name' sources [] = .ok full) :
    ∀ file ∈ out.document.files, (∃ file' ∈ full.document.files, file'.path = file.path)
      ∧ ∀ file' ∈ full.document.files, file'.path = file.path →
        ∀ l, Language.ofPath? file.path = some l → l.importsByPath = true →
          (∀ source ∈ sources, l.IsModuleFile (RepoPath.normal source.1) → source ∈ part) →
          file'.imports = file.imports ∧ file'.importFiles = file.importFiles
            ∧ file'.externalImports = file.externalImports := by
  obtain ⟨-, -, -, rfl⟩ := ofSources_eq_ok_iff.mp hout
  obtain ⟨-, -, -, rfl⟩ := ofSources_eq_ok_iff.mp hfull
  intro file hfile
  obtain ⟨l, text, x, haccepted, hread, hchanged, hx, heq⟩ := mem_files_process_iff.mp hfile
  have hread' := h.read?_of_read?_part hread
  have hxpath : x.path = file.path := extract_path hx
  constructor
  · -- the record of the same text, made with the index of the full build
    refine ⟨record (b.languageIndex (repositoryOf sources []) (b.selected sources) l) x
      (Text.countLines text), mem_files_process_iff.mpr ⟨l, text, x, ?_⟩, hxpath⟩
    rw [record_path, hxpath]
    exact ⟨h.accepted_subset b haccepted, hread', hchanged, hx, rfl⟩
  · intro file' hfile' hpath l₀ hl₀ hbyPath hmodules
    obtain ⟨l', text', x', haccepted', hread'', -, hx', heq'⟩ := mem_files_process_iff.mp hfile'
    rw [hpath] at haccepted' hread'' hx'
    -- one path has one language and one text, so the same was extracted
    have hl := b.selected_byLanguage part l _ haccepted
    have hl' := b.selected_byLanguage sources l' _ haccepted'
    rw [hl₀] at hl hl'
    cases hl
    cases hl'
    rw [hread'] at hread''
    cases hread''
    rw [hx] at hx'
    cases hx'
    rw [heq, heq']
    exact record_imports_congr (h.resolveImport_part b hbyPath hmodules x.path) _ _

/-! ## Small builds -/

open Tree (rule) in
/-- The tree of a Python text of the shape `import os`. -/
def oneImportTree : Tree :=
  rule "module" none 0 9
    [rule "import_statement" none 0 9
      [rule "dotted_name" (some "name") 7 9 [rule "identifier" none 7 9 []]]]

/-- A builder for texts of that shape. -/
def oneImportBuilder : Builder :=
  { config := .default, grammar := fun _ _ => oneImportTree, now := .epoch }

/-- The imported file is known by the skeleton alone. -/
theorem ofSources_part_imports_skeleton :
    let sources := [("a.py", "import os"), ("os.py", "import re")]
    let part := [("a.py", "import os")]
    IsPart part sources
      ∧ ∃ out full, oneImportBuilder.ofSources "repo" part (sources.map Prod.fst) = .ok out
        ∧ oneImportBuilder.ofSources "repo" sources [] = .ok full
        ∧ ∃ file ∈ out.document.files, file.path = "a.py" ∧ file.importFiles = ["os.py"]
          ∧ ∃ file' ∈ full.document.files, file'.path = "a.py" ∧ file'.imports = file.imports
            ∧ file'.importFiles = file.importFiles
            ∧ file'.externalImports = file.externalImports := by
  intro sources part
  have hpart : IsPart part sources :=
    ⟨by decide +kernel, by decide +kernel, by decide +kernel⟩
  have hout : oneImportBuilder.ofSources "repo" part (sources.map Prod.fst) =
      .ok (oneImportBuilder.process "repo" (repositoryOf part (sources.map Prod.fst))
        (oneImportBuilder.selected part)) :=
    ofSources_eq_ok_iff.mpr
      ⟨by decide +kernel, by decide +kernel, by decide +kernel, rfl⟩
  have hfull : oneImportBuilder.ofSources "repo" sources [] =
      .ok (oneImportBuilder.process "repo" (repositoryOf sources [])
        (oneImportBuilder.selected sources)) :=
    ofSources_eq_ok_iff.mpr
      ⟨by decide +kernel, by decide +kernel, by decide +kernel, rfl⟩
  refine ⟨hpart, _, _, hout, hfull, ?_⟩
  obtain ⟨file, hfile, hpath, htargets⟩ : ∃ file ∈ (oneImportBuilder.process "repo"
      (repositoryOf part (sources.map Prod.fst)) (oneImportBuilder.selected part)).document.files,
      file.path = "a.py" ∧ file.importFiles = ["os.py"] := by
    decide +kernel
  obtain ⟨⟨file', hfile', hpath'⟩, hsame⟩ := ofSources_part_imports hpart hout hfull file hfile
  have hpython : Language.ofPath? file.path = some .python := by
    rw [hpath]
    decide +kernel
  -- Python has no module files
  have hmodules : ∀ source ∈ sources,
      Language.python.IsModuleFile (RepoPath.normal source.1) → source ∈ part := by
    rintro source - (⟨hgo, -⟩ | ⟨hscript, -⟩)
    · cases hgo
    · cases hscript
  exact ⟨file, hfile, hpath, htargets, file', hfile', hpath'.trans hpath,
    hsame file' hfile' hpath' .python hpython rfl hmodules⟩

/-- **The imports of a file can differ.** The slash in front hides a `./`: the sources are known by
`a.py` and `./a.py`, but in the full build both texts are stored under `a.py`, and the last one
counts. -/
theorem ofSources_part_imports_dotSlash :
    let sources := [("a.py", "import os"), ("/./a.py", "import re")]
    let part := [("a.py", "import os")]
    (sources.map fun source => RepoPath.normal source.1).Nodup
      ∧ ∃ out full, oneImportBuilder.ofSources "repo" part (sources.map Prod.fst) = .ok out
        ∧ oneImportBuilder.ofSources "repo" sources [] = .ok full
        ∧ out.document.files.map (fun file => (file.path, file.externalImports)) =
          [("a.py", ["os"])]
        ∧ full.document.files.map (fun file => (file.path, file.externalImports)) =
          [("a.py", ["re"])] := by
  intro sources part
  refine ⟨by decide +kernel, _, _,
    ofSources_eq_ok_iff.mpr
      ⟨by decide +kernel, by decide +kernel, by decide +kernel, rfl⟩,
    ofSources_eq_ok_iff.mpr
      ⟨by decide +kernel, by decide +kernel, by decide +kernel, rfl⟩, ?_⟩
  decide +kernel

end SourceAtlas.Builder
