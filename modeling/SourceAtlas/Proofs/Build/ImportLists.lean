import SourceAtlas.Proofs.Build.CallIntegrity
import SourceAtlas.Proofs.Build.OnDisk
import SourceAtlas.Proofs.Build.SourceOrder
import SourceAtlas.Proofs.Resolve.ImportRecords

/-!
# Builds: the imports of a document

The imports of a file are resolved against the index of its language, and two lists are drawn from
them: the files that it imports and the sources that it imports from elsewhere. `imports_consistent`
says that the records of the imports agree with themselves, and the lists with the records.

That a document only refers to known paths has two reasons. Targets found by their path were looked
up among the known paths; targets found by what files declare are registered, so they were read
(`knownOrRead_of_mem_importFiles`), and what can be read is known
(`contains_of_read?_repositoryOf`).
-/

namespace SourceAtlas

/-- How the import lists of a file hang together with its imports. -/
structure FileRecord.ImportLists (known : String → Prop) (f : FileRecord) : Prop where
  nodup : f.importFiles.Nodup
  notSelf : f.path ∉ f.importFiles
  known : ∀ t ∈ f.importFiles, known t
  /-- The files are the targets of the imports found in the repository, first seen first. -/
  firstSeen : f.importFiles =
    (((f.imports.filter (·.kind == .inRepository)).flatMap (·.targets)).filter
      (· != f.path)).eraseDups
  externalNodup : f.externalImports.Nodup
  external : ∀ source, source ∈ f.externalImports ↔
    ∃ i ∈ f.imports, i.kind ≠ .inRepository ∧ i.source = source

/-- A file that has its lists drawn from its imports. -/
theorem FileRecord.importLists_collectImports (f : FileRecord) {known : String → Prop}
    (h : ∀ t ∈ f.collectImports.importFiles, known t) : f.collectImports.ImportLists known where
  nodup := importTargets_nodup _ _
  notSelf := fun hmem => (mem_importTargets.mp hmem).1 rfl
  known := h
  firstSeen := importTargets_eq _ _
  externalNodup := externalSources_nodup _
  external := fun _ => mem_externalSources

namespace Builder

/-! ## The files of a document -/

section Process

variable {b : Builder} {name : String} {r : Repository} {s : Selection}

/-- The files that a file imports are known to the repository, or accepted and read. -/
theorem knownOrRead_of_mem_importFiles {f : FileRecord}
    (hf : f ∈ (b.process name r s).document.files) {t : String} (ht : t ∈ f.importFiles) :
    r.contains t = true ∨ ∃ l, (l, t) ∈ s.accepted ∧ (r.read? t).isSome = true := by
  obtain ⟨l, text, x, -, -, -, -, rfl⟩ := mem_files_process_iff.mp hf
  unfold languageIndex at ht
  obtain ⟨-, i, hi, -, hti⟩ := FileRecord.mem_importTargets.mp ht
  -- the import was resolved against the index of the language
  change i ∈ x.imports.map (Resolve.resolveImport _ x.path) at hi
  obtain ⟨j, -, rfl⟩ := List.mem_map.mp hi
  rw [(Resolve.resolveImport_eq _ _ _).1] at hti
  have htarget := Resolve.isTarget_of_mem_importTargets (indexOf_closed l r _) hti
  unfold Resolve.IsTarget at htarget
  -- a registered file was parsed, so it was accepted and read
  have hregistered : t ∈ (indexOf l r (b.parsedFiles r l (Selection.pathsOf l s.accepted))).files →
      ∃ l, (l, t) ∈ s.accepted ∧ (r.read? t).isSome = true := by
    intro hfile
    obtain ⟨hpath, hread⟩ := mem_files_indexOf_parsedFiles.mp hfile
    exact ⟨l, Selection.mem_pathsOf.mp hpath, Option.isSome_iff_exists.mpr hread⟩
  have hrepository := Index.repository_ofEntries l r
    ((b.parsedFiles r l (Selection.pathsOf l s.accepted)).map ParsedFile.entry)
  rw [← indexOf_eq_ofEntries] at hrepository
  rw [language_indexOf, hrepository] at htarget
  -- scripts, Python and Go look up paths; Java and C# what is declared; Apex has no imports
  cases l with
  | typescript | python | go => exact Or.inl htarget
  | java | csharp => exact Or.inr (hregistered htarget)
  | apex => exact htarget.elim

/-- The import lists of the files of a document, for anything that holds of known and read paths. -/
theorem importLists_process {known : String → Prop}
    (hknown : ∀ t, r.contains t = true → known t)
    (hread : ∀ l t, (l, t) ∈ s.accepted → (r.read? t).isSome = true → known t)
    {f : FileRecord} (hf : f ∈ (b.process name r s).document.files) : f.ImportLists known := by
  have htargets : ∀ t ∈ f.importFiles, known t := by
    intro t ht
    rcases knownOrRead_of_mem_importFiles hf ht with h | ⟨l, haccepted, h⟩
    · exact hknown t h
    · exact hread l t haccepted h
  obtain ⟨l, text, x, -, -, -, -, rfl⟩ := mem_files_process_iff.mp hf
  exact FileRecord.importLists_collectImports _ htargets

end Process

/-! ## Known paths -/

/-- In a repository made from sources, what can be read is known. -/
theorem contains_of_read?_repositoryOf {sources : List (String × String)} {skeleton : List String}
    {t : String} (h : ((repositoryOf sources skeleton).read? t).isSome = true) :
    (repositoryOf sources skeleton).contains t = true := by
  unfold Repository.read? at h
  unfold Repository.contains
  obtain ⟨text, htext⟩ := Option.isSome_iff_exists.mp h
  rw [texts_repositoryOf] at htext
  rw [known_repositoryOf, Dict.contains_iff_mem_keys, Dict.mem_keys_ofList, List.map_map]
  refine List.mem_map.mpr ⟨t, List.mem_append_right _ ?_, rfl⟩
  exact List.mem_map_of_mem (Dict.mem_of_find?_ofList htext)

/-! ## The whole build -/

/--
**Import records and import lists are consistent.** After any registrations in any language, a
resolved import is in the repository exactly if it has targets, and exactly then its path is the
first of them; no target is repeated; each is a known path, or for Java and C# a registered file;
and without targets there is no path, and the import is unresolved or external as its source is
relative or not.

In every document built from sources, and in every one built from a directory, a file lists the
targets of its imports once each in the order in which they are first seen, without itself and only
known paths, and it lists exactly the sources of its other imports, once each.
-/
theorem imports_consistent :
    (∀ l r entries importer i, Resolve.ImportRecord (Index.ofEntries l r entries)
      (Resolve.resolveImport (Index.ofEntries l r entries) importer i))
    ∧ (∀ (b : Builder) name sources skeleton out, b.ofSources name sources skeleton = .ok out →
      ∀ f ∈ out.document.files,
        f.ImportLists fun t => (repositoryOf sources skeleton).contains t = true)
    ∧ ∀ (b : Builder) root name d out, b.run root name (some d) = .ok out →
      ∃ found, Discovery.ofDisk b.config.scan d = .ok found
        ∧ ∀ f ∈ out.document.files, f.ImportLists found.Knows := by
  refine ⟨fun l r entries importer i => ?_, fun b name sources skeleton out hout => ?_,
    fun b root name d out hout => ?_⟩
  · exact Resolve.importRecord_resolveImport (Index.closed_ofEntries l r entries)
      (Index.namespacesDistinct_ofEntries l r entries) importer i
  · obtain ⟨-, -, -, rfl⟩ := ofSources_eq_ok_iff.mp hout
    intro f hf
    exact importLists_process (fun _ h => h) (fun _ _ _ => contains_of_read?_repositoryOf) hf
  · obtain ⟨-, found, hfound, -, -, rfl⟩ := run_eq_ok_iff.mp hout
    refine ⟨found, hfound, fun f hf => importLists_process (fun t h => ?_) (fun l t h _ => ?_) hf⟩
    -- the repository knows a path in normal form, the walk as it is written
    · exact Or.inr (Repository.contains_ofDisk.mp h)
    · exact Or.inl (Discovery.mem_known_of_mem_accepted hfound h)

open Tree (rule) in
/-- The tree of the Python text `import a,b,b,os`, and that of a text without statements. -/
def importsTree (path _text : String) : Tree :=
  if path == "a.py" then
    rule "module" none 0 15
      [rule "import_statement" none 0 15
        [rule "dotted_name" (some "name") 7 8 [], rule "dotted_name" (some "name") 9 10 [],
         rule "dotted_name" (some "name") 11 12 [], rule "dotted_name" (some "name") 13 15 []]]
  else rule "module" none 0 0 []

/-- A file that imports itself, another file twice, and a module from elsewhere. -/
theorem imports_consistent_selfAndTwice :
    let b : Builder :=
      { config := { Config.default with scan.excludeDirs := [], scan.excludePatterns := [] }
        grammar := importsTree
        now := .epoch }
    let sources := [("a.py", "import a,b,b,os"), ("b.py", "")]
    let d := Disk.empty.write "a.py" (.ofText "import a,b,b,os") |>.write "b.py" (.ofText "")
    (∃ out, b.ofSources "sample" sources [] = .ok out
      ∧ (∀ f ∈ out.document.files,
        f.ImportLists fun t => (repositoryOf sources []).contains t = true)
      ∧ out.document.files.map (fun f => (f.path, f.importFiles, f.externalImports)) =
        [("a.py", ["b.py"], ["os"]), ("b.py", [], [])])
    ∧ ∃ out found, b.run "sample" none (some d) = .ok out
      ∧ Discovery.ofDisk b.config.scan d = .ok found
      ∧ (∀ f ∈ out.document.files, f.ImportLists found.Knows)
      ∧ out.document.files.map (fun f => (f.path, f.importFiles, f.externalImports)) =
        [("a.py", ["b.py"], ["os"]), ("b.py", [], [])] := by
  intro b sources d
  constructor
  · have hok : b.ofSources "sample" sources [] =
        .ok (b.process "sample" (repositoryOf sources []) (b.selected sources)) :=
      ofSources_eq_ok_iff.mpr
      ⟨by decide +kernel, by decide +kernel, by decide +kernel, rfl⟩
    exact ⟨_, hok, imports_consistent.2.1 b "sample" sources [] _ hok, by decide +kernel⟩
  · have hfiles : ((b.run "sample" none (some d)).toOption.map fun out =>
        out.document.files.map fun f => (f.path, f.importFiles, f.externalImports)) =
          some [("a.py", ["b.py"], ["os"]), ("b.py", [], [])] := by
      decide +kernel
    -- the run is evaluated once, as far as the three lists
    cases hrun : b.run "sample" none (some d) with
    | error e =>
      rw [hrun] at hfiles
      cases hfiles
    | ok out =>
      rw [hrun] at hfiles
      obtain ⟨found, hfound, hlists⟩ := imports_consistent.2.2 b "sample" none d out hrun
      exact ⟨out, found, rfl, hfound, hlists, Option.some.inj hfiles⟩

end Builder

end SourceAtlas
