import SourceAtlas.Proofs.Build.Pathwise
import SourceAtlas.Proofs.Index.History
import SourceAtlas.Proofs.Resolve.CallTargets

/-!
# Builds: every resolved call points at a file of the build

A document is a graph: calls refer to files by path. In a build from sources every such path is a
file that was read in the same build and has the language of the caller
(`ofSources_calls_integrity`). The callee need not be in the document itself: a file that has not
changed, or that could not be parsed, is indexed all the same.

The argument goes through the index of the language: it is closed (`indexOf_closed`), its files are
the files read (`mem_files_indexOf`), and a resolved call points at one of them
(`Resolve.resolveCall_registered`).
-/

namespace SourceAtlas.Builder

/-! ## The index of a language -/

/-- A file as it is registered: one that could not be parsed by its path alone. -/
def ParsedFile.entry (f : ParsedFile) : Index.Entry :=
  match f.result with
  | .ok x => .declared x
  | .error _ => .bare f.source.path

theorem register_eq_enter (ix : Index) (f : ParsedFile) : register ix f = ix.enter f.entry := by
  unfold register ParsedFile.entry
  cases f.result <;> rfl

/-- The index of a language is that of the history of its files. -/
theorem indexOf_eq_ofEntries (l : Language) (r : Repository) (parsed : List ParsedFile) :
    indexOf l r parsed = Index.ofEntries l r (parsed.map ParsedFile.entry) := by
  unfold indexOf Index.ofEntries
  rw [List.foldl_map]
  congr 1
  funext ix f
  exact register_eq_enter ix f

theorem indexOf_closed (l : Language) (r : Repository) (parsed : List ParsedFile) :
    (indexOf l r parsed).Closed := by
  rw [indexOf_eq_ofEntries]
  exact Index.closed_ofEntries l r _

theorem language_indexOf (l : Language) (r : Repository) (parsed : List ParsedFile) :
    (indexOf l r parsed).language = l := by
  rw [indexOf_eq_ofEntries]
  exact Index.language_ofEntries l r _

/-- A parsed file is registered under its own path, whether or not it could be parsed. -/
theorem mem_files_register {ix : Index} {f : ParsedFile} {p : String}
    (hpath : ∀ x, f.result = .ok x → x.path = f.source.path) :
    p ∈ (register ix f).files ↔ p ∈ ix.files ∨ p = f.source.path := by
  unfold register
  split
  next x hx => rw [Index.mem_files_add, hpath x hx]
  next => exact Index.mem_files_addFile

/-- The registered files are the parsed files. -/
theorem mem_files_indexOf {l : Language} {r : Repository} {parsed : List ParsedFile} {p : String}
    (hpath : ∀ f ∈ parsed, ∀ x, f.result = .ok x → x.path = f.source.path) :
    p ∈ (indexOf l r parsed).files ↔ ∃ f ∈ parsed, f.source.path = p := by
  -- the induction has to carry the files registered before
  have hfold : ∀ ix : Index, p ∈ (parsed.foldl register ix).files ↔
      p ∈ ix.files ∨ ∃ f ∈ parsed, f.source.path = p := by
    induction parsed with
    | nil => simp
    | cons f parsed ih =>
      intro ix
      have hrest := ih fun g hg => hpath g (List.mem_cons_of_mem f hg)
      rw [List.foldl_cons, hrest, mem_files_register (hpath f List.mem_cons_self), or_assoc]
      simp [eq_comm]
  have hnone : p ∉ (Index.start l r).files := List.not_mem_nil
  exact (hfold (Index.start l r)).trans (or_iff_right hnone)

/-! ## The files of a language -/

section Language

variable {b : Builder} {r : Repository} {l : Language} {paths : List String}

theorem mem_parsedFiles {f : ParsedFile} :
    f ∈ b.parsedFiles r l paths ↔
      ∃ path ∈ paths, ∃ text, r.read? path = some text ∧ f = b.parse l (b.readFile path text) := by
  unfold parsedFiles
  simp only [List.mem_map, mem_readFiles]
  constructor
  · rintro ⟨_, ⟨path, hmem, text, hread, rfl⟩, rfl⟩
    exact ⟨path, hmem, text, hread, rfl⟩
  · rintro ⟨path, hmem, text, hread, rfl⟩
    exact ⟨_, ⟨path, hmem, text, hread, rfl⟩, rfl⟩

/-- What a file declares carries the path of the file. -/
theorem parse_path {f : ReadFile} {x : Extraction} (hx : (b.parse l f).result = .ok x) :
    x.path = f.path :=
  extract_path hx

/-- The registered files of a language are those of its paths that can be read. -/
theorem mem_files_indexOf_parsedFiles {p : String} :
    p ∈ (indexOf l r (b.parsedFiles r l paths)).files ↔
      p ∈ paths ∧ ∃ text, r.read? p = some text := by
  have hpath : ∀ f ∈ b.parsedFiles r l paths, ∀ x, f.result = .ok x → x.path = f.source.path := by
    intro f hf x hx
    obtain ⟨path, -, text, -, rfl⟩ := mem_parsedFiles.mp hf
    exact parse_path hx
  rw [mem_files_indexOf hpath]
  simp only [mem_parsedFiles]
  constructor
  · rintro ⟨_, ⟨path, hmem, text, hread, rfl⟩, rfl⟩
    exact ⟨hmem, text, hread⟩
  · rintro ⟨hmem, text, hread⟩
    exact ⟨_, ⟨p, hmem, text, hread, rfl⟩, rfl⟩

/-- The calls in a record are resolved from the scope of their function. -/
theorem exists_resolveCall_of_mem_record {ix : Index} {x : Extraction} {lines : Nat}
    {f : FunctionDecl} {c : CallSite} (hf : f ∈ (record ix x lines).functions) (hc : c ∈ f.calls) :
    ∃ scope : Resolve.Scope, ∃ call : CallSite,
      scope.imports = x.imports.map (Resolve.resolveImport ix x.path)
        ∧ c.path = Resolve.resolveCall ix scope call := by
  change f ∈ (Resolve.resolve ix x).functions at hf
  obtain ⟨f₀, -, rfl⟩ := List.mem_map.mp hf
  obtain ⟨c₀, -, rfl⟩ := List.mem_map.mp hc
  exact ⟨Resolve.scopeOf ix x (x.imports.map (Resolve.resolveImport ix x.path)) f₀, c₀, rfl, rfl⟩

/-- A resolved call in a record points at a path of the language that can be read. -/
theorem call_mem_of_mem_record {path text : String} {x : Extraction}
    (hx : extract l path text (b.grammar path text) = .ok x) {lines : Nat} {f : FunctionDecl}
    (hf : f ∈ (record (indexOf l r (b.parsedFiles r l paths)) x lines).functions) {c : CallSite}
    (hc : c ∈ f.calls) {p : String} (hp : c.path = some p) :
    p ∈ paths ∧ ∃ text, r.read? p = some text := by
  obtain ⟨scope, call, himports, hresolve⟩ := exists_resolveCall_of_mem_record hf hc
  -- static imports of the file, where its language has them, point into the index
  have hclosed := indexOf_closed l r (b.parsedFiles r l paths)
  have hstatic : Resolve.StaticTargetsRegistered (indexOf l r (b.parsedFiles r l paths))
      scope.imports := by
    rw [himports]
    refine Resolve.staticTargetsRegistered_resolveImport hclosed x.path ?_
    rw [language_indexOf]
    exact fun hl => extract_not_static hx hl
  rw [hp] at hresolve
  exact mem_files_indexOf_parsedFiles.mp
    (Resolve.resolveCall_registered hclosed hstatic hresolve.symm)

end Language

/-! ## The whole build -/

/-- **Referential integrity of calls.** In a document built from sources, whatever the settings, the
skeleton and the hashes of an earlier run, every resolved call points at a file that was read and
hashed in the same build and belongs to the language of the caller. -/
theorem ofSources_calls_integrity {b : Builder} {name : String} {sources : List (String × String)}
    {skeleton : List String} {out : BuildOutput}
    (h : b.ofSources name sources skeleton = .ok out) :
    ∀ file ∈ out.document.files, ∀ f ∈ file.functions, ∀ c ∈ f.calls, ∀ p, c.path = some p →
      out.hashes.contains p = true
        ∧ ∃ l, Language.ofPath? file.path = some l ∧ Language.ofPath? p = some l := by
  intro file hfile f hf c hc p hp
  obtain ⟨-, -, -, rfl⟩ := ofSources_eq_ok_iff.mp h
  obtain ⟨l, callerText, x, hcaller, -, -, hx, hrecord⟩ := mem_files_process_iff.mp hfile
  rw [hrecord] at hf
  -- both paths are accepted for the language
  obtain ⟨hcallee, text, hread⟩ := call_mem_of_mem_record hx hf hc hp
  rw [Selection.mem_pathsOf] at hcallee
  have hlanguage := b.selected_byLanguage sources l
  refine ⟨?_, l, hlanguage _ hcaller, hlanguage _ hcallee⟩
  rw [hashes_process, Dict.contains_iff_mem_keys, Dict.mem_keys_iff]
  exact ⟨contentHash text, (find?_hashes _ _ _ _ _).mpr ⟨⟨l, hcallee⟩, text, hread, rfl⟩⟩

/-- The callee `b.py` has not changed, so it is not in the document; the call still points at it. -/
theorem ofSources_calls_integrity_mutualCalls :
    let b := { oneCallBuilder with
      changes := .ofHashes [("b.py", contentHash "def g(): f()")] }
    ∃ out, b.ofSources "sample" mutualCalls [] = .ok out
      ∧ out.document.files.map (·.path) = ["a.py"]
      ∧ ∃ file ∈ out.document.files, ∃ f ∈ file.functions, ∃ c ∈ f.calls,
        c.path = some "b.py" ∧ out.hashes.contains "b.py" = true
          ∧ ∃ l, Language.ofPath? file.path = some l ∧ Language.ofPath? "b.py" = some l := by
  intro b
  have hok : b.ofSources "sample" mutualCalls [] =
      .ok (b.process "sample" (repositoryOf mutualCalls []) (b.selected mutualCalls)) :=
    ofSources_eq_ok_iff.mpr
      ⟨by decide +kernel, by decide +kernel, by decide +kernel, rfl⟩
  refine ⟨_, hok, by decide +kernel, ?_⟩
  obtain ⟨file, hfile, f, hf, c, hc, hpath⟩ : ∃ file ∈ (b.process "sample"
      (repositoryOf mutualCalls []) (b.selected mutualCalls)).document.files,
      ∃ f ∈ file.functions, ∃ c ∈ f.calls, c.path = some "b.py" := by
    decide +kernel
  exact ⟨file, hfile, f, hf, c, hc, hpath,
    ofSources_calls_integrity hok file hfile f hf c hc "b.py" hpath⟩

end SourceAtlas.Builder
