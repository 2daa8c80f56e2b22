import SourceAtlas.Proofs.Index.History
import SourceAtlas.Proofs.RepoPath.Segments
import SourceAtlas.Resolve.Import

/-!
# Python: the name of a module leads to its file

A file has a module name, read off its path, and an import looks for the files that a module name
may stand for. The two are written apart from each other; here they are shown to be inverse
(`resolveImport_ofPath`). Both are told by the parts of the name, which are neither empty nor
contain dots:

* **From the file to the name.** A module file has the parts of its path, the file of a package
  those of its directory (`exists_parts_of_isModuleFile`).
* **From the name to the files.** The name stands for a path at the root, then for one below `src`
  (`pythonBases_dotted`), and at each of them for the module file before the package
  (`pythonTargetsAt_ofParts`).
-/

namespace SourceAtlas

open RepoPath (ofParts IsSegment IsPlain)

namespace PythonModule

/-- Whether a part of a path can be part of a module name. -/
def IsName (part : List Char) : Prop :=
  IsSegment part ∧ '.' ∉ part

theorem IsName.isPlain {part : List Char} (h : IsName part) : IsPlain part where
  isSegment := h.1
  ne_dot := by
    rintro rfl
    exact h.2 List.mem_cons_self
  ne_dots := by
    rintro rfl
    exact h.2 List.mem_cons_self

/-- The module name with these parts. -/
def dotted (parts : List (List Char)) : String :=
  String.ofList (['.'].intercalate parts)

/--
Whether a path is that of a Python file, where the names of its directories and its own name, but
for the extension, are not empty and have no dots.
-/
def IsModuleFile (path : String) : Prop :=
  ∃ stem, Text.stripSuffix? path ".py" = some stem ∧
    ∀ segment ∈ Text.splitOn '/' stem, segment ≠ "" ∧ '.' ∉ segment.toList

/-- Whether a path is that of a package whose name is also the name of a known module file. -/
def IsShadowed (r : Repository) (path : String) : Prop :=
  ∃ dir, path = dir ++ "/__init__.py" ∧ r.contains (dir ++ ".py") = true

/-- The files that a module name stands for: a module file, or the file of a package. -/
inductive NamedBy (parts : List (List Char)) : String → Prop
  | module : NamedBy parts (ofParts parts ++ ".py")
  | package : NamedBy parts (ofParts parts ++ "/__init__.py")

/-! ## Slashes and dots -/

section Parts

variable {parts : List (List Char)} (h : ∀ part ∈ parts, IsName part)

include h

theorem replaceChar_ofParts : Text.replaceChar '/' '.' (ofParts parts) = dotted parts := by
  unfold Text.replaceChar Text.onChars dotted
  rw [RepoPath.toList_ofParts, Chars.map_replace_intercalate fun part hpart => (h part hpart).1.2]

theorem replaceChar_dotted : Text.replaceChar '.' '/' (dotted parts) = ofParts parts := by
  unfold Text.replaceChar Text.onChars dotted ofParts
  rw [String.toList_ofList, Chars.map_replace_intercalate fun part hpart => (h part hpart).2]

/-- A module name does not start with a dot. -/
theorem dotted_head (hne : parts ≠ []) : ∃ c cs, (dotted parts).toList = c :: cs ∧ c ≠ '.' := by
  -- the first part is not empty and has no dot, so its first character leads
  cases parts with
  | nil => exact absurd rfl hne
  | cons part parts =>
    obtain ⟨⟨hpart, -⟩, hdot⟩ := h part List.mem_cons_self
    obtain ⟨c, cs, hchars, hmem⟩ := Chars.exists_head_intercalate '.' hpart parts
    unfold dotted
    rw [String.toList_ofList]
    exact ⟨c, cs, hchars, fun heq => hdot (heq ▸ hmem)⟩

end Parts

/-! ## From the file to the name -/

theorem isName_of_mem_segments {stem : String}
    (h : ∀ segment ∈ Text.splitOn '/' stem, segment ≠ "" ∧ '.' ∉ segment.toList) :
    ∀ part ∈ RepoPath.segments stem.toList, IsName part := by
  intro part hpart
  obtain ⟨hne, hdot⟩ := h (String.ofList part) (List.mem_map_of_mem hpart)
  rw [String.toList_ofList] at hdot
  refine ⟨⟨?_, RepoPath.slash_not_mem_of_mem_segments hpart⟩, hdot⟩
  rintro rfl
  exact hne rfl

/--
What is left of a path without its extension and without `/__init__` is the name, with slashes.
-/
theorem ofPath_eq_dotted {path front : String}
    (hparts : ∀ part ∈ RepoPath.segments front.toList, IsName part)
    (heq : ofPath path = if front == "__init__" then "" else Text.replaceChar '/' '.' front)
    (hname : ofPath path ≠ "") : ofPath path = dotted (RepoPath.segments front.toList) := by
  rw [heq] at hname ⊢
  split at hname
  · exact absurd rfl hname
  next hinit =>
    rw [if_neg hinit, ← replaceChar_ofParts hparts, RepoPath.ofParts_segments]

/-- A module file has the parts of its path as its name, the file of a package those of its
directory. -/
theorem exists_parts_of_isModuleFile {path : String} (h : IsModuleFile path)
    (hname : ofPath path ≠ "") :
    ∃ parts, parts ≠ [] ∧ (∀ part ∈ parts, IsName part) ∧ ofPath path = dotted parts
      ∧ NamedBy parts path := by
  obtain ⟨stem, hstem, hsegments⟩ := h
  have hpath := Text.stripSuffix?_eq_some_iff.mp hstem
  have hparts := isName_of_mem_segments hsegments
  have hofPath : ofPath path =
      if (Text.stripSuffix? stem "/__init__").getD stem == "__init__" then ""
      else Text.replaceChar '/' '.' ((Text.stripSuffix? stem "/__init__").getD stem) := by
    unfold ofPath
    rw [hstem]
    rfl
  -- without `/__init__` the file is a module, named by all its parts
  cases hinit : Text.stripSuffix? stem "/__init__" with
  | none =>
    rw [hinit, Option.getD_none] at hofPath
    refine ⟨_, List.splitOn_ne_nil _ _, hparts, ofPath_eq_dotted hparts hofPath hname, ?_⟩
    have hmodule : NamedBy (RepoPath.segments stem.toList) _ := NamedBy.module
    rwa [RepoPath.ofParts_segments, ← hpath] at hmodule
  | some front =>
    rw [hinit, Option.getD_some] at hofPath
    have hfront := Text.stripSuffix?_eq_some_iff.mp hinit
    have hinits : "/__init__".toList = '/' :: "__init__".toList := by decide +kernel
    -- the directory has the parts of the path but for the last
    have hfrontParts : ∀ part ∈ RepoPath.segments front.toList, IsName part := by
      intro part hpart
      refine hparts part ?_
      rw [hfront, String.toList_append, hinits, RepoPath.segments, List.splitOn_append_cons_self]
      exact List.mem_append_left _ hpart
    refine ⟨_, List.splitOn_ne_nil _ _, hfrontParts, ofPath_eq_dotted hfrontParts hofPath hname, ?_⟩
    have hpackage : NamedBy (RepoPath.segments front.toList) _ := NamedBy.package
    have hending : "/__init__.py" = "/__init__" ++ ".py" := by decide +kernel
    rwa [RepoPath.ofParts_segments, hending, ← String.append_assoc, ← hfront, ← hpath] at hpackage

end PythonModule

namespace Resolve

open PythonModule

/-! ## From the name to the files -/

section Targets

variable {parts : List (List Char)}

/-- The files at a base made of parts: the module file, or else that of the package. -/
def moduleFilesAt (r : Repository) (parts : List (List Char)) : List String :=
  if r.contains (ofParts parts ++ ".py") then [ofParts parts ++ ".py"]
  else if r.contains (ofParts parts ++ "/__init__.py") then [ofParts parts ++ "/__init__.py"]
  else []

/-- The first part of the names below `src`. -/
def srcPart : List Char := "src".toList

theorem isName_srcPart : IsName srcPart := by
  unfold IsName srcPart
  decide +kernel

variable (hne : parts ≠ []) (h : ∀ part ∈ parts, IsName part)

include hne h

/-- A module name stands for a path at the root, then for one below `src`. -/
theorem pythonBases_dotted (importer : String) :
    pythonBases importer (dotted parts) = [ofParts parts, ofParts (srcPart :: parts)] := by
  obtain ⟨c, cs, hchars, hc⟩ := dotted_head h hne
  -- no dot in front, so the name is not relative
  have htake : (dotted parts).toList.takeWhile (· == '.') = [] := by
    rw [hchars, List.takeWhile_cons_of_neg (by simpa using hc)]
  have hdrop : String.ofList ((dotted parts).toList.dropWhile (· == '.')) = dotted parts := by
    rw [hchars, List.dropWhile_cons_of_neg (by simpa using hc), ← hchars, String.ofList_toList]
  have hplain : ∀ part ∈ parts, IsPlain part := fun part hpart => (h part hpart).isPlain
  -- both joins are between plain parts, so nothing is taken back
  have hroot : RepoPath.join? (ofParts []) (ofParts parts) = some (ofParts parts) :=
    RepoPath.join?_ofParts (fun _ hpart => nomatch hpart) hplain
  have hsrc :
      RepoPath.join? (ofParts [srcPart]) (ofParts parts) = some (ofParts (srcPart :: parts)) :=
    RepoPath.join?_ofParts (fun part hpart => List.mem_singleton.mp hpart ▸ isName_srcPart.1) hplain
  have hempty : ofParts [] = "" := by decide +kernel
  have hsrcPart : ofParts [srcPart] = "src" := by decide +kernel
  rw [hempty] at hroot
  rw [hsrcPart] at hsrc
  unfold pythonBases
  dsimp only
  rw [htake, hdrop, replaceChar_dotted h]
  dsimp only
  simp only [List.filterMap_cons, hroot, hsrc, List.filterMap_nil]

/-- At a base, an import without bindings finds the module file, or else the package. -/
theorem pythonTargetsAt_ofParts (r : Repository) {i : Import}
    (hsource : i.source.toList.any (· != '.'))
    (hbindings : i.bindings = []) :
    pythonTargetsAt r i (ofParts parts) = moduleFilesAt r parts := by
  -- a source with more than dots names a module
  have hpackage : i.source.toList.all (· == '.') = false := by
    rw [List.all_eq_not_any_not]
    exact (Bool.not_eq_false' _).mpr hsource
  have hsegments : ∀ part ∈ parts, IsSegment part := fun part hpart => (h part hpart).1
  have hinit :
      RepoPath.join? (ofParts parts) "__init__.py" = some (ofParts parts ++ "/__init__.py") := by
    have hslash : "/" ++ "__init__.py" = "/__init__.py" := by decide +kernel
    rw [RepoPath.join?_name hsegments (by decide +kernel),
      if_neg (mt (RepoPath.ofParts_eq_empty_iff hsegments).mp hne), String.append_assoc, hslash]
  unfold pythonTargetsAt moduleFilesAt
  rw [hpackage, hinit, hbindings]
  rfl

/-- The files of a module name are those at the root, or else those below `src`. -/
theorem pythonTargets_dotted (ix : Index) (importer : String) {i : Import}
    (hsource : i.source = dotted parts) (hbindings : i.bindings = []) :
    pythonTargets ix importer i =
      if moduleFilesAt ix.repository parts = [] then moduleFilesAt ix.repository (srcPart :: parts)
      else moduleFilesAt ix.repository parts := by
  have hnames : ∀ part ∈ srcPart :: parts, IsName part :=
    List.forall_mem_cons.mpr ⟨isName_srcPart, h⟩
  have hany : i.source.toList.any (· != '.') = true := by
    obtain ⟨c, cs, hchars, hc⟩ := dotted_head h hne
    rw [hsource, hchars, List.any_cons, bne_iff_ne.mpr hc, Bool.true_or]
  unfold pythonTargets
  rw [hsource, pythonBases_dotted hne h, List.map_cons, List.map_cons, List.map_nil,
    pythonTargetsAt_ofParts hne h _ hany hbindings,
    pythonTargetsAt_ofParts (List.cons_ne_nil _ _) hnames _ hany hbindings]
  -- the first base with a file counts
  cases moduleFilesAt ix.repository parts with
  | nil =>
    rw [if_pos rfl]
    cases moduleFilesAt ix.repository (srcPart :: parts) <;> rfl
  | cons file files => rfl

end Targets

/-- A known file is the one at its parts, unless it is shadowed. -/
theorem moduleFilesAt_of_namedBy {r : Repository} {parts : List (List Char)} {path : String}
    (hnamed : NamedBy parts path) (hknown : r.contains path = true)
    (hshadow : ¬ IsShadowed r path) :
    moduleFilesAt r parts = [path] := by
  unfold moduleFilesAt
  cases hnamed with
  | module => rw [if_pos hknown]
  | package =>
    -- a module file of the same name would shadow the package
    have hmodule : ¬ r.contains (ofParts parts ++ ".py") = true := fun hmodule =>
      hshadow ⟨_, rfl, hmodule⟩
    rw [if_neg hmodule, if_pos hknown]

/-! ## Both ways -/

/-- Whether every import of a source, without bindings, is resolved to a file. -/
def LeadsTo (ix : Index) (importer source path : String) : Prop :=
  ∀ i : Import, i.source = source → i.bindings = [] →
    (resolveImport ix importer i).kind = .inRepository
      ∧ (resolveImport ix importer i).path = some path

theorem leadsTo_of_pythonTargets {ix : Index} (hl : ix.language = .python)
    {importer source path : String}
    (h : ∀ i : Import, i.source = source → i.bindings = [] → pythonTargets ix importer i = [path]) :
    LeadsTo ix importer source path := by
  intro i hsource hbindings
  have htargets : importTargets ix importer i = [path] := by
    rw [importTargets, hl]
    exact h i hsource hbindings
  rw [resolveImport, htargets]
  exact ⟨rfl, rfl⟩

/-- The parts of a name below `src` are those of the rest of the name, behind `src`. -/
theorem parts_eq_of_src {parts : List (List Char)} (hne : parts ≠ [])
    (h : ∀ part ∈ parts, IsName part) {short : String} (hsrc : dotted parts = "src." ++ short) :
    parts = srcPart :: short.toList.splitOn '.' := by
  have hstart : "src.".toList = srcPart ++ ['.'] := by decide +kernel
  -- a name tells its parts, for they have no dots
  have hsplit : (dotted parts).toList.splitOn '.' = parts := by
    unfold dotted
    rw [String.toList_ofList, List.splitOn_intercalate '.' (fun part hpart => (h part hpart).2) hne]
  rw [hsrc, String.toList_append, hstart, List.append_assoc, List.singleton_append,
    List.splitOn_append_cons_self, List.splitOn_eq_singleton isName_srcPart.2] at hsplit
  exact hsplit.symm

/--
**The module name of a file leads to the file.** In any repository, from any file, an import of the
name finds a known module file or package, unless the package is shadowed by a module file. A name
below `src` can be written without `src`, unless there is a module or package of that name at the
root.
-/
theorem resolveImport_ofPath (r : Repository) (entries : List Index.Entry) (importer : String)
    {path : String} (hfile : IsModuleFile path) (hknown : r.contains path = true)
    (hname : PythonModule.ofPath path ≠ "") (hshadow : ¬ IsShadowed r path) :
    LeadsTo (.ofEntries .python r entries) importer (PythonModule.ofPath path) path
      ∧ ∀ short, PythonModule.ofPath path = "src." ++ short →
        r.contains (Text.replaceChar '.' '/' short ++ ".py") = false →
        r.contains (Text.replaceChar '.' '/' short ++ "/__init__.py") = false →
        LeadsTo (.ofEntries .python r entries) importer short path := by
  have hl := Index.language_ofEntries .python r entries
  have hr := Index.repository_ofEntries .python r entries
  obtain ⟨parts, hne, hparts, heq, hnamed⟩ := exists_parts_of_isModuleFile hfile hname
  have hfiles := moduleFilesAt_of_namedBy hnamed hknown hshadow
  refine ⟨leadsTo_of_pythonTargets hl fun i hsource hbindings => ?_,
    fun short hsrc hmodule hpackage => leadsTo_of_pythonTargets hl fun i hsource hbindings => ?_⟩
  · rw [pythonTargets_dotted hne hparts _ importer (hsource.trans heq) hbindings, hr, hfiles,
      if_neg (List.cons_ne_nil _ _)]
  · -- the parts of the short name are those behind `src`
    have hsplit := parts_eq_of_src hne hparts (heq.symm.trans hsrc)
    have hshort : dotted (short.toList.splitOn '.') = short := by
      unfold dotted
      rw [List.intercalate_splitOn, String.ofList_toList]
    have hrest : ∀ part ∈ short.toList.splitOn '.', IsName part := fun part hpart =>
      hparts part (hsplit ▸ List.mem_cons_of_mem _ hpart)
    -- nothing of the short name is at the root, so the files below `src` count
    have hnone : moduleFilesAt r (short.toList.splitOn '.') = [] := by
      unfold moduleFilesAt
      rw [← replaceChar_dotted hrest, hshort, hmodule, hpackage]
      rfl
    rw [pythonTargets_dotted (List.splitOn_ne_nil _ _) hrest _ importer (hsource.trans hshort.symm)
      hbindings, hr, if_pos hnone, ← hsplit, hfiles]

/-- A package below `src`, beside a module of it and a script at the root. -/
def packageRepository : Repository :=
  .ofSources [] ["src/app/__init__.py", "src/app/util.py", "main.py"]

theorem resolveImport_ofPath_package :
    let ix := Index.ofEntries .python packageRepository []
    let path := "src/app/__init__.py"
    IsModuleFile path ∧ packageRepository.contains path = true ∧ ¬ IsShadowed packageRepository path
      ∧ LeadsTo ix "main.py" "src.app" path ∧ LeadsTo ix "main.py" "app" path := by
  intro ix path
  have hfile : IsModuleFile path := ⟨"src/app/__init__", by decide +kernel, by decide +kernel⟩
  have hknown : packageRepository.contains path = true := by decide +kernel
  have hshadow : ¬ IsShadowed packageRepository path := by
    -- the only directory in question has no module file beside it
    rintro ⟨dir, hdir, hmodule⟩
    have hstrip : Text.stripSuffix? path "/__init__.py" = some "src/app" := by decide +kernel
    rw [Text.stripSuffix?_eq_some_iff.mpr hdir] at hstrip
    obtain rfl := Option.some.inj hstrip
    exact absurd hmodule (by decide +kernel)
  have hname : PythonModule.ofPath path = "src.app" := by decide +kernel
  obtain ⟨hfull, hshort⟩ := resolveImport_ofPath packageRepository [] "main.py" hfile hknown
    (by decide +kernel) hshadow
  rw [hname] at hfull
  exact ⟨hfile, hknown, hshadow, hfull,
    hshort "app" (by decide +kernel) (by decide +kernel) (by decide +kernel)⟩

end Resolve

end SourceAtlas
