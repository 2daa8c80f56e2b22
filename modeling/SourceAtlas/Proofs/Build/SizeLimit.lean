import SourceAtlas.Proofs.Build.Accounting
import SourceAtlas.Proofs.Build.SourceOrder

/-!
# Builds: the limit of the size

Every source is measured as it comes in: one within the limit has its path accepted, a larger one is
told among the failures. The texts are stored apart from that, and of several sources under one path
the last one counts. A path that is given more than once can therefore be accepted for one text and
extracted from another.

* **`read?_repositoryOf_eq_some_iff`**: the text that is read at a path is that of the last source
  stored there;
* **`exists_extractedFrom`**: a recorded file is extracted from that text;
* **`failure_path_eq_iff`**: a recorded path is among the failures exactly if some source known by
  it is above the limit.

Together they say exactly which builds respect the limit (`ofSources_respectsLimit_iff`): those that
record no path with a source above the limit, be it one that is known by the path or the last one
stored under it. Different paths in normal form are always such (`sizesAgree_of_nodup`); a repeated
path need not be (`ofSources_limit_repeatedPath`).
-/

namespace SourceAtlas

namespace Builder

/-! ## Where texts come from -/

/-- The path that the text of a source is stored under. -/
def storedPath (source : String × String) : String :=
  RepoPath.normal (RepoPath.normal source.1)

/-- The source is the last one that is stored under a path. -/
def IsLastStored (sources : List (String × String)) (path : String) (source : String × String) :
    Prop :=
  ∃ before after, sources = before ++ source :: after ∧ storedPath source = path
    ∧ ∀ later ∈ after, storedPath later ≠ path

/-- The text that is read at a path is that of the last source stored there. -/
theorem read?_repositoryOf_eq_some_iff {sources : List (String × String)} {skeleton : List String}
    {path text : String} :
    (repositoryOf sources skeleton).read? path = some text ↔
      ∃ source, IsLastStored sources path source ∧ source.2 = text := by
  unfold Repository.read?
  rw [texts_repositoryOf, Dict.find?_ofList]
  rw [List.lookup_eq_some_iff]
  constructor
  · -- a look-up goes through the sources from the last one on
    rintro ⟨after, before, hsplit, hafter⟩
    rw [List.reverse_eq_iff, List.reverse_append, List.reverse_cons, List.append_assoc] at hsplit
    obtain ⟨before', rest', rfl, -, hrest⟩ := List.map_eq_append_iff.mp hsplit
    obtain ⟨source, after', rfl, hsource, hlater⟩ := List.map_eq_cons_iff.mp hrest
    obtain ⟨hpath, rfl⟩ := Prod.mk.inj hsource
    refine ⟨source, ⟨before', after', rfl, hpath, fun later hmem heq => ?_⟩, rfl⟩
    have hmem' := List.mem_reverse.mp (hlater ▸ List.mem_map_of_mem hmem)
    exact bne_iff_ne.mp (hafter _ hmem') heq.symm
  · rintro ⟨source, ⟨before, after, rfl, hpath, hafter⟩, rfl⟩
    refine ⟨(storedTexts after).reverse, (storedTexts before).reverse, ?_, ?_⟩
    · unfold storedTexts
      rw [List.map_append, List.map_cons, List.reverse_append, List.reverse_cons,
        List.append_assoc, ← hpath]
      rfl
    · intro e he
      obtain ⟨later, hlater, rfl⟩ := List.mem_map.mp (List.mem_reverse.mp he)
      exact bne_iff_ne.mpr (hafter later hlater).symm

/-! ## What is recorded, and what fails -/

section Process

variable {b : Builder} {name : String} {r : Repository} {s : Selection}

/-- Of a recorded path there is no other failure than one for its size. -/
theorem failure_path_eq_iff (hs : s.ByLanguage) {file : FileRecord}
    (hfile : file ∈ (b.process name r s).document.files) :
    (∃ failure ∈ (b.process name r s).failures, failure.path = file.path) ↔
      ∃ l, (l, file.path) ∈ s.oversize := by
  obtain ⟨l, text, x, haccepted, hread, -, hx, -⟩ := mem_files_process_iff.mp hfile
  rw [failures_process]
  constructor
  · rintro ⟨failure, hfailure, hpath⟩
    obtain ⟨l', -, hfailure⟩ := List.mem_flatMap.mp hfailure
    rcases (mem_failures_outcomeOf b r).mp hfailure with
      ⟨path, -, hnone, rfl⟩ | ⟨path, haccepted', -, hfind⟩ | ⟨path, hoversize, rfl⟩
    · -- the text of a recorded path is at hand
      obtain rfl : path = file.path := hpath
      rw [hread] at hnone
      cases hnone
    · -- and it can be extracted, under the one language of the path
      obtain rfl : path = file.path := (path_failureAt? hfind).symm.trans hpath
      obtain rfl : l' = l :=
        Option.some.inj ((hs l' _ haccepted').symm.trans (hs l _ haccepted))
      unfold failureAt? at hfind
      rw [hread, Option.bind_some, hx] at hfind
      cases hfind
    · obtain rfl : path = file.path := hpath
      exact ⟨l', hoversize⟩
  · rintro ⟨l', hoversize⟩
    refine ⟨Failure.oversize b.config.scan.maxFileSize l' file.path,
      List.mem_flatMap.mpr ⟨l', ?_, ?_⟩, rfl⟩
    · exact Selection.mem_languages.mpr ⟨_, Or.inr hoversize⟩
    · exact (mem_failures_outcomeOf b r).mpr (Or.inr (Or.inr ⟨_, hoversize, rfl⟩))

end Process

/-- A path is oversize if its language is scanned and a source above the limit is known by it. -/
theorem exists_mem_oversize_iff {b : Builder} {sources : List (String × String)} {path : String} :
    (∃ l, (l, path) ∈ (b.selected sources).oversize) ↔
      (∃ l, b.config.scan.languageOf? path = some l)
        ∧ ∃ source ∈ sources, RepoPath.normal source.1 = path
          ∧ b.config.scan.maxFileSize < source.2.utf8ByteSize := by
  unfold selected
  simp only [mem_oversize, normalSources, List.mem_map, Prod.mk.injEq]
  constructor
  · rintro ⟨l, hl, text, ⟨source, hsource, hpath, rfl⟩, hlarge⟩
    exact ⟨⟨l, hl⟩, source, hsource, hpath, hlarge⟩
  · rintro ⟨⟨l, hl⟩, source, hsource, hpath, hlarge⟩
    exact ⟨l, hl, source.2, ⟨source, hsource, hpath, rfl⟩, hlarge⟩

/-! ## The limit -/

/--
A file was extracted from a text: the text is that of the last source stored under the path of the
file, and the file is a record of what was extracted from it.
-/
structure ExtractedFrom (b : Builder) (sources : List (String × String)) (file : FileRecord)
    (text : String) : Prop where
  stored : ∃ source, IsLastStored sources file.path source ∧ source.2 = text
  recorded : ∃ l ix x, Language.ofPath? file.path = some l
    ∧ extract l file.path text (b.grammar file.path text) = .ok x
    ∧ file = record ix x (Text.countLines text)

/-- The source is known by a path, or it is the last one stored there. -/
def Concerns (sources : List (String × String)) (path : String) (source : String × String) : Prop :=
  RepoPath.normal source.1 = path ∨ IsLastStored sources path source

/-- Sources that concern one path are all within a limit or all above it. -/
def SizesAgree (limit : Nat) (sources : List (String × String)) : Prop :=
  ∀ path, ∀ source ∈ sources, ∀ other ∈ sources,
    Concerns sources path source → Concerns sources path other →
      source.2.utf8ByteSize ≤ limit → other.2.utf8ByteSize ≤ limit

end Builder

/-- No recorded file comes from a text above the limit, and none is among the failures. -/
structure BuildOutput.RespectsLimit (b : Builder) (sources : List (String × String))
    (out : BuildOutput) : Prop where
  texts : ∀ file ∈ out.document.files, ∀ text, b.ExtractedFrom sources file text →
    text.utf8ByteSize ≤ b.config.scan.maxFileSize
  apart : ∀ file ∈ out.document.files, ∀ failure ∈ out.failures, failure.path ≠ file.path

namespace Builder

section Sources

variable {b : Builder} {name : String} {sources : List (String × String)} {skeleton : List String}
  {file : FileRecord}

/-- Every recorded file was extracted from some text. -/
theorem exists_extractedFrom (hfile : file ∈
    (b.process name (repositoryOf sources skeleton) (b.selected sources)).document.files) :
    ∃ text, b.ExtractedFrom sources file text := by
  obtain ⟨l, text, x, haccepted, hread, -, hx, heq⟩ := mem_files_process_iff.mp hfile
  exact ⟨text, read?_repositoryOf_eq_some_iff.mp hread, l, _, x,
    b.selected_byLanguage sources l _ haccepted, hx, heq⟩

/-- The path of a recorded file is known by a source within the limit. -/
theorem exists_within_of_recorded (hfile : file ∈
    (b.process name (repositoryOf sources skeleton) (b.selected sources)).document.files) :
    (∃ l, b.config.scan.languageOf? file.path = some l)
      ∧ ∃ source ∈ sources, RepoPath.normal source.1 = file.path
        ∧ source.2.utf8ByteSize ≤ b.config.scan.maxFileSize := by
  obtain ⟨l, -, -, haccepted, -⟩ := mem_files_process_iff.mp hfile
  exact (exists_mem_accepted_iff b).mp ⟨l, haccepted⟩

/-- Two sources that are last under one path have one text. -/
theorem IsLastStored.text_eq {path : String} {source other : String × String}
    (h : IsLastStored sources path source) (h' : IsLastStored sources path other) :
    source.2 = other.2 := by
  have hsource : (repositoryOf sources []).read? path = some source.2 :=
    read?_repositoryOf_eq_some_iff.mpr ⟨source, h, rfl⟩
  have hother : (repositoryOf sources []).read? path = some other.2 :=
    read?_repositoryOf_eq_some_iff.mpr ⟨other, h', rfl⟩
  exact Option.some.inj (hsource.symm.trans hother)

theorem IsLastStored.mem {path : String} {source : String × String}
    (h : IsLastStored sources path source) : source ∈ sources := by
  obtain ⟨before, after, rfl, -, -⟩ := h
  simp

/-- A build respects the limit exactly if the sources that concern its recorded paths do. -/
theorem process_respectsLimit_iff :
    (b.process name (repositoryOf sources skeleton) (b.selected sources)).RespectsLimit b sources ↔
      ∀ file ∈ (b.process name (repositoryOf sources skeleton)
          (b.selected sources)).document.files,
        ∀ source ∈ sources, Concerns sources file.path source →
          source.2.utf8ByteSize ≤ b.config.scan.maxFileSize := by
  have hs := b.selected_byLanguage sources
  constructor
  · rintro ⟨htexts, hapart⟩ file hfile source hsource (hknown | hlast)
    · -- a larger source would have put the path among the failures
      refine Nat.le_of_not_lt fun hlarge => ?_
      obtain ⟨hl, -⟩ := exists_within_of_recorded hfile
      obtain ⟨failure, hfailure, hpath⟩ := (failure_path_eq_iff hs hfile).mpr
        (exists_mem_oversize_iff.mpr ⟨hl, source, hsource, hknown, hlarge⟩)
      exact hapart file hfile failure hfailure hpath
    · obtain ⟨text, hfrom⟩ := exists_extractedFrom hfile
      obtain ⟨other, hother, rfl⟩ := hfrom.stored
      rw [hlast.text_eq hother]
      exact htexts file hfile _ hfrom
  · intro hlimit
    refine ⟨fun file hfile text hfrom => ?_, fun file hfile failure hfailure hpath => ?_⟩
    · obtain ⟨source, hlast, rfl⟩ := hfrom.stored
      exact hlimit file hfile source hlast.mem (Or.inr hlast)
    · obtain ⟨-, source, hsource, hknown, hlarge⟩ := exists_mem_oversize_iff.mp
        ((failure_path_eq_iff hs hfile).mp ⟨failure, hfailure, hpath⟩)
      exact Nat.not_le_of_lt hlarge (hlimit file hfile source hsource (Or.inl hknown))

/-- Where every path is its own normal form and none is repeated, one source concerns a path. -/
theorem sizesAgree_of_nodup (limit : Nat)
    (hnormal : ∀ source ∈ sources,
      RepoPath.normal (RepoPath.normal source.1) = RepoPath.normal source.1)
    (hnodup : (sources.map fun source => RepoPath.normal source.1).Nodup) :
    SizesAgree limit sources := by
  have hpath : ∀ path, ∀ source ∈ sources, Concerns sources path source →
      RepoPath.normal source.1 = path := by
    rintro path source hsource (hknown | ⟨-, -, -, hstored, -⟩)
    · exact hknown
    · exact (hnormal source hsource).symm.trans hstored
  intro path source hsource other hother hconcerns hconcerns' hsmall
  obtain rfl : source = other := List.inj_on_of_nodup_map hnodup hsource hother
    ((hpath path source hsource hconcerns).trans (hpath path other hother hconcerns').symm)
  exact hsmall

end Sources

/-- **The limit of the size holds where no path is given twice.** In a build that succeeds every
recorded file is extracted from the text of the last source stored under its path. No such text is
above the limit and no recorded path is among the failures, exactly if all sources are within the
limit that concern a recorded path: those known by it, and the last one stored under it. That is so
whenever the sources that concern one path are all within the limit or all above it, in particular
for different paths that are their own normal forms. -/
theorem ofSources_respectsLimit_iff {b : Builder} {name : String} {sources : List (String × String)}
    {skeleton : List String} {out : BuildOutput}
    (h : b.ofSources name sources skeleton = .ok out) :
    (∀ file ∈ out.document.files, ∃ text, b.ExtractedFrom sources file text)
      ∧ (out.RespectsLimit b sources ↔
        ∀ file ∈ out.document.files, ∀ source ∈ sources, Concerns sources file.path source →
          source.2.utf8ByteSize ≤ b.config.scan.maxFileSize)
      ∧ (SizesAgree b.config.scan.maxFileSize sources → out.RespectsLimit b sources) := by
  obtain ⟨-, -, -, rfl⟩ := ofSources_eq_ok_iff.mp h
  refine ⟨fun file hfile => exists_extractedFrom hfile, process_respectsLimit_iff, fun hagree => ?_⟩
  refine process_respectsLimit_iff.mpr fun file hfile source hsource hconcerns => ?_
  -- the source for which the path was accepted is within the limit
  obtain ⟨-, accepted, haccepted, hknown, hsmall⟩ := exists_within_of_recorded hfile
  exact hagree file.path accepted haccepted source hsource (Or.inl hknown) hconcerns hsmall

/-- A file within the limit is recorded, one above it fails, and the limit is respected. -/
theorem ofSources_respectsLimit_twoFiles :
    let b := { oneCallBuilder with config.scan.maxFileSize := 12 }
    let sources := [("./a.py", "def f(): g()"), ("b.py", "def f(): g(0)")]
    SizesAgree 12 sources ∧ ∃ out, b.ofSources "sample" sources [] = .ok out
      ∧ out.RespectsLimit b sources
      ∧ out.document.files.map (·.path) = ["a.py"]
      ∧ out.failures.map (fun f => (f.path, f.stage)) = [("b.py", .oversize)] := by
  intro b sources
  have hagree : SizesAgree 12 sources :=
    sizesAgree_of_nodup 12 (by decide +kernel) (by decide +kernel)
  have hok : b.ofSources "sample" sources [] =
      .ok (b.process "sample" (repositoryOf sources []) (b.selected sources)) :=
    ofSources_eq_ok_iff.mpr
      ⟨by decide +kernel, by decide +kernel, by decide +kernel, rfl⟩
  exact ⟨hagree, _, hok, (ofSources_respectsLimit_iff hok).2.2 hagree, by decide +kernel,
    by decide +kernel⟩

/--
**A repeated path can pass the limit.** The first text of `a.py` is within the limit, so the path is
accepted; the second is above it, so the path is a failure; and the second is what is stored, so it
is what the recorded file is extracted from.
-/
theorem ofSources_limit_repeatedPath :
    let b := { oneCallBuilder with config.scan.maxFileSize := 12 }
    let sources := [("a.py", "def f(): g()"), ("a.py", "def f(): g(0)")]
    ∃ out, b.ofSources "sample" sources [] = .ok out
      ∧ ¬ out.RespectsLimit b sources
      ∧ out.document.files.map (·.path) = ["a.py"]
      ∧ (∀ file ∈ out.document.files, b.ExtractedFrom sources file "def f(): g(0)")
      ∧ out.failures.map (fun f => (f.path, f.stage)) = [("a.py", .oversize)] := by
  intro b sources
  have hok : b.ofSources "sample" sources [] =
      .ok (b.process "sample" (repositoryOf sources []) (b.selected sources)) :=
    ofSources_eq_ok_iff.mpr
      ⟨by decide +kernel, by decide +kernel, by decide +kernel, rfl⟩
  have hfiles :
      (b.process "sample" (repositoryOf sources []) (b.selected sources)).document.files.map
        (·.path) = ["a.py"] := by
    decide +kernel
  have hfailures : (b.process "sample" (repositoryOf sources []) (b.selected sources)).failures.map
      (fun f => (f.path, f.stage)) = [("a.py", .oversize)] := by decide +kernel
  refine ⟨_, hok, fun hlimit => ?_, hfiles, fun file hfile => ?_, hfailures⟩
  · obtain ⟨file, hfile, hpath⟩ : ∃ file ∈ (b.process "sample" (repositoryOf sources [])
        (b.selected sources)).document.files, file.path = "a.py" :=
      List.mem_map.mp (hfiles ▸ List.mem_singleton.mpr rfl)
    obtain ⟨failure, hfailure, hfailed⟩ : ∃ failure ∈ (b.process "sample" (repositoryOf sources [])
        (b.selected sources)).failures, (failure.path, failure.stage) = ("a.py", .oversize) :=
      List.mem_map.mp (hfailures ▸ List.mem_singleton.mpr rfl)
    exact hlimit.apart file hfile failure hfailure ((Prod.mk.inj hfailed).1.trans hpath.symm)
  · obtain ⟨text, hfrom⟩ := exists_extractedFrom hfile
    have hpath : file.path = "a.py" := by
      have hmem := List.mem_map_of_mem (f := (·.path)) hfile
      rw [hfiles] at hmem
      exact List.mem_singleton.mp hmem
    -- the second source is the last one stored under the path
    have hlast : IsLastStored sources file.path ("a.py", "def f(): g(0)") := by
      rw [hpath]
      exact ⟨[("a.py", "def f(): g()")], [], rfl, by decide +kernel, by simp⟩
    obtain ⟨source, hsource, rfl⟩ := hfrom.stored
    rwa [hsource.text_eq hlast] at hfrom

end Builder

end SourceAtlas
