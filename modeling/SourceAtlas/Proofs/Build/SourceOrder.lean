import SourceAtlas.Proofs.Build.Pathwise

/-!
# Builds: the order of the sources

A caller lists the sources and the skeleton in whatever order they come. What the build makes of
them is kept in containers that have an order of their own, so that scan positions, first
registrations and the order of the document cannot depend on the caller. The order reaches a build
in two places only:

* the **texts of the repository**, where of several sources stored under one path the last one
  counts. Texts are stored under the normal form of the path that a source is known by, so two
  sources with different paths can meet there. The order does not show exactly if such sources have
  the same text (`repositoryOf_perm_iff`);
* the **oversize files**, which are told in the order of the sources. They show in the order of the
  failures, and in the counts by their number (`outcomeOf_failures_perm`).

So a build does not depend on the order of sources whose texts agree (`ofSources_perm`), and it does
on that of others (`ofSources_order_dotSlash`).
-/

namespace SourceAtlas

namespace Selection

/-! ## The selection -/

/-- The paths of a language are listed in an order of their own. -/
theorem pathsOf_congr {files files' : List (Language × String)} (h : files.Perm files')
    (l : Language) : pathsOf l files = pathsOf l files' := by
  unfold pathsOf
  rw [Dict.ofList_unit_congr fun key => ?_]
  exact (((h.filter _).map _).map _).mem_iff

theorem languages_congr {s s' : Selection} (haccepted : s.accepted.Perm s'.accepted)
    (hoversize : s.oversize.Perm s'.oversize) : s.languages = s'.languages := by
  unfold languages
  refine List.filter_congr fun l _ => ?_
  exact (haccepted.append hoversize).any_eq

theorem isEmpty_congr {s s' : Selection} (haccepted : s.accepted.Perm s'.accepted)
    (hoversize : s.oversize.Perm s'.oversize) : s.isEmpty = s'.isEmpty := by
  unfold isEmpty
  rw [haccepted.isEmpty_eq, hoversize.isEmpty_eq]

end Selection

namespace Merge

/-- The table of counts looks at the languages and the counts of the outcomes only. -/
theorem summaries_congr {outcomes outcomes' : List LanguageOutcome}
    (h : outcomes.map (fun o => (o.language, o.summary)) =
      outcomes'.map fun o => (o.language, o.summary)) :
    summaries outcomes = summaries outcomes' := by
  -- the fold over outcomes is one over pairs of a language and its counts
  have hfold : ∀ os : List LanguageOutcome, summaries os =
      (os.map fun o => (o.language, o.summary)).foldl
        (fun d (e : Language × LanguageSummary) =>
          d.update e.1.name fun s => (s.getD {}).add e.2) Dict.empty := by
    intro os
    rw [List.foldl_map]
    rfl
  rw [hfold, hfold, h]

end Merge

namespace Builder

section Selected

variable (b : Builder) {sources sources' : List (String × String)}

theorem accepted_selected_perm (h : sources.Perm sources') :
    (b.selected sources).accepted.Perm (b.selected sources').accepted := by
  unfold selected
  rw [accepted_selectSources, accepted_selectSources]
  exact (h.map _).filterMap _

theorem oversize_selected_perm (h : sources.Perm sources') :
    (b.selected sources).oversize.Perm (b.selected sources').oversize := by
  unfold selected
  rw [oversize_selectSources, oversize_selectSources]
  exact (h.map _).filterMap _

end Selected

/-! ## The repository -/

/-- Sources that are stored under one path have the same text. -/
def TextsAgree (sources : List (String × String)) : Prop :=
  ∀ source ∈ sources, ∀ other ∈ sources,
    RepoPath.normal (RepoPath.normal source.1) = RepoPath.normal (RepoPath.normal other.1) →
      source.2 = other.2

/-- The paths under which sources are stored, with their texts. -/
def storedTexts (sources : List (String × String)) : List (String × String) :=
  sources.map fun source => (RepoPath.normal (RepoPath.normal source.1), source.2)

theorem map_normal_normalSources (sources : List (String × String)) :
    (normalSources sources).map (fun (path, text) => (RepoPath.normal path, text)) =
      storedTexts sources := by
  unfold normalSources
  rw [List.map_map]
  rfl

theorem texts_repositoryOf (sources : List (String × String)) (skeleton : List String) :
    (repositoryOf sources skeleton).texts = Dict.ofList (storedTexts sources) := by
  rw [← map_normal_normalSources]
  rfl

theorem known_repositoryOf (sources : List (String × String)) (skeleton : List String) :
    (repositoryOf sources skeleton).known =
      Dict.ofList ((skeleton.map RepoPath.normal ++ (storedTexts sources).map Prod.fst).map
        (·, ())) := by
  rw [← map_normal_normalSources]
  rfl

theorem contains_repositoryOf {sources : List (String × String)} {skeleton : List String}
    {path : String} :
    (repositoryOf sources skeleton).contains path = true ↔
      path ∈ skeleton.map RepoPath.normal ∨ path ∈ (storedTexts sources).map Prod.fst := by
  unfold Repository.contains
  rw [Dict.contains_iff_mem_keys, known_repositoryOf, Dict.mem_keys_ofList, List.map_map,
    ← List.mem_append]
  exact (congrArg (path ∈ ·) (List.map_id _)).to_iff

/-- Where texts agree, every source keeps its text. -/
theorem read?_repositoryOf_of_mem {sources : List (String × String)} (h : TextsAgree sources)
    {source : String × String} (hsource : source ∈ sources) (skeleton : List String) :
    (repositoryOf sources skeleton).read? (RepoPath.normal (RepoPath.normal source.1)) =
      some source.2 := by
  unfold Repository.read?
  rw [texts_repositoryOf]
  -- any other text under the path is the same text
  refine Dict.find?_ofList_of_agree (List.mem_map_of_mem hsource) fun text htext => ?_
  obtain ⟨other, hother, heq⟩ := List.mem_map.mp htext
  obtain ⟨hkey, rfl⟩ := Prod.mk.inj heq
  exact h other hother source hsource hkey

theorem textsAgree_of_nodup {sources : List (String × String)}
    (h : ((storedTexts sources).map Prod.fst).Nodup) : TextsAgree sources := by
  intro source hsource other hother hkey
  have hmem : ∀ s ∈ sources,
      (RepoPath.normal (RepoPath.normal s.1), s.2) ∈ storedTexts sources :=
    fun s hs => List.mem_map_of_mem hs
  -- a list without repeated keys finds one text for a key
  have hfirst := (Dict.lookup_eq_some_iff_mem h).mpr (hmem source hsource)
  have hsecond := (Dict.lookup_eq_some_iff_mem h).mpr (hmem other hother)
  rw [hkey, hsecond] at hfirst
  exact (Option.some.inj hfirst).symm

/-- The last source stored under a path gives its text. -/
theorem read?_repositoryOf_append (before : List (String × String)) (last : String × String)
    (skeleton : List String) :
    (repositoryOf (before ++ [last]) skeleton).read?
      (RepoPath.normal (RepoPath.normal last.1)) = some last.2 := by
  unfold Repository.read?
  rw [texts_repositoryOf, Dict.find?_ofList]
  unfold storedTexts
  -- the list is searched from its end, and the last source stands there
  rw [List.map_append, List.reverse_append]
  simp

section Repository

variable {sources sources' : List (String × String)} {skeleton skeleton' : List String}

/-- Sources whose texts agree make the same repository in any order. -/
theorem repositoryOf_congr (hperm : sources.Perm sources') (hagree : TextsAgree sources)
    (hskeleton : ∀ path,
      path ∈ skeleton.map RepoPath.normal ↔ path ∈ skeleton'.map RepoPath.normal) :
    repositoryOf sources skeleton = repositoryOf sources' skeleton' := by
  have hstored : (storedTexts sources).Perm (storedTexts sources') := hperm.map _
  have htexts :
      (repositoryOf sources skeleton).texts = (repositoryOf sources' skeleton').texts := by
    rw [texts_repositoryOf, texts_repositoryOf]
    -- the same pairs, and no two of them disagree at a path
    refine Dict.ofList_eq_of_agree (fun e => hstored.mem_iff) ?_
    intro key v w hv hw
    obtain ⟨source, hsource, heq⟩ := List.mem_map.mp hv
    obtain ⟨other, hother, heq'⟩ := List.mem_map.mp hw
    obtain ⟨hkey, rfl⟩ := Prod.mk.inj heq
    obtain ⟨hkey', rfl⟩ := Prod.mk.inj heq'
    exact hagree source hsource other hother (hkey.trans hkey'.symm)
  have hknown :
      (repositoryOf sources skeleton).known = (repositoryOf sources' skeleton').known := by
    rw [known_repositoryOf, known_repositoryOf]
    refine Dict.ofList_unit_congr fun key => ?_
    -- known paths are kept without a value, so there is nothing to disagree about
    have hfst : ∀ paths : List String, (paths.map (·, ())).map Prod.fst = paths := by
      intro paths
      rw [List.map_map]
      exact List.map_id _
    rw [hfst, hfst, List.mem_append, List.mem_append, hskeleton, (hstored.map _).mem_iff]
  calc repositoryOf sources skeleton
      = ⟨(repositoryOf sources skeleton).known, (repositoryOf sources skeleton).texts⟩ := rfl
    _ = ⟨(repositoryOf sources' skeleton').known, (repositoryOf sources' skeleton').texts⟩ := by
      rw [hknown, htexts]

/-- The order of the sources does not reach the repository exactly if their texts agree. -/
theorem repositoryOf_perm_iff :
    (∀ sources' : List (String × String), sources.Perm sources' →
      repositoryOf sources' skeleton = repositoryOf sources skeleton) ↔ TextsAgree sources := by
  constructor
  · intro h source hsource other hother hkey
    -- whichever of the two comes last gives the text of their path
    have hread : ∀ last ∈ sources, (repositoryOf sources skeleton).read?
        (RepoPath.normal (RepoPath.normal last.1)) = some last.2 := by
      intro last hlast
      have hperm : sources.Perm (sources.erase last ++ [last]) :=
        (List.perm_cons_erase hlast).trans (List.perm_append_singleton last _).symm
      rw [← h _ hperm]
      exact read?_repositoryOf_append _ last skeleton
    have hsame := hread source hsource
    rw [hkey, hread other hother] at hsame
    exact (Option.some.inj hsame).symm
  · intro hagree sources' hperm
    exact (repositoryOf_congr hperm hagree fun _ => Iff.rfl).symm

end Repository

/-! ## The outcomes -/

section Process

variable (b : Builder) (name : String) (r : Repository) {s s' : Selection}

/-- The failures of a language differ in the order of the oversize files only. -/
theorem outcomeOf_failures_perm (haccepted : s.accepted.Perm s'.accepted)
    (hoversize : s.oversize.Perm s'.oversize) (l : Language) :
    (b.outcomeOf r s l).failures.Perm (b.outcomeOf r s' l).failures := by
  rw [outcomeOf_failures, outcomeOf_failures, Selection.pathsOf_congr haccepted]
  exact List.Perm.append_left _ (((hoversize.filter _).map _).map _)

theorem outcomeOf_files_congr (haccepted : s.accepted.Perm s'.accepted) (l : Language) :
    (b.outcomeOf r s l).files = (b.outcomeOf r s' l).files := by
  rw [outcomeOf_files, outcomeOf_files, Selection.pathsOf_congr haccepted]

theorem summary_outcomeOf_congr (haccepted : s.accepted.Perm s'.accepted)
    (hoversize : s.oversize.Perm s'.oversize) (l : Language) :
    (b.outcomeOf r s l).summary = (b.outcomeOf r s' l).summary := by
  -- the failures are counted, not listed
  have hfailures := (outcomeOf_failures_perm b r haccepted hoversize l).length_eq
  have hunchanged : (b.outcomeOf r s l).unchanged = (b.outcomeOf r s' l).unchanged := by
    rw [outcomeOf_unchanged, outcomeOf_unchanged, Selection.pathsOf_congr haccepted]
  unfold LanguageOutcome.summary
  rw [outcomeOf_files_congr b r haccepted l, hfailures, hunchanged]

theorem hashes_perm (haccepted : s.accepted.Perm s'.accepted)
    (hoversize : s.oversize.Perm s'.oversize) : b.hashes r s = b.hashes r s' := by
  unfold hashes
  rw [Selection.languages_congr haccepted hoversize]
  simp only [Selection.pathsOf_congr haccepted]

theorem document_process_congr (haccepted : s.accepted.Perm s'.accepted)
    (hoversize : s.oversize.Perm s'.oversize) :
    (b.process name r s).document = (b.process name r s').document := by
  have hlanguages := Selection.languages_congr haccepted hoversize
  have hfiles : (b.outcomes r s).flatMap (·.files) = (b.outcomes r s').flatMap (·.files) := by
    have h := document_files_process b name r s
    have h' := document_files_process b name r s'
    rw [hlanguages] at h
    simp only [outcomeOf_files_congr b r haccepted] at h
    exact h.trans h'.symm
  -- the counts are merged in the order of the languages, which is the same
  have hsummaries : Merge.summaries (b.outcomes r s) = Merge.summaries (b.outcomes r s') := by
    refine Merge.summaries_congr ?_
    unfold outcomes
    rw [hlanguages, List.map_map, List.map_map]
    refine List.map_congr_left fun l _ => ?_
    exact congrArg (Prod.mk l) (summary_outcomeOf_congr b r haccepted hoversize l)
  show Merge.document name b.now b.configFiles (b.outcomes r s) r = _
  unfold Merge.document
  rw [hfiles, hsummaries]
  rfl

theorem failures_process_perm (haccepted : s.accepted.Perm s'.accepted)
    (hoversize : s.oversize.Perm s'.oversize) :
    (b.process name r s).failures.Perm (b.process name r s').failures := by
  rw [failures_process, failures_process, Selection.languages_congr haccepted hoversize]
  exact List.Perm.flatMap_left _ fun l _ => outcomeOf_failures_perm b r haccepted hoversize l

end Process

end Builder

/-! ## The whole build -/

/-- The document with another time written into it. -/
def Document.stamped (d : Document) (now : Instant) : Document :=
  { d with project := { d.project with generatedAt := now } }

/-- The same output but for the time of the document and the order of the failures. -/
structure BuildOutput.SameUpToOrder (out out' : BuildOutput) : Prop where
  document : out'.document = out.document.stamped out'.document.project.generatedAt
  hashes : out'.hashes = out.hashes
  failures : out'.failures.Perm out.failures

namespace Builder

/-- The builder at another time. -/
def atTime (b : Builder) (now : Instant) : Builder :=
  { b with now }

theorem process_atTime (b : Builder) (now : Instant) (name : String) (r : Repository)
    (s : Selection) :
    (b.atTime now).process name r s =
      { b.process name r s with document := (b.process name r s).document.stamped now } :=
  rfl

/-- The pool breaks down over the same files in whatever order they are selected. -/
theorem breaksDown_perm (b : Builder) (r : Repository) {s s' : Selection}
    (haccepted : s.accepted.Perm s'.accepted) : b.breaksDown r s = b.breaksDown r s' := by
  refine breaksDown_congr rfl fun l => ?_
  unfold readable
  rw [Selection.pathsOf_congr haccepted]

/--
**The order of the sources does not matter where their texts agree.** Let two lists of sources be
permutations of each other, and let sources that are stored under one path have the same text, which
is the case if their paths differ after being brought to normal form twice. Let two skeletons name
the same paths in normal form. Then the builds from both, at whatever times, fail with the same
error or give the same document but for its time, the same hashes, and the same failures up to their
order.
-/
theorem ofSources_perm (b : Builder) (name : String) {sources sources' : List (String × String)}
    {skeleton skeleton' : List String} (now : Instant) (hperm : sources.Perm sources')
    (hagree : TextsAgree sources)
    (hskeleton : ∀ path,
      path ∈ skeleton.map RepoPath.normal ↔ path ∈ skeleton'.map RepoPath.normal) :
    (∃ e, b.ofSources name sources skeleton = .error e
        ∧ (b.atTime now).ofSources name sources' skeleton' = .error e)
      ∨ ∃ out out', b.ofSources name sources skeleton = .ok out
        ∧ (b.atTime now).ofSources name sources' skeleton' = .ok out'
        ∧ out.SameUpToOrder out' := by
  have haccepted := accepted_selected_perm b hperm
  have hoversize := oversize_selected_perm b hperm
  have hrepository := repositoryOf_congr hperm hagree hskeleton
  have hempty : (b.selected sources).isEmpty = ((b.atTime now).selected sources').isEmpty :=
    Selection.isEmpty_congr haccepted hoversize
  have hbreaks : (b.atTime now).breaksDown (repositoryOf sources' skeleton')
      ((b.atTime now).selected sources') =
        b.breaksDown (repositoryOf sources skeleton) (b.selected sources) := by
    rw [← hrepository]
    exact breaksDown_perm b _ haccepted.symm
  cases hfirst : b.ofSources name sources skeleton with
  | error e =>
    -- the settings are the same, and so are whether anything is selected and how much of it
    refine Or.inl ⟨e, rfl, ?_⟩
    rw [ofSources_eq_error_iff] at hfirst ⊢
    rw [← hempty, hbreaks]
    exact hfirst
  | ok out =>
    obtain ⟨hvalid, hsome, hroom, rfl⟩ := ofSources_eq_ok_iff.mp hfirst
    refine Or.inr ⟨_, _, rfl,
      ofSources_eq_ok_iff.mpr ⟨hvalid, hempty ▸ hsome, hbreaks.trans hroom, rfl⟩, ?_⟩
    rw [← hrepository, process_atTime]
    exact {
      document := congrArg (Document.stamped · now)
        (document_process_congr b name _ haccepted hoversize).symm
      hashes := (hashes_perm b _ haccepted hoversize).symm
      failures := (failures_process_perm b name _ haccepted hoversize).symm }

/-- Two files that call each other, listed both ways round; the failures come in the other order. -/
theorem ofSources_perm_mutualCalls :
    let b := { oneCallBuilder with config.scan.maxFileSize := 12 }
    let sources := mutualCalls ++ [("d.py", "def f(): g(0)"), ("c.py", "def f(): g(0)")]
    TextsAgree sources ∧ ∃ out out', b.ofSources "sample" sources ["./e.py", "f.py"] = .ok out
      ∧ (b.atTime .epoch).ofSources "sample" sources.reverse ["f.py", "/e.py"] = .ok out'
      ∧ out.SameUpToOrder out'
      ∧ out.failures.map (·.path) = ["d.py", "c.py"]
      ∧ out'.failures.map (·.path) = ["c.py", "d.py"] := by
  intro b sources
  have hagree : TextsAgree sources := by
    unfold TextsAgree
    decide +kernel
  -- both skeletons come to the same two paths
  have hskeleton : ∀ path, path ∈ ["./e.py", "f.py"].map RepoPath.normal ↔
      path ∈ ["f.py", "/e.py"].map RepoPath.normal := by
    intro path
    have hleft : ["./e.py", "f.py"].map RepoPath.normal = ["e.py", "f.py"] := by decide +kernel
    have hright : ["f.py", "/e.py"].map RepoPath.normal = ["f.py", "e.py"] := by decide +kernel
    rw [hleft, hright]
    simp [or_comm]
  have hok : b.ofSources "sample" sources ["./e.py", "f.py"] = .ok (b.process "sample"
      (repositoryOf sources ["./e.py", "f.py"]) (b.selected sources)) :=
    ofSources_eq_ok_iff.mpr
      ⟨by decide +kernel, by decide +kernel, by decide +kernel, rfl⟩
  have hok' : (b.atTime .epoch).ofSources "sample" sources.reverse ["f.py", "/e.py"] =
      .ok ((b.atTime .epoch).process "sample"
        (repositoryOf sources.reverse ["f.py", "/e.py"])
        ((b.atTime .epoch).selected sources.reverse)) :=
    ofSources_eq_ok_iff.mpr
      ⟨by decide +kernel, by decide +kernel, by decide +kernel, rfl⟩
  refine ⟨hagree, _, _, hok, hok', ?_, by decide +kernel, by decide +kernel⟩
  -- the outputs of the theorem are the two that were computed
  rcases ofSources_perm b "sample" .epoch (List.reverse_perm sources).symm hagree hskeleton with
    ⟨e, herror, -⟩ | ⟨out, out', hout, hout', hsame⟩
  · rw [hok] at herror
    cases herror
  · rw [hok] at hout
    rw [hok'] at hout'
    cases hout
    cases hout'
    exact hsame

/--
**The order of the sources can show.** The slash in front hides a `./`: the two sources are known by
`./a.ts` and `a.ts`, but both texts are stored under `a.ts`, and the last one counts.
-/
theorem ofSources_order_dotSlash :
    let sources := [("/./a.ts", ""), ("a.ts", "\n")]
    (sources.map fun source => RepoPath.normal source.1).Nodup
      ∧ ∃ out out', noTextBuilder.ofSources "repo" sources [] = .ok out
        ∧ noTextBuilder.ofSources "repo" sources.reverse [] = .ok out'
        ∧ out.document.files.map (fun file => (file.path, file.lines)) = [("a.ts", 1)]
        ∧ out'.document.files.map (fun file => (file.path, file.lines)) = [("a.ts", 0)]
        ∧ out.hashes ≠ out'.hashes := by
  intro sources
  refine ⟨by decide +kernel, _, _, ofSources_eq_ok_iff.mpr
      ⟨by decide +kernel, by decide +kernel, by decide +kernel, rfl⟩,
    ofSources_eq_ok_iff.mpr
      ⟨by decide +kernel, by decide +kernel, by decide +kernel, rfl⟩, ?_⟩
  decide +kernel

end Builder

end SourceAtlas
