import SourceAtlas.Proofs.ByteOrder
import SourceAtlas.Proofs.Index.View
import SourceAtlas.Proofs.RepoPath.Segments
import SourceAtlas.Proofs.Resolve.ImportRecords
import SourceAtlas.Proofs.Text.LetterCase

/-!
# Go: the import path of a package and the files it leads to

The import path of a directory is told by the module that governs it, the innermost one around it.
An import goes the other way, and asks every module in turn for the directory that the path stands
for in it. This module compares the two (`goTargets_packagePath_iff`):

* **From the directory to the path and back.** The module that governs a directory finds it again
  from its path (`packageDir?_packagePath`). And a directory that is found by the module which
  governs it has the path that was looked for (`packagePath_of_packageDir?`).
* **The first module.** Its files are the ones that an import leads to (`lists_of_looksIn`).

A module also looks in directories that another module governs, for it does not ask where its own
part of the repository ends. If it comes first, it can find a package of another path there
(`goTargets_nestedModule`). For plain paths there is no other way to a wrong package.
-/

namespace SourceAtlas

open RepoPath (ofParts IsSegment IsPlain IsPlainPath)

namespace GoModule

variable {modules : List GoModule} {m : GoModule}

/-! ## The module that governs a directory -/

/-- A fold that keeps the best so far or takes the next one ends with one of those it saw. -/
theorem mem_of_foldl_choose {α : Type} {choose : Option α → α → Option α}
    (hchoose : ∀ best a, choose best a = some a ∨ choose best a = best) {items : List α}
    {best : Option α} {a : α} (h : items.foldl choose best = some a) :
    best = some a ∨ a ∈ items := by
  induction items generalizing best with
  | nil => exact Or.inl h
  | cons b items ih =>
    rcases ih h with hbest | hmem
    · rcases hchoose best b with hnext | hkept
      · rw [hnext, Option.some.injEq] at hbest
        exact Or.inr (hbest ▸ List.mem_cons_self)
      · exact Or.inl (hkept ▸ hbest)
    · exact Or.inr (List.mem_cons_of_mem _ hmem)

theorem mem_of_governing? {dir : String} (h : governing? modules dir = some m) :
    m ∈ modules ∧ m.governs dir = true := by
  unfold governing? at h
  -- the deeper of two modules is one of the two
  have hchosen := mem_of_foldl_choose (fun best next => by
    cases best with
    | none => exact Or.inl rfl
    | some b =>
      dsimp only
      split
      · exact Or.inl rfl
      · exact Or.inr rfl) h
  rcases hchosen with hnone | hmem
  · cases hnone
  · exact List.mem_filter.mp hmem

/-- A module governs the directories behind its own. -/
theorem exists_front_of_governs {parts : List (List Char)} (hparts : ∀ part ∈ parts, IsSegment part)
    (h : m.governs (ofParts parts) = true) :
    ∃ front rest, parts = front ++ rest ∧ m.dir = ofParts front := by
  unfold governs at h
  rw [Bool.or_eq_true, Bool.or_eq_true] at h
  -- at the root, in the directory itself, or above it
  rcases h with (hroot | hself) | hbelow
  · exact ⟨[], parts, rfl, String.isEmpty_iff.mp hroot⟩
  · exact ⟨parts, [], (List.append_nil _).symm, (beq_iff_eq.mp hself).symm⟩
  · obtain ⟨rest, hrest⟩ := Text.startsWith_iff.mp hbelow
    have hsegments := RepoPath.segments_append_slash m.dir rest
    rw [← hrest] at hsegments
    have hne : parts ≠ [] := by
      rintro rfl
      exact RepoPath.append_slash_ne_empty m.dir rest hrest.symm
    rw [RepoPath.segments_ofParts hne fun part hpart => (hparts part hpart).2] at hsegments
    exact ⟨_, _, hsegments, (RepoPath.ofParts_segments m.dir).symm⟩

/-! ## The import path -/

/-- The import path of the package that lies some segments below the directory of a module. -/
def pathBelow (m : GoModule) (rest : List (List Char)) : String :=
  if rest = [] then m.path else m.path ++ "/" ++ ofParts rest

theorem packagePath_ofParts {front rest : List (List Char)} (hrest : ∀ part ∈ rest, IsSegment part)
    (hdir : m.dir = ofParts front)
    (hgoverning : governing? modules (ofParts (front ++ rest)) = some m) :
    packagePath modules (ofParts (front ++ rest)) = m.pathBelow rest := by
  have hbelow : Text.trimStartWhile (· == '/')
      ((Text.stripPrefix? (ofParts (front ++ rest)) m.dir).getD (ofParts (front ++ rest))) =
        ofParts rest := by
    have htrim := RepoPath.trimStartWhile_ofParts hrest
    by_cases hfront : front = []
    · have hempty : ofParts [] = "" := by decide +kernel
      rw [hdir, hfront, List.nil_append, hempty,
        Text.stripPrefix?_eq_some_iff.mpr String.empty_append.symm, Option.getD_some, htrim]
    · by_cases hself : rest = []
      · rw [hdir, hself, List.append_nil,
          Text.stripPrefix?_eq_some_iff.mpr String.append_empty.symm]
        rfl
      · -- one slash stands between the directory of the module and the rest
        rw [hdir, RepoPath.ofParts_append hfront hself, String.append_assoc,
          Text.stripPrefix?_eq_some_iff.mpr rfl, Option.getD_some]
        refine Eq.trans ?_ htrim
        unfold Text.trimStartWhile Text.onChars
        rw [String.toList_append]
        rfl
  unfold packagePath pathBelow
  rw [hgoverning]
  dsimp only
  rw [hbelow]
  simp only [String.isEmpty_iff, RepoPath.ofParts_eq_empty_iff hrest]

end GoModule

namespace Resolve

open GoModule

variable {modules : List GoModule} {m : GoModule} {r : Repository} {source dir : String}

/-- The directory in which a module looks for the package with an import path. -/
def packageDir? (m : GoModule) (source : String) : Option String :=
  (belowModule? m source).bind (RepoPath.join? m.dir)

theorem belowModule?_pathBelow (m : GoModule) (rest : List (List Char)) :
    belowModule? m (m.pathBelow rest) = some (ofParts rest) := by
  unfold belowModule? pathBelow
  by_cases hself : rest = []
  · rw [if_pos hself, if_pos (beq_self_eq_true _), hself]
    rfl
  · have hlonger : m.path ++ "/" ++ ofParts rest ≠ m.path := fun heq =>
      (RepoPath.length_lt_append_slash m.path (ofParts rest)).ne (congrArg String.length heq).symm
    rw [if_neg hself, if_neg (by simpa using hlonger), Text.stripPrefix?_eq_some_iff.mpr rfl]

/-- Where an import path has plain segments, so has the way from a module. -/
theorem exists_rest_of_belowModule? {below : String} (hsource : IsPlainPath source)
    (h : belowModule? m source = some below) :
    ∃ rest, (∀ part ∈ rest, IsPlain part) ∧ below = ofParts rest ∧ source = m.pathBelow rest := by
  unfold belowModule? at h
  split at h
  next hself =>
    cases h
    exact ⟨[], (fun _ hpart => nomatch hpart), rfl, beq_iff_eq.mp hself⟩
  next =>
    have heq := Text.stripPrefix?_eq_some_iff.mp h
    have hsegments := RepoPath.segments_append_slash m.path below
    rw [← heq] at hsegments
    refine ⟨RepoPath.segments below.toList, fun part hpart => ?_,
      (RepoPath.ofParts_segments below).symm, ?_⟩
    -- a source with a slash in it is not empty
    · rcases hsource with hempty | hplain
      · exact absurd (heq.symm.trans hempty) (RepoPath.append_slash_ne_empty m.path below)
      · exact hplain part (hsegments ▸ List.mem_append_right _ hpart)
    · have hne : RepoPath.segments below.toList ≠ [] := List.splitOn_ne_nil _ _
      unfold pathBelow
      rw [if_neg hne, RepoPath.ofParts_segments, heq]

/-- **The module that governs a directory finds it again from its import path.** -/
theorem packageDir?_packagePath (hplain : IsPlainPath dir)
    (hgoverning : governing? modules dir = some m) :
    packageDir? m (packagePath modules dir) = some dir := by
  obtain ⟨parts, hparts, rfl⟩ := hplain.exists_parts
  -- the directory of the module in front, and the way on from it
  obtain ⟨front, rest, rfl, hdir⟩ :=
    exists_front_of_governs (fun part hpart => (hparts part hpart).isSegment)
      (mem_of_governing? hgoverning).2
  have hfront : ∀ part ∈ front, IsSegment part := fun part hpart =>
    (hparts part (List.mem_append_left _ hpart)).isSegment
  have hrest : ∀ part ∈ rest, IsPlain part := fun part hpart =>
    hparts part (List.mem_append_right _ hpart)
  unfold packageDir?
  rw [packagePath_ofParts (fun part hpart => (hrest part hpart).isSegment) hdir hgoverning,
    belowModule?_pathBelow, Option.bind_some, hdir, RepoPath.join?_ofParts hfront hrest]

/--
**A directory that is found by the module which governs it has the path that was looked for.**
-/
theorem packagePath_of_packageDir? (hsource : IsPlainPath source)
    (hfound : packageDir? m source = some dir) (hgoverning : governing? modules dir = some m) :
    packagePath modules dir = source := by
  obtain ⟨below, hbelow, hjoin⟩ := Option.bind_eq_some_iff.mp hfound
  obtain ⟨rest, hrest, rfl, rfl⟩ := exists_rest_of_belowModule? hsource hbelow
  obtain ⟨parts, hparts, rfl⟩ := RepoPath.exists_parts_of_join? hjoin
  obtain ⟨front, behind, rfl, hdir⟩ :=
    exists_front_of_governs hparts (mem_of_governing? hgoverning).2
  have hfront : ∀ part ∈ front, IsSegment part := fun part hpart =>
    hparts part (List.mem_append_left _ hpart)
  -- the directory that was joined is the one that is governed
  have heq : ofParts (front ++ rest) = ofParts (front ++ behind) := by
    rw [hdir, RepoPath.join?_ofParts hfront hrest, Option.some.injEq] at hjoin
    exact hjoin
  rw [← heq] at hgoverning ⊢
  exact packagePath_ofParts (fun part hpart => (hrest part hpart).isSegment) hdir hgoverning

/-! ## The files of a package -/

/-- Whether a path is that of a known Go file directly in a directory, and not of a test. -/
structure IsPackageFile (r : Repository) (dir path : String) : Prop where
  known : r.contains path = true
  parentDir : RepoPath.parentDir path = dir
  extension : (RepoPath.extension? path).map Text.asciiLower = some "go"
  notTest : Text.endsWith path "_test.go" = false

def HasPackage (r : Repository) (dir : String) : Prop :=
  ∃ path, IsPackageFile r dir path

/-- Whether a list has the files of the package in a directory, each one once and in the order of
their bytes. -/
structure Lists (r : Repository) (dir : String) (files : List String) : Prop where
  mem_iff : ∀ path, path ∈ files ↔ IsPackageFile r dir path
  sorted : files.Pairwise fun a b => Text.bytes a < Text.bytes b

theorem lists_filesIn (r : Repository) (dir : String) :
    Lists r dir ((r.filesIn dir ["go"]).filter (!Text.endsWith · "_test.go")) where
  mem_iff path := by
    have hgo : Text.asciiLower "go" = "go" := by decide +kernel
    -- extensions are compared without regard to letter case
    have hextension : ((RepoPath.extension? path).map fun ext =>
        ["go"].any (Text.eqIgnoreAsciiCase · ext)).getD false = true ↔
          (RepoPath.extension? path).map Text.asciiLower = some "go" := by
      cases RepoPath.extension? path with
      | none => simp
      | some ext =>
        rw [Option.map_some, Option.getD_some, List.any_cons, List.any_nil, Bool.or_false,
          Text.eqIgnoreAsciiCase_iff, Text.SameLetters, hgo, Option.map_some, Option.some.injEq]
        exact eq_comm
    unfold Repository.filesIn
    rw [List.mem_filter, List.mem_filter, mem_paths_iff, Bool.and_eq_true, hextension, beq_iff_eq,
      Bool.not_eq_true']
    exact ⟨fun h => ⟨h.1.1, h.1.2.1, h.1.2.2, h.2⟩,
      fun h => ⟨⟨h.known, h.parentDir, h.extension⟩, h.notTest⟩⟩
  sorted :=
    (((Dict.keys_pairwise r.known).filter _).filter _).imp fun hlt => Text.lt_iff_bytes_lt.mp hlt

/-- A list with a file in it has the files of one directory only. -/
theorem Lists.dir_eq {files : List String} {dir' : String} (h : Lists r dir files)
    (h' : Lists r dir' files) (hpackage : HasPackage r dir) : dir = dir' := by
  obtain ⟨path, hpath⟩ := hpackage
  have hpath' := (h'.mem_iff path).mp ((h.mem_iff path).mpr hpath)
  exact hpath.parentDir.symm.trans hpath'.parentDir

theorem lists_goFilesIn (hdir : packageDir? m source = some dir) :
    Lists r dir (goFilesIn r m source) := by
  have heq : goFilesIn r m source =
      (r.filesIn dir ["go"]).filter (!Text.endsWith · "_test.go") := by
    unfold packageDir? at hdir
    unfold goFilesIn
    rw [hdir]
  rw [heq]
  exact lists_filesIn r dir

theorem goFilesIn_ne_nil_iff :
    goFilesIn r m source ≠ [] ↔ ∃ dir, packageDir? m source = some dir ∧ HasPackage r dir := by
  cases hdir : packageDir? m source with
  | none =>
    have hnil : goFilesIn r m source = [] := by
      unfold packageDir? at hdir
      unfold goFilesIn
      rw [hdir]
    simp [hnil]
  | some dir =>
    have hlists : Lists r dir (goFilesIn r m source) := lists_goFilesIn hdir
    constructor
    · intro hne
      obtain ⟨path, hpath⟩ := List.exists_mem_of_ne_nil _ hne
      exact ⟨dir, rfl, path, (hlists.mem_iff path).mp hpath⟩
    · rintro ⟨dir', hdir', path, hpath⟩
      obtain rfl := Option.some.inj hdir'
      exact List.ne_nil_of_mem ((hlists.mem_iff path).mpr hpath)

/-! ## The first module with a package -/

/-- Whether a module is the first that finds a package for an import path, and where. -/
def LooksIn (r : Repository) (modules : List GoModule) (source : String) (m : GoModule)
    (dir : String) : Prop :=
  packageDir? m source = some dir ∧ HasPackage r dir ∧
    ∃ before after, modules = before ++ m :: after ∧
      ∀ other ∈ before, ∀ dir', packageDir? other source = some dir' → ¬ HasPackage r dir'

theorem LooksIn.mem (h : LooksIn r modules source m dir) : m ∈ modules := by
  obtain ⟨-, -, before, after, rfl, -⟩ := h
  exact List.mem_append_right _ List.mem_cons_self

theorem lists_of_looksIn {ix : Index} (hr : ix.repository = r) (hmodules : ix.goModules = modules)
    (h : LooksIn r modules source m dir) : Lists r dir (goTargets ix source) := by
  obtain ⟨hdir, hpackage, before, after, hsplit, hbefore⟩ := h
  have hfirst : goFilesIn r m source ≠ [] := goFilesIn_ne_nil_iff.mpr ⟨dir, hdir, hpackage⟩
  -- the modules before it find no package, so they give no files
  have hnone : (before.map (goFilesIn r · source)).find? (!·.isEmpty) = none := by
    refine List.find?_eq_none.mpr fun files hfiles => ?_
    obtain ⟨other, hother, rfl⟩ := List.mem_map.mp hfiles
    have hnil : goFilesIn r other source = [] := by
      by_contra hne
      obtain ⟨dir', hdir', hpackage'⟩ := goFilesIn_ne_nil_iff.mp hne
      exact hbefore other hother dir' hdir' hpackage'
    simp [hnil]
  have htargets : goTargets ix source = goFilesIn r m source := by
    unfold goTargets
    rw [hr, hmodules, hsplit, List.map_append, List.map_cons, List.find?_append, hnone,
      Option.none_or, List.find?_cons_of_pos (by simpa using hfirst), Option.getD_some]
  rw [htargets]
  exact lists_goFilesIn hdir

/-- Where a module has files for an import path, there is a first one that has. -/
theorem exists_looksIn (hm : m ∈ modules) (hne : goFilesIn r m source ≠ []) :
    ∃ m dir, LooksIn r modules source m dir := by
  cases hfind : modules.find? (fun m => !(goFilesIn r m source).isEmpty) with
  | none =>
    have hnot := List.find?_eq_none.mp hfind m hm
    exact absurd hne (by simpa using hnot)
  | some first =>
    obtain ⟨hfirst, before, after, hmodules, hbefore⟩ := List.find?_eq_some_iff_append.mp hfind
    obtain ⟨dir', hdir', hpackage'⟩ := goFilesIn_ne_nil_iff.mp (show _ ≠ [] by simpa using hfirst)
    refine ⟨first, dir', hdir', hpackage', before, after, hmodules, fun other hother d hd hp => ?_⟩
    have hnil : goFilesIn r other source = [] := by simpa using hbefore other hother
    exact goFilesIn_ne_nil_iff.mpr ⟨d, hd, hp⟩ hnil

/--
**The import path of a package leads to its files, unless a module looks beyond its own part.** Let
the path of a directory be that of no other directory with a package. Its files are then listed just
if the first module that finds a package finds this one. And for plain paths that can only fail
where that module looks in a directory which another module governs.
-/
theorem goTargets_packagePath_iff {r : Repository} (entries : List Index.Entry) {dir : String}
    (hgoverned : (governing? (ofRepository r) dir).isSome = true) (hpackage : HasPackage r dir)
    (hunique : ∀ dir', HasPackage r dir' →
      packagePath (ofRepository r) dir' = packagePath (ofRepository r) dir → dir' = dir) :
    let modules := ofRepository r
    let source := packagePath modules dir
    let targets := goTargets (.ofEntries .go r entries) source
    (Lists r dir targets ↔ ∃ m, LooksIn r modules source m dir)
      ∧ (IsPlainPath dir → IsPlainPath source →
        (Lists r dir targets ↔
          ∀ m dir', LooksIn r modules source m dir' → dir' ≠ dir →
            governing? modules dir' = some m)) := by
  intro modules source targets
  have hr := Index.repository_ofEntries .go r entries
  have hmodules : (Index.ofEntries .go r entries).goModules = modules :=
    Index.goModules_ofEntries .go r entries
  have hlists : ∀ m dir', LooksIn r modules source m dir' → Lists r dir' targets := fun m dir' =>
    lists_of_looksIn hr hmodules
  refine ⟨⟨fun hlisted => ?_, fun ⟨m, hlooks⟩ => hlists m dir hlooks⟩,
    fun hplain hsource => ⟨fun hlisted m dir' hlooks hne => ?_, fun hborder => ?_⟩⟩
  · -- the files come from some module, so there is a first one with files
    have hne : targets ≠ [] := by
      obtain ⟨path, hpath⟩ := hpackage
      exact List.ne_nil_of_mem ((hlisted.mem_iff path).mpr hpath)
    obtain ⟨m, hm, hfiles⟩ := List.mem_map.mp ((getD_find?_eq_nil_or_mem _).resolve_left hne)
    have hfound : goFilesIn r m source = targets := hr ▸ hfiles
    obtain ⟨first, dir', hlooks⟩ := exists_looksIn (hmodules ▸ hm) (hfound ▸ hne)
    obtain rfl := hlisted.dir_eq (hlists first dir' hlooks) hpackage
    exact ⟨first, hlooks⟩
  · exact absurd (hlisted.dir_eq (hlists m dir' hlooks) hpackage).symm hne
  · -- the governing module has files, and a first one that governs what it finds finds the same
    obtain ⟨m, hm⟩ := Option.isSome_iff_exists.mp hgoverned
    obtain ⟨first, dir', hlooks⟩ := exists_looksIn (mem_of_governing? hm).1
      (goFilesIn_ne_nil_iff.mpr ⟨dir, packageDir?_packagePath hplain hm, hpackage⟩)
    have hsame : dir' = dir := by
      by_contra hne
      exact hne (hunique dir' hlooks.2.1
        (packagePath_of_packageDir? hsource hlooks.1 (hborder first dir' hlooks hne)))
    exact hsame ▸ hlists first dir' hlooks

/-- The directory of a package is that of a known path. -/
theorem HasPackage.mem_dirs {r : Repository} {dir : String} (h : HasPackage r dir) :
    dir ∈ r.paths.map RepoPath.parentDir := by
  obtain ⟨path, hpath⟩ := h
  exact List.mem_map.mpr ⟨path, mem_paths_iff.mpr hpath.known, hpath.parentDir⟩

/-- A module in `lib` whose path stands for `sub` in the module around it. -/
def renamedModule : Repository :=
  .ofSources [("go.mod", "module example.com/app\n"),
    ("lib/go.mod", "module example.com/app/sub\n")]
    ["main.go", "lib/b.go", "lib/B.go", "lib/b_test.go"]

theorem goTargets_packagePath_renamed :
    let modules : List GoModule := [⟨"", "example.com/app"⟩, ⟨"lib", "example.com/app/sub"⟩]
    let source := "example.com/app/sub"
    ofRepository renamedModule = modules
      ∧ (governing? modules "lib").isSome = true ∧ HasPackage renamedModule "lib"
      ∧ (∀ dir', HasPackage renamedModule dir' →
        packagePath modules dir' = packagePath modules "lib" → dir' = "lib")
      ∧ packagePath modules "lib" = source
      ∧ goTargets (.ofEntries .go renamedModule []) source = ["lib/B.go", "lib/b.go"]
      ∧ Lists renamedModule "lib" (goTargets (.ofEntries .go renamedModule []) source) := by
  intro modules source
  have hmodules : ofRepository renamedModule = modules := by decide +kernel
  -- all known paths are in two directories
  have hdirs : ∀ dir', HasPackage renamedModule dir' → dir' = "" ∨ dir' = "lib" := by
    have hknown :
        ∀ dir' ∈ renamedModule.paths.map RepoPath.parentDir, dir' = "" ∨ dir' = "lib" := by
      decide +kernel
    exact fun dir' hpackage => hknown dir' hpackage.mem_dirs
  have hgoverned : (governing? modules "lib").isSome = true := by decide +kernel
  have hpackage : HasPackage renamedModule "lib" :=
    ⟨"lib/b.go", by decide +kernel, by decide +kernel, by decide +kernel, by decide +kernel⟩
  have hunique : ∀ dir', HasPackage renamedModule dir' →
      packagePath modules dir' = packagePath modules "lib" → dir' = "lib" := by
    intro dir' hpackage' hpath
    rcases hdirs dir' hpackage' with rfl | rfl
    · exact absurd hpath (by decide +kernel)
    · rfl
  have hpath : packagePath modules "lib" = source := by decide +kernel
  have happly := @goTargets_packagePath_iff renamedModule [] "lib"
  rw [hmodules] at happly
  have hiff := (happly hgoverned hpackage hunique).2 (by decide +kernel) (by decide +kernel)
  refine ⟨hmodules, hgoverned, hpackage, hunique, hpath, by decide +kernel, hpath ▸ hiff.mpr ?_⟩
  intro m dir' hlooks hne
  -- no module looks in the directory at the root: the outer one looks in `sub`, where there is
  -- nothing
  have hroot : ∀ m ∈ modules, packageDir? m (packagePath modules "lib") ≠ some "" := by
    decide +kernel
  rcases hdirs dir' hlooks.2.1 with rfl | rfl
  · exact absurd hlooks.1 (hroot m hlooks.mem)
  · exact absurd rfl hne

/-- A module in `z` whose path stands for `sub` in the module around it, and in `sub` a module with
another path. -/
def nestedModule : Repository :=
  .ofSources [("go.mod", "module example.com/app\n"), ("sub/go.mod", "module example.com/other\n"),
    ("z/go.mod", "module example.com/app/sub\n")] ["main.go", "sub/sub.go", "z/z.go"]

/--
The outer module comes first and finds the package of the module in `sub`, which has another path.
-/
theorem goTargets_nestedModule :
    let modules : List GoModule :=
      [⟨"", "example.com/app"⟩, ⟨"sub", "example.com/other"⟩, ⟨"z", "example.com/app/sub"⟩]
    let source := "example.com/app/sub"
    ofRepository nestedModule = modules
      ∧ (governing? modules "z").isSome = true ∧ HasPackage nestedModule "z"
      ∧ packagePath modules "z" = source
      ∧ (∀ dir', HasPackage nestedModule dir' → packagePath modules dir' = source → dir' = "z")
      ∧ packagePath modules "sub" = "example.com/other"
      ∧ goTargets (.ofEntries .go nestedModule []) source = ["sub/sub.go"]
      ∧ ¬ Lists nestedModule "z" (goTargets (.ofEntries .go nestedModule []) source) := by
  intro modules source
  have hknown : ∀ dir' ∈ nestedModule.paths.map RepoPath.parentDir,
      packagePath modules dir' = source → dir' = "z" := by decide +kernel
  have hpackage : HasPackage nestedModule "z" :=
    ⟨"z/z.go", by decide +kernel, by decide +kernel, by decide +kernel, by decide +kernel⟩
  have htargets : goTargets (.ofEntries .go nestedModule []) source = ["sub/sub.go"] := by
    decide +kernel
  refine ⟨by decide +kernel, by decide +kernel, hpackage, by decide +kernel,
    fun dir' hpackage' => hknown dir' hpackage'.mem_dirs, by decide +kernel, htargets,
    fun hlists => ?_⟩
  rw [htargets] at hlists
  have hparent := ((hlists.mem_iff "sub/sub.go").mp List.mem_cons_self).parentDir
  exact absurd hparent (by decide +kernel)

end Resolve

end SourceAtlas
