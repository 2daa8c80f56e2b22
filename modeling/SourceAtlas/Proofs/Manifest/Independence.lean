import Mathlib.Data.List.ModifyLast
import SourceAtlas.Manifest.Inventory
import SourceAtlas.Proofs.ByteOrder
import SourceAtlas.Proofs.Repository

/-!
# Manifests are read independently

An inventory can be collected in one place that all manifests write to: for each known path that is
a manifest its tool is put at the end, then its text is read, and whatever is found is put at the
end too, while a project of Poetry gives another name to the tool that stands last. This module
shows that no manifest gets in the way of another:

* **`Inventory.foldl_write`**: whatever a manifest writes, of all that was there before only its own
  tool changes;
* **`Inventory.visit_eq_append`**: so one path adds what the repository with this file alone would
  have, and **`Inventory.collect_eq_concat`** says it of all paths, one after another;
* **`Inventory.ofRepository_eq_concat`**: the inventory of a repository, which is put together
  manifest by manifest, is the same.

What a single file contributes is then read off its own path and text (`Inventory.OfOneFile`).
-/

namespace SourceAtlas

/-! ## Repositories with one file -/

namespace Repository

/-- The repository with one file, whose text may not be at hand. -/
def oneFile (path : String) (text : Option String) : Repository :=
  { known := Dict.ofList [(path, ())], texts := Dict.ofList (text.toList.map (path, ·)) }

theorem paths_oneFile (path : String) (text : Option String) : (oneFile path text).paths = [path] :=
  rfl

theorem read?_oneFile (path : String) (text : Option String) :
    (oneFile path text).read? path = text := by
  unfold read? oneFile
  -- without a text nothing is stored, and with one it stands under its own path
  cases text with
  | none => rfl
  | some text => simp [Dict.find?_ofList]

/-- A source by itself. -/
theorem oneFile_normal_some (written text : String) :
    oneFile (RepoPath.normal written) (some text) = ofSources [(written, text)] [] :=
  rfl

/-- A path that exists elsewhere, by itself. -/
theorem oneFile_normal_none (written : String) :
    oneFile (RepoPath.normal written) none = ofSources [] [written] :=
  rfl

theorem paths_bytes_pairwise (r : Repository) :
    r.paths.Pairwise fun path path' => Text.bytes path < Text.bytes path' :=
  r.known.keys_pairwise.imp Text.lt_iff_bytes_lt.mp

end Repository

/-! ## What a manifest writes -/

namespace Manifest

/-- One change to the inventory while a manifest is read. -/
inductive Write where
  /-- Puts a dependency at the end. -/
  | require (q : Requirement)
  /-- Gives another name to the tool that stands last. -/
  | renameTool (name : String)

namespace Write

/-- The requirement that is written, if it is one. -/
def requirement? : Write → Option Requirement
  | .require q => some q
  | .renameTool _ => none

/-- What a write makes of the tool that stands last. -/
def onTool (t : BuildTool) : Write → BuildTool
  | .require _ => t
  | .renameTool name => { t with name }

theorem filterMap_requirement?_map_require (qs : List Requirement) :
    (qs.map require).filterMap requirement? = qs := by
  rw [List.filterMap_map]
  exact List.filterMap_some

theorem foldl_onTool_map_require (qs : List Requirement) (t : BuildTool) :
    (qs.map require).foldl onTool t = t := by
  induction qs with
  | nil => rfl
  | cons q qs ih => exact ih

end Write

namespace Kind

/--
What a Python project writes: the packages it declares, and if it is one of Poetry, the name of the
tool and then the packages declared for Poetry.
-/
def pythonWrites (text : String) : List Write :=
  match Toml.read? text with
  | none => []
  | some doc =>
    let listed := (((doc.get? "project").bind (·.get? "dependencies")).bind Toml.asArray?).getD []
    let declared := (listed.filterMap Toml.asString?).filterMap Requirement.parse?
    match (doc.get? "tool").bind (·.get? "poetry") with
    | none => declared.map .require
    | some poetry =>
      declared.map .require ++
        .renameTool "poetry" :: (ofTable (poetry.get? "dependencies")).map .require

/-- What a manifest writes while its text is read. -/
def writes (k : Kind) (text : String) : List Write :=
  match k with
  | .pythonProject => pythonWrites text
  | k => (k.requirements text).map .require

/-- What a Python project writes and what it requires, side by side: either the tool is not renamed,
or it is renamed between the packages that it declares and those that it declares for Poetry. -/
theorem pythonWrites_cases (text : String) : ∃ declared,
    (pythonWrites text = declared.map .require ∧ ofPythonProject text = (declared, false)) ∨
      ∃ more,
        pythonWrites text = declared.map .require ++ .renameTool "poetry" :: more.map .require ∧
        ofPythonProject text = (declared ++ more, true) := by
  unfold pythonWrites ofPythonProject
  cases Toml.read? text with
  | none => exact ⟨[], Or.inl ⟨rfl, rfl⟩⟩
  | some doc =>
    dsimp only
    -- the tool is renamed by the table of Poetry alone, whatever the project declares
    cases (doc.get? "tool").bind (·.get? "poetry") with
    | none => exact ⟨_, Or.inl ⟨rfl, rfl⟩⟩
    | some poetry => exact ⟨_, Or.inr ⟨_, rfl, rfl⟩⟩

theorem requirements_pythonWrites (text : String) :
    (pythonWrites text).filterMap Write.requirement? = (ofPythonProject text).1 := by
  obtain ⟨declared, ⟨hwrites, hproject⟩ | ⟨more, hwrites, hproject⟩⟩ := pythonWrites_cases text
  · rw [hwrites, hproject, Write.filterMap_requirement?_map_require]
  -- the renaming between the two lists is no requirement
  · rw [hwrites, hproject, List.filterMap_append, Write.filterMap_requirement?_map_require,
      List.filterMap_cons, Write.requirement?, Write.filterMap_requirement?_map_require]

theorem onTool_pythonWrites (text : String) (t : BuildTool) :
    (pythonWrites text).foldl Write.onTool t =
      if (ofPythonProject text).2 then { t with name := "poetry" } else t := by
  obtain ⟨declared, ⟨hwrites, hproject⟩ | ⟨more, hwrites, hproject⟩⟩ := pythonWrites_cases text
  · rw [hwrites, hproject, Write.foldl_onTool_map_require, if_neg Bool.false_ne_true]
  · rw [hwrites, hproject, List.foldl_append, Write.foldl_onTool_map_require, List.foldl_cons,
      Write.foldl_onTool_map_require, if_pos rfl, Write.onTool]

/-- The requirements that are written are those of the text. -/
theorem filterMap_requirement?_writes (k : Kind) (text : String) :
    (k.writes text).filterMap Write.requirement? = k.requirements text := by
  unfold writes
  split
  · exact requirements_pythonWrites text
  · exact Write.filterMap_requirement?_map_require _

/-- The tool keeps its file, and its name becomes the one that the text tells. -/
theorem foldl_onTool_writes (k : Kind) (text path : String) :
    (k.writes text).foldl Write.onTool { name := k.tool, file := path } =
      { name := k.toolFor (some text), file := path } := by
  unfold writes toolFor
  -- only a Python project can rename its tool
  cases k with
  | pythonProject =>
    dsimp only
    rw [onTool_pythonWrites]
    split
    · rfl
    · rfl
  | _ => exact Write.foldl_onTool_map_require _ _

/-- The dependency that a requirement becomes in a manifest. -/
def dependency (k : Kind) (path : String) (q : Requirement) : Dependency :=
  { name := q.name
    version := q.withoutAnyVersion.version
    ecosystem := k.ecosystem
    file := path }

end Kind

end Manifest

open Manifest (Kind Write)

namespace Inventory

/-! ## Inventories one after another -/

/-- The inventory without entries. -/
def empty : Inventory :=
  { buildTools := [], dependencies := [] }

instance : Append Inventory :=
  ⟨fun a b => { buildTools := a.buildTools ++ b.buildTools
                dependencies := a.dependencies ++ b.dependencies }⟩

/-- Several inventories, one after another. -/
def concat (parts : List Inventory) : Inventory :=
  { buildTools := parts.flatMap (·.buildTools), dependencies := parts.flatMap (·.dependencies) }

theorem append_eq (a b : Inventory) : a ++ b =
    { buildTools := a.buildTools ++ b.buildTools
      dependencies := a.dependencies ++ b.dependencies } :=
  rfl

theorem append_empty (a : Inventory) : a ++ empty = a := by
  rw [append_eq]
  show (⟨a.buildTools ++ [], a.dependencies ++ []⟩ : Inventory) = a
  rw [List.append_nil, List.append_nil]

theorem append_assoc (a b c : Inventory) : a ++ b ++ c = a ++ (b ++ c) := by
  simp only [append_eq, List.append_assoc]

theorem concat_cons (part : Inventory) (parts : List Inventory) :
    concat (part :: parts) = part ++ concat parts :=
  rfl

/-! ## One file -/

/-- The inventory of the repository with one file. -/
def ofFile (path : String) (text : Option String) : Inventory :=
  ofRepository (.oneFile path text)

theorem dependenciesOf_eq (r : Repository) (path : String) (kind : Kind) :
    dependenciesOf r path kind =
      ((r.read? path).toList.flatMap kind.requirements).map (kind.dependency path) := by
  unfold dependenciesOf
  cases r.read? path with
  | none => rfl
  | some text =>
    rw [Option.toList_some, List.flatMap_singleton]
    rfl

theorem manifests_oneFile (path : String) (text : Option String) :
    manifests (.oneFile path text) = ((Kind.ofPath? path).map (path, ·)).toList := by
  unfold manifests
  rw [Repository.paths_oneFile, List.filterMap_cons]
  cases Kind.ofPath? path <;> rfl

theorem ofFile_of_ofPath?_eq_none {path : String} (h : Kind.ofPath? path = none)
    (text : Option String) : ofFile path text = empty := by
  unfold ofFile ofRepository
  rw [manifests_oneFile, h]
  rfl

theorem ofFile_of_ofPath?_eq_some {path : String} {kind : Kind} (h : Kind.ofPath? path = some kind)
    (text : Option String) : ofFile path text =
      { buildTools := [{ name := kind.toolFor text, file := path }]
        dependencies := (text.toList.flatMap kind.requirements).map (kind.dependency path) } := by
  unfold ofFile ofRepository
  rw [manifests_oneFile, h]
  simp only [Option.map_some, Option.toList_some, List.map_cons, List.map_nil,
    List.flatMap_singleton, Repository.read?_oneFile, dependenciesOf_eq]

/-- **The inventory of a repository is put together from those of its files.** -/
theorem ofRepository_eq_concat (r : Repository) :
    ofRepository r = concat (r.paths.map fun path => ofFile path (r.read? path)) := by
  unfold ofRepository concat manifests
  rw [List.flatMap_map, List.flatMap_map, List.map_filterMap, List.filterMap_eq_flatMap_toList,
    List.filterMap_eq_flatMap_toList, List.flatMap_assoc]
  -- the tools and the dependencies are compared path by path
  congr 2
  · funext path
    cases hkind : Kind.ofPath? path with
    | none => rw [ofFile_of_ofPath?_eq_none hkind]; rfl
    | some kind => rw [ofFile_of_ofPath?_eq_some hkind]; rfl
  · funext path
    cases hkind : Kind.ofPath? path with
    | none => rw [ofFile_of_ofPath?_eq_none hkind]; rfl
    | some kind =>
      rw [ofFile_of_ofPath?_eq_some hkind, ← dependenciesOf_eq]
      exact List.append_nil _

/-! ## Collecting in one place -/

/-- Makes one change while the manifest at a path is read. -/
def write (path : String) (kind : Kind) (inv : Inventory) : Write → Inventory
  | .require q => { inv with dependencies := inv.dependencies ++ [kind.dependency path q] }
  | .renameTool name =>
    { inv with buildTools := inv.buildTools.modifyLast fun t => { t with name } }

/-- Puts a tool at the end. -/
def addTool (inv : Inventory) (name path : String) : Inventory :=
  { inv with buildTools := inv.buildTools ++ [{ name, file := path }] }

/-- Takes in the file at a path: nothing if it is no manifest, else its tool and, if its text is at
hand, whatever is written while that is read. -/
def visit (r : Repository) (inv : Inventory) (path : String) : Inventory :=
  match Kind.ofPath? path with
  | none => inv
  | some kind =>
    let inv := inv.addTool kind.tool path
    match r.read? path with
    | none => inv
    | some text => (kind.writes text).foldl (write path kind) inv

/-- Takes in all known paths, one after another. -/
def collect (r : Repository) : Inventory :=
  r.paths.foldl (visit r) empty

/--
**Of what was there before, only the last tool changes.** The induction is on the writes, with the
last tool and the dependencies general; the tools before it stay what they are.
-/
theorem foldl_write (path : String) (kind : Kind) (ws : List Write) (tools : List BuildTool)
    (tool : BuildTool) (dependencies : List Dependency) :
    ws.foldl (write path kind) { buildTools := tools ++ [tool], dependencies } =
      { buildTools := tools ++ [ws.foldl Write.onTool tool]
        dependencies :=
          dependencies ++ (ws.filterMap Write.requirement?).map (kind.dependency path) } := by
  induction ws generalizing tool dependencies with
  | nil =>
    show (⟨tools ++ [tool], dependencies⟩ : Inventory) = ⟨tools ++ [tool], dependencies ++ []⟩
    rw [List.append_nil]
  | cons w ws ih =>
    rw [List.foldl_cons, List.foldl_cons]
    cases w with
    | require q =>
      show ws.foldl (write path kind) ⟨tools ++ [tool], dependencies ++ [kind.dependency path q]⟩
        = _
      rw [ih, List.append_assoc, List.singleton_append]
      rfl
    | renameTool name =>
      show ws.foldl (write path kind)
        ⟨(tools ++ [tool]).modifyLast fun t => { t with name }, dependencies⟩ = _
      -- the last tool is at hand by itself, so the others are not touched
      rw [List.modifyLast_concat, ih]
      rfl

/--
**One path adds what its file alone would have.** The tool that the writes of a manifest find last
is its own, for it was put there just before.
-/
theorem visit_eq_append (r : Repository) (inv : Inventory) (path : String) :
    visit r inv path = inv ++ ofFile path (r.read? path) := by
  unfold visit
  cases hkind : Kind.ofPath? path with
  | none =>
    rw [ofFile_of_ofPath?_eq_none hkind, append_empty]
  | some kind =>
    rw [ofFile_of_ofPath?_eq_some hkind, append_eq]
    dsimp only
    cases r.read? path with
    | none =>
      -- the tool counts without a text, under the name that its manifest gives it
      have hname : kind.toolFor none = kind.tool := by cases kind <;> rfl
      rw [hname, Option.toList_none, List.flatMap_nil, List.map_nil, List.append_nil]
      rfl
    | some text =>
      dsimp only
      -- the tool stands at the end before the first write, as `foldl_write` asks
      unfold addTool
      rw [foldl_write, Kind.foldl_onTool_writes, Kind.filterMap_requirement?_writes,
        Option.toList_some, List.flatMap_singleton]

/-- Any paths, taken in after others. -/
theorem foldl_visit (r : Repository) (paths : List String) (inv : Inventory) :
    paths.foldl (visit r) inv =
      inv ++ concat (paths.map fun path => ofFile path (r.read? path)) := by
  induction paths generalizing inv with
  | nil => exact (append_empty inv).symm
  | cons path paths ih =>
    rw [List.foldl_cons, ih, visit_eq_append, append_assoc, List.map_cons, concat_cons]

theorem collect_eq_concat (r : Repository) :
    collect r = concat (r.paths.map fun path => ofFile path (r.read? path)) :=
  foldl_visit r r.paths empty

/-! ## What a file contributes -/

/-- A version that says nothing is not kept. -/
theorem version_dependency_ne (kind : Kind) (path : String) (q : Requirement) :
    (kind.dependency path q).version ≠ some "" ∧ (kind.dependency path q).version ≠ some "*" := by
  constructor
  · intro h
    -- a version that is kept has passed the test that these two fail
    have hkept := (Option.filter_eq_some_iff.mp h).2
    exact absurd hkept (by decide)
  · intro h
    have hkept := (Option.filter_eq_some_iff.mp h).2
    exact absurd hkept (by decide)

/-- What an inventory is if it comes from the file at one path. -/
structure OfOneFile (path : String) (inv : Inventory) : Prop where
  /-- A manifest shows its tool, once. -/
  tool : ∀ kind, Kind.ofPath? path = some kind → ∃ name, inv.buildTools = [{ name, file := path }]
  /-- Any other file contributes nothing. -/
  other : Kind.ofPath? path = none → inv = empty
  file : ∀ d ∈ inv.dependencies, d.file = path
  version : ∀ d ∈ inv.dependencies, d.version ≠ some "" ∧ d.version ≠ some "*"

theorem ofOneFile_ofFile (path : String) (text : Option String) :
    OfOneFile path (ofFile path text) := by
  cases hkind : Kind.ofPath? path with
  | none =>
    rw [ofFile_of_ofPath?_eq_none hkind]
    exact
      { tool := fun kind h => by rw [hkind] at h; cases h
        other := fun _ => rfl
        file := fun _ hd => nomatch hd
        version := fun _ hd => nomatch hd }
  | some kind =>
    -- every dependency is made from a requirement, under this path
    rw [ofFile_of_ofPath?_eq_some hkind]
    refine
      { tool := fun _ _ => ⟨kind.toolFor text, rfl⟩
        other := fun h => by rw [hkind] at h; cases h
        file := fun d hd => ?_
        version := fun d hd => ?_ }
    · obtain ⟨q, -, rfl⟩ := List.mem_map.mp hd
      rfl
    · obtain ⟨q, -, rfl⟩ := List.mem_map.mp hd
      exact version_dependency_ne kind path q

/-- Whether the manifests of a repository are read independently. -/
structure ReadsIndependently (r : Repository) : Prop where
  /-- An inventory that all manifests write to is the inventory of the repository. -/
  collect_eq : collect r = ofRepository r
  /-- The inventory is that of the single files, one after another. -/
  eq_concat : ofRepository r = concat (r.paths.map fun path => ofFile path (r.read? path))
  bytewise : r.paths.Pairwise fun path path' => Text.bytes path < Text.bytes path'
  /--
  The repository with a single file is made from sources, whichever way its path is written: from
  the file with its text, or from the path alone if its text is not at hand.
  -/
  alone : ∀ path ∈ r.paths, ∀ written, RepoPath.normal written = path →
    (∀ text, r.read? path = some text →
      ofFile path (r.read? path) = ofRepository (.ofSources [(written, text)] [])) ∧
    (r.read? path = none → ofFile path (r.read? path) = ofRepository (.ofSources [] [written]))
  /--
  Every path can be written in some way. It need not be itself: `./a` is the normal form of `/./a`
  but not its own.
  -/
  writable : ∀ path ∈ r.paths, ∃ written, RepoPath.normal written = path
  ofOneFile : ∀ path ∈ r.paths, OfOneFile path (ofFile path (r.read? path))

/--
Manifests are read independently. For a repository made from sources and further paths, an inventory
that all manifests write to is the inventory of the repository, and that is the inventories of its
files one after another, in the bytewise order of the paths. Each of these is the inventory of a
repository made from this file alone, and has one tool for a manifest, under its own path, and only
dependencies of its own path, without versions that are empty or `*`.
-/
theorem ofRepository_independent (sources : List (String × String)) (skeleton : List String) :
    ReadsIndependently (.ofSources sources skeleton) where
  collect_eq := by rw [collect_eq_concat, ofRepository_eq_concat]
  eq_concat := ofRepository_eq_concat _
  bytewise := Repository.paths_bytes_pairwise _
  alone := by
    rintro path - written rfl
    refine ⟨fun text htext => ?_, fun hnone => ?_⟩
    · rw [htext, ofFile, Repository.oneFile_normal_some]
    · rw [hnone, ofFile, Repository.oneFile_normal_none]
  writable := by
    intro path hpath
    -- a known path is the normal form of a source or of a further path
    have hview := Repository.IsView.ofSources sources skeleton
    obtain ⟨written, hwritten⟩ := hview.exists_normal (Dict.contains_iff_mem_keys.mpr hpath)
    exact ⟨written, hwritten.symm⟩
  ofOneFile := fun path _ => ofOneFile_ofFile path _

/--
A project of Poetry between other manifests, one with a malformed text and one without a text.
-/
theorem ofRepository_independent_poetry :
    let r := Repository.ofSources
      [("b/pyproject.toml", "[tool.poetry.dependencies]\npython = \"3\"\nx = \"*\"\n"),
       ("a/go.mod", "require y v1\n"), ("/./package.json", "\x7b")] ["pom.xml"]
    let poetry := ofFile "b/pyproject.toml" (r.read? "b/pyproject.toml")
    collect r =
        { buildTools :=
            [⟨"npm", "./package.json"⟩, ⟨"go", "a/go.mod"⟩, ⟨"poetry", "b/pyproject.toml"⟩,
             ⟨"maven", "pom.xml"⟩]
          dependencies :=
            [⟨"y", some "v1", "go", "a/go.mod"⟩, ⟨"x", none, "pypi", "b/pyproject.toml"⟩] } ∧
      "b/pyproject.toml" ∈ r.paths ∧ OfOneFile "b/pyproject.toml" poetry ∧
      poetry.buildTools = [⟨"poetry", "b/pyproject.toml"⟩] := by
  intro r poetry
  have hindependent := ofRepository_independent
    [("b/pyproject.toml", "[tool.poetry.dependencies]\npython = \"3\"\nx = \"*\"\n"),
     ("a/go.mod", "require y v1\n"), ("/./package.json", "\x7b")] ["pom.xml"]
  have hmem : "b/pyproject.toml" ∈ r.paths := by decide +kernel
  refine ⟨hindependent.collect_eq.trans ?_, hmem, hindependent.ofOneFile _ hmem, ?_⟩
  · decide +kernel
  · decide +kernel

end Inventory

end SourceAtlas
