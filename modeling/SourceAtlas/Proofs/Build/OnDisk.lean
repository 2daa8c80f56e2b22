import SourceAtlas.Discovery
import SourceAtlas.Proofs.Build.Stages

/-!
# Builds from a directory

A build from a directory walks it, selects among the files that the walk came upon, and goes on as a
build from sources does (`run_eq_ok_iff`). What the later stages need to know of the walk:

* a path that is accepted is one that the walk came upon (`mem_known_of_mem_accepted`);
* the repository knows these paths in normal form (`contains_ofDisk`).
-/

namespace SourceAtlas

namespace Discovery

/--
Whether a walk came upon a path, or upon one that the repository keeps as this path. The two differ
for a name with a backslash in it.
-/
def Knows (found : Discovery) (path : String) : Prop :=
  path ∈ found.known ∨ path ∈ found.known.map RepoPath.normal

variable {scan : ScanConfig} {d : Disk} {found : Discovery}

theorem ofDisk_eq_ok_iff :
    ofDisk scan d = .ok found ↔ ∃ excludes, excludeRules scan = .ok excludes
      ∧ found =
        { known := (walk d excludes).keys
          selection := (walk d excludes).entries.foldl
            (fun s (path, content) => s.add scan path content.size) {} } := by
  unfold ofDisk
  cases excludeRules scan with
  | error e => simp [bind, Except.bind]
  | ok excludes =>
    simp only [bind, Except.bind, pure, Except.pure, Except.ok.injEq, exists_eq_left']
    exact eq_comm

/-- A path that is accepted is one that the walk came upon. -/
theorem mem_known_of_mem_accepted (h : ofDisk scan d = .ok found) {l : Language} {path : String}
    (hpath : (l, path) ∈ found.selection.accepted) : path ∈ found.known := by
  obtain ⟨excludes, -, rfl⟩ := ofDisk_eq_ok_iff.mp h
  -- the selection is a fold over the files of the walk
  have haccepted := Traversal.foldl_append_toList (fun s (e : String × FileContent) =>
    Selection.accepted_add scan s e.1 e.2.size) (walk d excludes).entries {}
  dsimp only at hpath ⊢
  rw [haccepted, List.nil_append, List.mem_filterMap] at hpath
  obtain ⟨e, he, hsome⟩ := hpath
  split at hsome
  · obtain ⟨l', -, heq⟩ := Option.map_eq_some_iff.mp hsome
    rw [← (Prod.mk.inj heq).2]
    exact List.mem_map_of_mem he
  · cases hsome

end Discovery

theorem Repository.contains_ofDisk {d : Disk} {paths : List String} {path : String} :
    (Repository.ofDisk d paths).contains path = true ↔ path ∈ paths.map RepoPath.normal := by
  unfold contains ofDisk
  rw [Dict.contains_iff_mem_keys, Dict.mem_keys_ofList, List.map_map]
  rfl

/--
A build from a directory succeeds if the settings are valid, the walk is, it came upon a file that
is recognised, and the pool does not break down; it is then `process` on what was selected.
-/
theorem Builder.run_eq_ok_iff {b : Builder} {root : String} {name : Option String} {d : Disk}
    {out : BuildOutput} :
    b.run root name (some d) = .ok out ↔
      b.config.validate = .ok () ∧ ∃ found, Discovery.ofDisk b.config.scan d = .ok found
        ∧ found.selection.isEmpty = false
        ∧ b.breaksDown (.ofDisk d found.known) found.selection = false
        ∧ out = b.process (projectName root name) (.ofDisk d found.known) found.selection := by
  unfold run
  cases b.config.validate with
  | error e => simp
  | ok u =>
    dsimp only
    -- the settings are checked before the walk, and the walk before what it found
    cases Discovery.ofDisk b.config.scan d with
    | error e => simp
    | ok found =>
      simp only [true_and, Except.ok.injEq, exists_eq_left']
      split
      next hempty => simp [hempty]
      next hempty =>
        rw [Bool.not_eq_true] at hempty
        simp only [hempty, true_and]
        exact processSelection_eq_ok_iff

theorem Builder.run_eq_error_of_breaksDown {b : Builder} {d : Disk} {found : Discovery}
    (hvalid : b.config.validate = .ok ()) (hfound : Discovery.ofDisk b.config.scan d = .ok found)
    (hsome : found.selection.isEmpty = false)
    (hbreaks : b.breaksDown (.ofDisk d found.known) found.selection = true) (root : String)
    (name : Option String) :
    b.run root name (some d) = .error (.breakdown .capacityOverflow) := by
  unfold run
  rw [hvalid]
  dsimp only
  rw [hfound]
  exact (if_neg (Bool.eq_false_iff.mp hsome)).trans
    (processSelection_eq_error_iff.mpr ⟨hbreaks, rfl⟩)

theorem Builder.run_eq_error_of_isEmpty {b : Builder} {d : Disk} {found : Discovery}
    (hvalid : b.config.validate = .ok ()) (hfound : Discovery.ofDisk b.config.scan d = .ok found)
    (hempty : found.selection.isEmpty = true) (root : String) (name : Option String) :
    b.run root name (some d) = .error (.noRecognizedFiles root) := by
  unfold run
  rw [hvalid]
  dsimp only
  rw [hfound]
  exact if_pos hempty

end SourceAtlas
