import SourceAtlas.Proofs.Dict
import SourceAtlas.Proofs.RepoPath
import SourceAtlas.Repository

/-!
# Repositories: the form of their paths

A repository is made from sources or from a directory, and either way its paths are brought to their
normal form first (`IsView.exists_normal`). So none of them starts with a slash
(`IsView.contains_slash`).
-/

namespace SourceAtlas.Repository

/-- The repositories that can be made. -/
inductive IsView : Repository → Prop
  | ofSources (sources : List (String × String)) (skeleton : List String) :
    IsView (.ofSources sources skeleton)
  | ofDisk (d : Disk) (paths : List String) : IsView (.ofDisk d paths)

namespace IsView

variable {r : Repository} {path : String}

theorem exists_normal (hview : r.IsView) (hknown : r.contains path = true) :
    ∃ written, path = RepoPath.normal written := by
  have hmem : path ∈ r.known.keys := Dict.contains_iff_mem_keys.mp hknown
  cases hview with
  | ofSources sources skeleton =>
    obtain ⟨pair, hpair, rfl⟩ := List.mem_map.mp (Dict.mem_keys_ofList.mp hmem)
    obtain ⟨known, hlisted, rfl⟩ := List.mem_map.mp hpair
    rcases List.mem_append.mp hlisted with hskeleton | hsource
    · obtain ⟨written, -, rfl⟩ := List.mem_map.mp hskeleton
      exact ⟨written, rfl⟩
    · obtain ⟨text, htext, rfl⟩ := List.mem_map.mp hsource
      obtain ⟨source, -, rfl⟩ := List.mem_map.mp htext
      exact ⟨source.1, rfl⟩
  | ofDisk d paths =>
    obtain ⟨pair, hpair, rfl⟩ := List.mem_map.mp (Dict.mem_keys_ofList.mp hmem)
    obtain ⟨written, -, rfl⟩ := List.mem_map.mp hpair
    exact ⟨written, rfl⟩

/-- A path that starts with a slash is not known. -/
theorem contains_slash (hview : r.IsView) (rest : String) : r.contains ("/" ++ rest) = false := by
  refine Bool.eq_false_iff.mpr fun hknown => ?_
  obtain ⟨written, hwritten⟩ := hview.exists_normal hknown
  refine RepoPath.head?_normal_ne_slash written ?_
  rw [← hwritten, String.toList_append]
  rfl

end IsView

end SourceAtlas.Repository
