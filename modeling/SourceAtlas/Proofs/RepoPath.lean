import SourceAtlas.RepoPath
import SourceAtlas.Proofs.Traversal
import Mathlib.Algebra.Order.BigOperators.Group.Finset

/-!
# Paths: what the normal form changes

The normal form turns backslashes into slashes and drops `./` and slashes at the start, in that
order. It is not idempotent: the slashes of `/./a` go, and the `./` that they hid stays. What can be
said of every path:

* **`normalChars_suffix`**: apart from its backslashes, a path only loses a part at its start;
* **`normal_eq_self_of_length_eq`**: so a path without backslashes that keeps its length is its own
  normal form;
* **`normal_eq_self_of_subset_image`**: a finite set of such paths that the normal form maps onto
  itself consists of paths that are their own normal form. No cycle is possible, for a path that
  changes gets shorter.
-/

namespace SourceAtlas.RepoPath

/-! ## What is dropped -/

/-- The character that stands for another one in a path with forward slashes. -/
def slashed (c : Char) : Char :=
  if c == '\\' then '/' else c

theorem slashed_ne_backslash (c : Char) : slashed c ≠ '\\' := by
  unfold slashed
  split
  · decide
  next h => simpa using h

theorem map_slashed_of_not_mem {cs : List Char} (h : '\\' ∉ cs) : cs.map slashed = cs := by
  refine Traversal.map_eq_self fun c hc => ?_
  have hne : c ≠ '\\' := fun heq => h (heq ▸ hc)
  simp [slashed, hne]

theorem dropDotSlash_suffix (cs : List Char) : dropDotSlash cs <:+ cs := by
  fun_induction dropDotSlash cs with
  | case1 rest ih => exact (ih.trans (List.suffix_cons _ _)).trans (List.suffix_cons _ _)
  | case2 cs => exact List.suffix_rfl

/-- Apart from its backslashes a path only loses a part at its start. -/
theorem normalChars_suffix (cs : List Char) : normalChars cs <:+ cs.map slashed :=
  (List.dropWhile_suffix _).trans (dropDotSlash_suffix _)

theorem toList_normal (path : String) : (normal path).toList = normalChars path.toList := by
  unfold normal Text.onChars
  rw [String.toList_ofList]

theorem backslash_not_mem_normal (path : String) : '\\' ∉ (normal path).toList := by
  intro h
  rw [toList_normal] at h
  obtain ⟨c, -, hc⟩ := List.mem_map.mp ((normalChars_suffix _).subset h)
  exact slashed_ne_backslash c hc

theorem head?_normal_ne_slash (path : String) : (normal path).toList.head? ≠ some '/' := by
  rw [toList_normal, normalChars]
  intro hslash
  -- the slashes are dropped last, so none is left in front
  have hnot := List.head?_dropWhile_not (· == '/')
    (dropDotSlash (path.toList.map fun c => if c == '\\' then '/' else c))
  rw [hslash] at hnot
  cases hnot

/-- An ending without slashes that the normal form has was there before. -/
theorem suffix_of_suffix_normal {path : String} {ending : List Char} (hslash : '/' ∉ ending)
    (h : ending <:+ (normal path).toList) : ending <:+ path.toList := by
  rw [toList_normal] at h
  obtain ⟨front, hfront⟩ := h.trans (normalChars_suffix _)
  obtain ⟨before, after, hpath, -, hafter⟩ := List.map_eq_append_iff.mp hfront.symm
  -- a backslash would have become a slash
  have hback : '\\' ∉ after := fun hmem => hslash (hafter ▸ List.mem_map.mpr ⟨'\\', hmem, rfl⟩)
  rw [map_slashed_of_not_mem hback] at hafter
  exact ⟨before, by rw [hpath, hafter]⟩

theorem length_normal_le (path : String) : (normal path).length ≤ path.length := by
  have h := (normalChars_suffix path.toList).length_le
  rw [List.length_map] at h
  rw [← String.length_toList, ← String.length_toList, toList_normal]
  exact h

/-! ## Fixed points -/

theorem normal_eq_self_of_length_eq {path : String} (hslash : '\\' ∉ path.toList)
    (hlength : (normal path).length = path.length) : normal path = path := by
  have hsuffix := normalChars_suffix path.toList
  rw [map_slashed_of_not_mem hslash] at hsuffix
  rw [← String.length_toList, ← String.length_toList, toList_normal] at hlength
  rw [← String.toList_inj, toList_normal]
  exact hsuffix.eq_of_length hlength

/-- **A normal form cannot run in a cycle.** If every path of a finite set is the normal form of one
of the set, then all of them are their own normal forms: the map is one to one on the set, and since
no path gets longer, none gets shorter. -/
theorem normal_eq_self_of_subset_image {paths : Finset String}
    (hslash : ∀ path ∈ paths, '\\' ∉ path.toList) (hsub : paths ⊆ paths.image normal) :
    ∀ path ∈ paths, normal path = path := by
  have hcard : (paths.image normal).card = paths.card :=
    le_antisymm Finset.card_image_le (Finset.card_le_card hsub)
  have himage : paths.image normal = paths :=
    (Finset.eq_of_subset_of_card_le hsub hcard.le).symm
  -- the lengths are the same in sum, and none of them grows
  have hsum : ∑ path ∈ paths, (normal path).length = ∑ path ∈ paths, path.length := by
    rw [← Finset.sum_image (Finset.card_image_iff.mp hcard) (f := String.length), himage]
  have hlength := (Finset.sum_eq_sum_iff_of_le fun path _ => length_normal_le path).mp hsum
  exact fun path hpath => normal_eq_self_of_length_eq (hslash path hpath) (hlength path hpath)

/-- Two steps that take off something each. -/
example : normal "/./a" = "./a" ∧ normal "./a" = "a" := by decide +kernel

end SourceAtlas.RepoPath
